import Mathlib.Data.Finset.Dedup
import Oscam.Cccam.ServerCards
import Oscam.Lib.BestEntries

/-!
# One card of each kind

What `add_card_to_serverlist` does in the modes that drop duplicates: the list
holds one card of each kind, with the smallest hop that was added.  Two cards
are of one kind when `same_card` says so, or, with `MINIMIZE_HOPS`, when
`same_card2` does and they have the same providers.  `equal_providers` only
finds that out for cards that name no provider twice.
-/

namespace Oscam.Cccam

/-- The providers of a card, as a set. -/
def Card.provSet (card : Card) : Finset Nat :=
  (card.providers.map Provider.prov).toFinset

/-- What `same_card2` compares. -/
def Card.kind2 (card : Card) : Nat × CardType × Option Nat × Grp :=
  (card.caid, card.cardType, card.sidtab, card.grp)

/-- What `same_card` compares. -/
def Card.kind (card : Card) :
    Nat × (Nat × CardType × Option Nat × Grp) × Option (List UInt8) :=
  (card.remoteId, card.kind2, card.remoteNodes.head?)

/-- What should be compared with `MINIMIZE_HOPS`. -/
def Card.kindHops (card : Card) :
    (Nat × CardType × Option Nat × Grp) × Finset Nat :=
  (card.kind2, card.provSet)

variable {cfg : MinimizeCfg} {cardlist : List Card} {new : AddedCard}

theorem sameCard2_iff {left right : Card} :
    left.sameCard2 right = true ↔ left.kind2 = right.kind2 := by
  simp [Card.sameCard2, Card.kind2, and_assoc]

theorem sameKind_iff {left right : Card} :
    left.sameCard right = true ↔ left.kind = right.kind := by
  simp [Card.sameCard, Card.kind, Card.sameFirstNode, sameCard2_iff,
    and_assoc]

/-! ## Copied and merged cards -/

theorem provs_addProvider (providers : List Provider) (provider : Provider) :
    ((addProvider providers provider).map Provider.prov).toFinset =
      insert provider.prov (providers.map Provider.prov).toFinset := by
  unfold addProvider
  split
  · next found =>
    have member : provider.prov ∈ (providers.map Provider.prov).toFinset := by
      obtain ⟨known, here, same⟩ := List.any_eq_true.mp found
      rw [List.mem_toFinset, ← beq_iff_eq.mp same]
      exact List.mem_map_of_mem here
    rw [Finset.insert_eq_of_mem member]
  · ext prov
    simp

theorem provs_foldl (providers added : List Provider) :
    ((added.foldl addProvider providers).map Provider.prov).toFinset =
      (providers.map Provider.prov).toFinset ∪
        (added.map Provider.prov).toFinset := by
  induction added generalizing providers with
  | nil => simp
  | cons provider added induction =>
      rw [List.foldl_cons, induction, provs_addProvider]
      simp [Finset.insert_union, Finset.union_insert]

theorem head_addRemoteNode (nodes : List (List UInt8)) (node : List UInt8) :
    (addRemoteNode nodes node).head? = nodes.head?.or (some node) := by
  cases nodes with
  | nil => simp [addRemoteNode]
  | cons first nodes =>
      unfold addRemoteNode
      split <;> simp

/-- A copy keeps the first node. -/
theorem head_foldl (nodes added : List (List UInt8)) :
    (added.foldl addRemoteNode nodes).head? = nodes.head?.or added.head? := by
  induction added generalizing nodes with
  | nil => simp
  | cons node added induction =>
      rw [List.foldl_cons, induction, head_addRemoteNode]
      cases nodes.head? <;> simp

/-- The card that is put in the list is of the same kind as the one it was
made of. -/
theorem listed_frame (new : AddedCard) :
    new.listed.kind = new.card.kind ∧
      new.listed.kindHops = new.card.kindHops ∧
        new.listed.hop = new.card.hop := by
  unfold AddedCard.listed
  split
  · exact ⟨rfl, rfl, rfl⟩
  · have head : (addCardProviders (createCard new.card) new.card
        true).remoteNodes.head? = new.card.remoteNodes.head? := by
      simp [addCardProviders, createCard, head_foldl]
    have provs : (addCardProviders (createCard new.card) new.card
        true).provSet = new.card.provSet := by
      simp [Card.provSet, addCardProviders, createCard, provs_foldl]
    refine ⟨?_, ?_, rfl⟩
    · rw [Card.kind, head]
      rfl
    · rw [Card.kindHops, provs]
      rfl

/-- Merging adds the providers. -/
theorem mergeCard_frame (card2 card : Card) :
    (mergeCard card2 card).kind2 = card2.kind2 ∧
      (mergeCard card2 card).provSet = card2.provSet ∪ card.provSet ∧
        (mergeCard card2 card).hop = card2.hop := by
  unfold mergeCard
  dsimp only
  split
  · exact ⟨rfl, provs_foldl _ _, rfl⟩
  · exact ⟨rfl, provs_foldl _ _, rfl⟩

/-! ## The list after a call -/

/-- `replaceCard` puts the new card somewhere in the list. -/
theorem replaceCard_perm (before behind : List Card) (card2 card : Card) :
    (replaceCard (before ++ card2 :: behind) before.length card).Perm
      (card :: (before ++ behind)) := by
  have others : (before ++ card2 :: behind).eraseIdx before.length =
      before ++ behind := by
    rw [List.eraseIdx_append_of_length_le le_rfl, Nat.sub_self]
    rfl
  unfold replaceCard
  rw [others]
  dsimp only
  split
  · exact List.perm_append_singleton card _
  · exact List.perm_insertIdx card _ (by simp)

/-- The first card that matches, with the cards before and behind it. -/
theorem findIdx?_split (p : Card → Bool) (cardlist : List Card) :
    (cardlist.findIdx? p = none ∧ ∀ card ∈ cardlist, p card = false) ∨
      ∃ before card behind, cardlist = before ++ card :: behind ∧
        p card = true ∧ cardlist.findIdx? p = some before.length := by
  cases found : cardlist.findIdx? p with
  | none => exact Or.inl ⟨rfl, List.findIdx?_eq_none_iff.mp found⟩
  | some place =>
      right
      obtain ⟨inside, matched, _⟩ := List.findIdx?_eq_some_iff_getElem.mp found
      refine ⟨cardlist.take place, cardlist[place],
        cardlist.drop (place + 1), ?_, matched, ?_⟩
      · rw [List.cons_getElem_drop_succ, List.take_append_drop]
      · rw [List.length_take, Nat.min_eq_left (by omega)]

/-- The search of `add_card_to_serverlist` for a card of the kind of the new
one, and what becomes of the list. -/
def keepBest (same : Card → Bool) (merge : Card → Card) (cardlist : List Card)
    (new : AddedCard) : List Card :=
  match cardlist.findIdx? same with
  | none => cardlist ++ [new.listed]
  | some place =>
      if (cardlist[place]?.any fun card2 => card2.hop > new.card.hop) then
        replaceCard cardlist place new.listed
      else cardlist.modify place merge

theorem takesIn_keepBest {κ : Type} {key : Card → κ} {same : Card → Bool}
    {merge : Card → Card}
    (compared : ∀ card2 ∈ cardlist,
      same card2 = true ↔ key card2 = key new.card)
    (listed : key new.listed = key new.card)
    (merged : ∀ card2 ∈ cardlist, same card2 = true →
      key (merge card2) = key new.card ∧ (merge card2).hop = card2.hop) :
    TakesIn key Card.hop (key new.card) new.card.hop cardlist
      (keepBest same merge cardlist new) := by
  have hop := (listed_frame new).2.2
  unfold keepBest
  rcases findIdx?_split same cardlist with
    ⟨missing, absent⟩ | ⟨before, card2, behind, rfl, found, place⟩
  · simp only [missing]
    refine .added new.listed (List.perm_append_singleton _ _) ?_ listed hop.le
    intro card2 member alike
    have different := absent card2 member
    rw [(compared card2 member).mpr alike] at different
    cases different
  · have member : card2 ∈ before ++ card2 :: behind :=
      List.mem_append_right _ List.mem_cons_self
    have split : (before ++ card2 :: behind).Perm
        (card2 :: (before ++ behind)) := List.perm_middle
    have here : (before ++ card2 :: behind)[before.length]? = some card2 := by
      simp
    have alike := (compared card2 member).mp found
    simp only [place, here, Option.any_some, decide_eq_true_eq]
    split_ifs with nearer
    · refine .swapped (before ++ behind) card2 new.listed split
        (replaceCard_perm before behind card2 new.listed) alike listed ?_
        hop.le
      omega
    · obtain ⟨kept, distance⟩ := merged card2 member found
      have changed : (before ++ card2 :: behind).modify before.length merge =
          before ++ merge card2 :: behind := by
        rw [List.modify_eq_take_cons_drop (by simp)]
        simp
      refine .swapped (before ++ behind) card2 (merge card2) split ?_ alike
        kept distance.le ?_
      · rw [changed]
        exact List.perm_middle
      · omega

/-- What is true of all cards stays true of them. -/
theorem forall_keepBest {same : Card → Bool} {merge : Card → Card}
    {P : Card → Prop} (all : ∀ card ∈ cardlist, P card) (listed : P new.listed)
    (merged : ∀ card, P card → P (merge card)) :
    ∀ card ∈ keepBest same merge cardlist new, P card := by
  unfold keepBest
  split
  · intro card member
    rcases List.mem_append.mp member with old | last
    · exact all card old
    · rw [List.mem_singleton.mp last]
      exact listed
  · split
    · intro card member
      rcases mem_replaceCard member with rfl | old
      · exact listed
      · exact all card old
    · exact forall_modify all merged

/-- The providers of the new card are compared as they should be with those of
the cards of its kind that are in the list. -/
def ProvidersCompared (cardlist : List Card) (card : Card) : Prop :=
  ∀ card2 ∈ cardlist, card.sameCard2 card2 = true →
    (equalProviders card card2 = true ↔ card.provSet = card2.provSet)

theorem addCardToServerlist_hops (hops : cfg.ccMinimizeCards = .hops)
    (off : cfg.ccForwardOriginCard = false) :
    addCardToServerlist cfg cardlist new =
      keepBest (fun card2 =>
          new.card.sameCard2 card2 && equalProviders new.card card2)
        (fun card2 => mergeCard card2 new.card) cardlist new := by
  cases found : cardlist.findIdx? (fun card2 =>
      new.card.sameCard2 card2 && equalProviders new.card card2) with
  | none => simp [addCardToServerlist, keepBest, hops, off, found]
  | some place => simp [addCardToServerlist, keepBest, hops, off, found]

/-- With `MINIMIZE_HOPS`. -/
theorem takesIn_hops (hops : cfg.ccMinimizeCards = .hops)
    (off : cfg.ccForwardOriginCard = false)
    (compared : ProvidersCompared cardlist new.card) :
    TakesIn Card.kindHops Card.hop new.card.kindHops new.card.hop cardlist
      (addCardToServerlist cfg cardlist new) := by
  have same : ∀ card2 ∈ cardlist,
      (new.card.sameCard2 card2 && equalProviders new.card card2) = true ↔
        card2.kindHops = new.card.kindHops := by
    intro card2 member
    rw [Bool.and_eq_true, Card.kindHops, Card.kindHops, Prod.mk.injEq,
      sameCard2_iff]
    constructor
    · rintro ⟨kind, equal⟩
      exact ⟨kind.symm, ((compared card2 member (sameCard2_iff.mpr kind)).mp
        equal).symm⟩
    · rintro ⟨kind, provs⟩
      exact ⟨kind.symm, (compared card2 member
        (sameCard2_iff.mpr kind.symm)).mpr provs.symm⟩
  rw [addCardToServerlist_hops hops off]
  refine takesIn_keepBest same (listed_frame new).2.1 ?_
  intro card2 member found
  obtain ⟨kind, provs, hop⟩ := mergeCard_frame card2 new.card
  have alike := (same card2 member).mp found
  rw [Card.kindHops, Card.kindHops, Prod.mk.injEq] at alike
  refine ⟨?_, hop⟩
  rw [Card.kindHops, Card.kindHops, kind, provs, alike.1, alike.2,
    Finset.union_self]

/-- In the default mode. -/
theorem takesIn_default (hops : cfg.ccMinimizeCards ≠ .hops)
    (caid : cfg.ccMinimizeCards ≠ .caid) :
    TakesIn Card.kind Card.hop new.card.kind new.card.hop cardlist
      (addCardToServerlist cfg cardlist new) := by
  have best : addCardToServerlist cfg cardlist new =
      keepBest new.card.sameCard id cardlist new := by
    cases found : cardlist.findIdx? new.card.sameCard with
    | none => simp [addCardToServerlist, keepBest, hops, caid, found]
    | some place => simp [addCardToServerlist, keepBest, hops, caid, found]
  rw [best]
  refine takesIn_keepBest ?_ (listed_frame new).1 ?_
  · intro card2 _
    rw [sameKind_iff]
    exact eq_comm
  · intro card2 _ found
    exact ⟨(sameKind_iff.mp found).symm, rfl⟩

/-! ## Runs -/

/-- No two cards are of one kind with `MINIMIZE_HOPS`, and every added card
has one of its kind in the list that is at least as near. -/
def BestHops (cardlist : List Card) (added : List AddedCard) : Prop :=
  cardlist.Pairwise (fun first second =>
    ¬(first.sameCard2 second = true ∧ first.provSet = second.provSet)) ∧
  ∀ new ∈ added, ∃ card ∈ cardlist, new.card.sameCard2 card = true ∧
    card.provSet = new.card.provSet ∧ card.hop ≤ new.card.hop

/-- The same for the cards that `same_card` tells apart. -/
def BestSame (cardlist : List Card) (added : List AddedCard) : Prop :=
  cardlist.Pairwise (fun first second => ¬first.sameCard second = true) ∧
  ∀ new ∈ added, ∃ card ∈ cardlist, new.card.sameCard card = true ∧
    card.hop ≤ new.card.hop

/-- At every call the providers are compared as they should be. -/
def EachCompared (cfg : MinimizeCfg) (added : List AddedCard) : Prop :=
  ∀ earlier new, earlier ++ [new] <+: added →
    ProvidersCompared (serverCards cfg earlier) new.card

theorem serverCards_best {added : List AddedCard}
    (off : cfg.ccForwardOriginCard = false) :
    (cfg.ccMinimizeCards = .hops → EachCompared cfg added →
      BestHops (serverCards cfg added) added) ∧
    (cfg.ccMinimizeCards ≠ .hops → cfg.ccMinimizeCards ≠ .caid →
      BestSame (serverCards cfg added) added) := by
  constructor
  · intro hops compared
    have takes : ∀ earlier new, earlier ++ [new] <+: added →
        TakesIn Card.kindHops Card.hop new.card.kindHops new.card.hop
          (serverCards cfg earlier)
          (addCardToServerlist cfg (serverCards cfg earlier) new) :=
      fun earlier new within =>
        takesIn_hops hops off (compared earlier new within)
    obtain ⟨one, covered⟩ := best_of_takesIn takes
    constructor
    · refine one.pairwise.imp ?_
      intro first second different alike
      exact different (Prod.ext (sameCard2_iff.mp alike.1) alike.2)
    · intro new member
      obtain ⟨card, listed, kind, near⟩ := covered new member
      rw [Card.kindHops, Card.kindHops, Prod.mk.injEq] at kind
      exact ⟨card, listed, sameCard2_iff.mpr kind.1.symm, kind.2, near⟩
  · intro hops caid
    have takes : ∀ earlier new, earlier ++ [new] <+: added →
        TakesIn Card.kind Card.hop new.card.kind new.card.hop
          (serverCards cfg earlier)
          (addCardToServerlist cfg (serverCards cfg earlier) new) :=
      fun earlier new _ => takesIn_default hops caid
    obtain ⟨one, covered⟩ := best_of_takesIn takes
    constructor
    · refine one.pairwise.imp ?_
      intro first second different alike
      exact different (sameKind_iff.mp alike)
    · intro new member
      obtain ⟨card, listed, kind, near⟩ := covered new member
      exact ⟨card, listed, sameKind_iff.mpr kind.symm, near⟩

/-! ## Cards that name no provider twice -/

def Card.NamesOnce (card : Card) : Prop :=
  (card.providers.map Provider.prov).Nodup

theorem equalProviders_iff {card card2 : Card} (once : card.NamesOnce)
    (once2 : card2.NamesOnce) :
    equalProviders card card2 = true ↔ card.provSet = card2.provSet := by
  have size := List.toFinset_card_of_nodup once
  have size2 := List.toFinset_card_of_nodup once2
  rw [List.length_map] at size size2
  have subset : (card.providers.all fun prov1 =>
      card2.providers.any fun prov2 => prov1.prov == prov2.prov) = true ↔
        card.provSet ⊆ card2.provSet := by
    rw [List.all_eq_true]
    constructor
    · intro all prov member
      obtain ⟨prov1, here, rfl⟩ :=
        List.mem_map.mp (List.mem_toFinset.mp member)
      obtain ⟨prov2, there, same⟩ := List.any_eq_true.mp (all prov1 here)
      rw [Card.provSet, List.mem_toFinset, beq_iff_eq.mp same]
      exact List.mem_map_of_mem there
    · intro within prov1 here
      have member :=
        within (List.mem_toFinset.mpr (List.mem_map_of_mem here))
      obtain ⟨prov2, there, same⟩ :=
        List.mem_map.mp (List.mem_toFinset.mp member)
      exact List.any_eq_true.mpr ⟨prov2, there, beq_iff_eq.mpr same.symm⟩
  rw [equalProviders, Bool.and_eq_true, beq_iff_eq, subset]
  constructor
  · rintro ⟨length, within⟩
    refine Finset.eq_of_subset_of_card_le within ?_
    rw [Card.provSet, Card.provSet, size, size2, length]
  · intro same
    refine ⟨?_, same.subset⟩
    rw [← size, ← size2]
    exact congrArg Finset.card same

theorem namesOnce_foldl {providers : List Provider}
    (once : (providers.map Provider.prov).Nodup) (added : List Provider) :
    ((added.foldl addProvider providers).map Provider.prov).Nodup := by
  induction added generalizing providers with
  | nil => exact once
  | cons provider added induction =>
      rw [List.foldl_cons]
      apply induction
      unfold addProvider
      split
      · exact once
      · next missing =>
        rw [List.map_append, List.map_singleton]
        refine once.append (List.nodup_singleton _) ?_
        intro prov member single
        obtain ⟨known, here, same⟩ := List.mem_map.mp member
        refine missing (List.any_eq_true.mpr ⟨known, here, ?_⟩)
        exact beq_iff_eq.mpr (same.trans (List.mem_singleton.mp single))

theorem namesOnce_listed (once : new.card.NamesOnce) :
    new.listed.NamesOnce := by
  unfold AddedCard.listed
  split
  · exact once
  · have none : (([] : List Provider).map Provider.prov).Nodup :=
      List.nodup_nil
    exact namesOnce_foldl none _

theorem namesOnce_mergeCard {card2 : Card} (once : card2.NamesOnce)
    (card : Card) : (mergeCard card2 card).NamesOnce := by
  unfold mergeCard
  dsimp only
  split
  · exact namesOnce_foldl once _
  · exact namesOnce_foldl once _

theorem namesOnce_serverCards (hops : cfg.ccMinimizeCards = .hops)
    (off : cfg.ccForwardOriginCard = false) {added : List AddedCard}
    (once : ∀ new ∈ added, new.card.NamesOnce) :
    ∀ card ∈ serverCards cfg added, card.NamesOnce := by
  induction added using List.reverseRecOn with
  | nil =>
      intro card member
      cases member
  | append_singleton earlier new induction =>
      have before := induction fun new member =>
        once new (List.mem_append_left _ member)
      have last := once new
        (List.mem_append_right _ (List.mem_singleton_self new))
      rw [serverCards, List.foldl_append, List.foldl_cons, List.foldl_nil,
        addCardToServerlist_hops hops off]
      exact forall_keepBest before (namesOnce_listed last)
        fun card once => namesOnce_mergeCard once new.card

/-- A run with such cards compares the providers as it should. -/
theorem eachCompared_of_namesOnce (hops : cfg.ccMinimizeCards = .hops)
    (off : cfg.ccForwardOriginCard = false) {added : List AddedCard}
    (once : ∀ new ∈ added, new.card.NamesOnce) : EachCompared cfg added := by
  intro earlier new within card2 listed _
  have subset : ∀ other ∈ earlier ++ [new], other ∈ added :=
    fun other member => within.subset member
  have named := once new (subset new
    (List.mem_append_right _ (List.mem_singleton_self new)))
  have before : ∀ card ∈ serverCards cfg earlier, card.NamesOnce :=
    namesOnce_serverCards hops off fun other member =>
      once other (subset other (List.mem_append_left _ member))
  exact equalProviders_iff named (before card2 listed)

/-! A card that names these providers comes from two readers. -/

def hopsCfg : MinimizeCfg :=
  { ccMinimizeCards := .hops, ccForwardOriginCard := false }

def remoteCard (provs : List Nat) : AddedCard :=
  { card :=
      { createCard2
          (fun _ =>
            { ccId := 1, ccReshare := 0, ccHop := 0, grp := 1
              sidtabno := 0 }) 0 0 none 0 0x0500 1 with
        cardType := .remotecard
        providers := provs.map fun prov => { prov := prov, sa := [] } }
    freeCard := false
    unnamed := fun free => absurd free (by decide) }

theorem serverCards_best_twice :
    BestHops (serverCards hopsCfg [remoteCard [1, 2], remoteCard [2, 1]])
      [remoteCard [1, 2], remoteCard [2, 1]] := by
  refine (serverCards_best rfl).1 rfl
    (eachCompared_of_namesOnce rfl rfl ?_)
  intro new member
  simp only [List.mem_cons, List.not_mem_nil, or_false] at member
  rcases member with rfl | rfl
  · unfold Card.NamesOnce
    decide
  · unfold Card.NamesOnce
    decide

/-- Both copies of a card that names its provider twice stay in the list. -/
theorem card_listed_twice :
    ¬∀ (cfg : MinimizeCfg) (added : List AddedCard),
      cfg.ccForwardOriginCard = false → cfg.ccMinimizeCards = .hops →
        BestHops (serverCards cfg added) added := by
  intro best
  have one := (best hopsCfg [remoteCard [1, 1], remoteCard [1, 1]] rfl rfl).1
  have list : serverCards hopsCfg [remoteCard [1, 1], remoteCard [1, 1]] =
      [(remoteCard [1, 1]).listed, (remoteCard [1, 1]).listed] := by decide
  rw [list] at one
  have different := (List.pairwise_cons.mp one).1 (remoteCard [1, 1]).listed
    (List.mem_singleton_self _)
  exact different ⟨by decide, rfl⟩

end Oscam.Cccam
