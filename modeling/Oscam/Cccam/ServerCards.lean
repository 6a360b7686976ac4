import Oscam.Cccam.Share

/-!
# Cards of a new share list

`add_card_to_serverlist`, which collects the cards of all readers in one list
and merges those that are the same.
-/

namespace Oscam.Cccam

inductive Minimize where
  | none
  | hops
  | caid
  | transparent
  deriving DecidableEq, Repr

structure MinimizeCfg where
  ccMinimizeCards : Minimize
  ccForwardOriginCard : Bool
  deriving DecidableEq, Repr

abbrev csMaxprov : Nat := 32

/-! ## Comparing and copying cards -/

/-- `num_same_providers`. -/
def numSameProviders (card1 card2 : Card) : Nat :=
  card1.providers.countP fun prov1 =>
    card2.providers.any fun prov2 => prov1.prov == prov2.prov

/-- `equal_providers`. -/
def equalProviders (card1 card2 : Card) : Bool :=
  card1.providers.length == card2.providers.length &&
    card1.providers.all fun prov1 =>
      card2.providers.any fun prov2 => prov1.prov == prov2.prov

/-- `copy_sids`, into an empty list. -/
def copySids (src : List Srvid) : List Srvid :=
  src.foldl (fun dst srvid =>
    if dst.any (sidEq srvid) then dst else dst ++ [srvid]) []

/-- `create_card` for a card to copy; its providers and its remote nodes are
not copied. -/
def createCard (card : Card) : Card :=
  { card with
    id := 0
    providers := []
    goodsids := copySids card.goodsids
    badsids := copySids card.badsids
    remoteNodes := [] }

def addProvider (providers : List Provider) (provider : Provider) :
    List Provider :=
  if providers.any (·.prov == provider.prov) then providers
  else providers ++ [provider]

def addRemoteNode (nodes : List (List UInt8)) (node : List UInt8) :
    List (List UInt8) :=
  if nodes.contains node then nodes else nodes ++ [node]

/-- `add_card_providers`. -/
def addCardProviders (dest card : Card) (copyRemoteNodes : Bool) : Card :=
  { dest with
    providers := card.providers.foldl addProvider dest.providers
    remoteNodes := if copyRemoteNodes then
        card.remoteNodes.foldl addRemoteNode dest.remoteNodes
      else dest.remoteNodes }

/-! ## The list -/

/-- A card for the list.  One that is made for it, and that the list may keep
or free, has no id yet; the others are copied. -/
structure AddedCard where
  card : Card
  freeCard : Bool
  unnamed : freeCard = true → card.id = 0

/-- The card itself, or its copy. -/
def AddedCard.listed (new : AddedCard) : Card :=
  if new.freeCard then new.card
  else addCardProviders (createCard new.card) new.card true

/-- The providers of a card are merged into one of the list. -/
def mergeCard (card2 card : Card) : Card :=
  let card2 := addCardProviders card2 card false
  if card2.sidtab = none then { card2 with badsids := [] } else card2

/-- `ll_iter_remove` and `ll_iter_insert` with one iterator: behind the first
place the new card takes the place of the old one, but in the first place
the iterator is reset, and the card is appended. -/
def replaceCard (cardlist : List Card) (place : Nat) (card : Card) :
    List Card :=
  let others := cardlist.eraseIdx place
  if place = 0 then others ++ [card] else others.insertIdx place card

/-- The cards of one caid can be merged if there are not too many
providers. -/
def canMerge (card card2 : Card) : Bool :=
  card.sameCard2 card2 &&
    card.providers.length - numSameProviders card card2 +
      card2.providers.length ≤ csMaxprov

/-- `add_card_to_serverlist`. -/
def addCardToServerlist (cfg : MinimizeCfg) (cardlist : List Card)
    (new : AddedCard) : List Card :=
  let card := new.card
  if cfg.ccMinimizeCards = .caid ∧ cfg.ccForwardOriginCard = false then
    match cardlist.findIdx? (canMerge card) with
    | none => cardlist ++
        [if new.freeCard then card else { new.listed with hop := 0 }]
    | some place => cardlist.modify place fun card2 =>
        { mergeCard card2 card with remoteNodes := [] }
  else if cfg.ccMinimizeCards = .hops ∧ cfg.ccForwardOriginCard = false then
    match cardlist.findIdx? fun card2 =>
        card.sameCard2 card2 && equalProviders card card2 with
    | none => cardlist ++ [new.listed]
    | some place =>
        if (cardlist[place]?.any fun card2 => card2.hop > card.hop) then
          replaceCard cardlist place new.listed
        else cardlist.modify place fun card2 => mergeCard card2 card
  else
    match cardlist.findIdx? card.sameCard with
    | none => cardlist ++ [new.listed]
    | some place =>
        if (cardlist[place]?.any fun card2 => card2.hop > card.hop) then
          replaceCard cardlist place new.listed
        else cardlist

/-- The cards that the readers give, in one list. -/
def serverCards (cfg : MinimizeCfg) (added : List AddedCard) :
    List Card :=
  added.foldl (addCardToServerlist cfg) []

/-! ## No card of the list has an id -/

variable {cfg : MinimizeCfg} {cardlist : List Card} {new : AddedCard}

theorem mem_replaceCard {place : Nat} {card other : Card}
    (member : other ∈ replaceCard cardlist place card) :
    other = card ∨ other ∈ cardlist := by
  unfold replaceCard at member
  dsimp only at member
  split at member
  · rcases List.mem_append.mp member with old | added
    · exact Or.inr (List.mem_of_mem_eraseIdx old)
    · exact Or.inl (List.mem_singleton.mp added)
  · rcases List.eq_or_mem_of_mem_insertIdx member with same | old
    · exact Or.inl same
    · exact Or.inr (List.mem_of_mem_eraseIdx old)

/-- A change of one card that keeps what is true of all of them. -/
theorem forall_modify {place : Nat} {change : Card → Card} {P : Card → Prop}
    (all : ∀ card ∈ cardlist, P card)
    (kept : ∀ card, P card → P (change card)) :
    ∀ other ∈ cardlist.modify place change, P other := by
  intro other member
  obtain ⟨i, here⟩ := List.mem_iff_getElem?.mp member
  rw [List.getElem?_modify] at here
  obtain ⟨card, old, same⟩ := Option.map_eq_some_iff.mp here
  have before := all card (List.mem_of_getElem? old)
  rw [← same]
  split
  · exact kept card before
  · exact before

end Oscam.Cccam
