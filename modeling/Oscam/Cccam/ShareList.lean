import Oscam.Cccam.ServerCards
import Oscam.Cccam.ShareLimits
import Oscam.Lib.Reach

/-!
# The list of reported cards

Successive runs of `update_card_list`: which cards are kept without a word to
the clients, and what was announced for their ids before.
-/

namespace Oscam.Cccam

open StepSystem

/-! ## Keeping and announcing cards -/

/-- `card_timed_out`. -/
def cardTimedOut (time : Int) (card : Card) : Bool :=
  card.cardType != .remotecard && card.timeout < time

/-- `find_reported_card`: the reported card found, and the other ones. -/
def findReportedCard (time : Int) (card1 : Card) :
    List Card → Option (Card × List Card)
  | [] => none
  | card2 :: reported =>
      if card1.sameCard card2 && !cardTimedOut time card2 then
        some (card2, reported)
      else
        (findReportedCard time card1 reported).map fun (found, others) =>
          (found, card2 :: others)

/-- A card that takes the id and the timeout of a reported one. -/
def Card.replaces (card card2 : Card) : Card :=
  { card with id := card2.id, timeout := card2.timeout }

/-- A card of the new list; the new ones are announced. -/
structure Listed where
  card : Card
  new : Bool
  deriving DecidableEq, Repr

/-- `report_card` for each card of a list. -/
def reportCards (time : Int) : List Card → List Card → List Listed
  | [], _ => []
  | card :: cards, reported =>
      match findReportedCard time card reported with
      | some (card2, others) =>
          { card := card.replaces card2, new := false } ::
            reportCards time cards others
      | none => { card := card, new := true } :: reportCards time cards reported

/-- A list while its cards are announced.  `announced` has the cards as they
were sent to some client, the last one first. -/
structure Announcing where
  listed : List Card
  ccShareId : Nat
  clients : List ShareClient
  announced : List Card

/-- What `send_card_to_clients` needs besides the card and the clients. -/
structure AnnounceEnv where
  cfg : ShareCfg
  takes : ShareMessage → Bool
  buf : Memory
  one : Bool

def AnnounceEnv.send (env : AnnounceEnv) (v : Announcing) (card : Card) : Sending :=
  sendCardToClients env.cfg env.takes env.buf env.one v.clients card
    v.ccShareId

/-- A card of the list is sent if it is new. -/
def announceCard (env : AnnounceEnv) (v : Announcing) (entry : Listed) :
    Announcing :=
  if entry.new then
    let s := env.send v entry.card
    { listed := v.listed ++ [s.card]
      ccShareId := s.ccShareId
      clients := s.clients
      announced := if s.sent.isEmpty then v.announced
        else s.card :: v.announced }
  else { v with listed := v.listed ++ [entry.card] }

/-! ## Runs -/

/-- The share list, with what was announced of it. -/
structure ShareList where
  reported : List Card
  ccShareId : Nat
  clients : List ShareClient
  announced : List Card

/-- `init_share`. -/
def ShareList.start : ShareList :=
  { reported := [], ccShareId := 0x64, clients := [], announced := [] }

/-- The list before the cards are announced to some of the clients. -/
def ShareList.opened (s : ShareList) (clients : List ShareClient) :
    Announcing :=
  { listed := [], ccShareId := s.ccShareId, clients := clients
    announced := s.announced }

/-- The second half of `update_card_list`.  A card that is not kept is also
removed at the clients, which changes nothing else. -/
def updateCardList (env : AnnounceEnv) (time : Int) (cards : List Card)
    (s : ShareList) : ShareList :=
  let v := (reportCards time cards s.reported).foldl
    (announceCard { env with one := false }) (s.opened s.clients)
  { reported := v.listed, ccShareId := v.ccShareId, clients := v.clients
    announced := v.announced }

/-- All cards, as `cc_srv_report_cards` sends them. -/
def allNew (cards : List Card) : List Listed :=
  cards.map fun card => { card := card, new := true }

/-- What happens to a share list.  The web interface sorts it, and clients
come, go and change. -/
inductive ShareOp where
  | update (env : AnnounceEnv) (minimize : MinimizeCfg) (time : Int)
      (added : List AddedCard)
  | report (env : AnnounceEnv) (place : Nat)
  | sort
  | change (clients : List ShareClient)

/-- What a client is told of a card, apart from its services and nodes. -/
structure Card.SameData (left right : Card) : Prop where
  caid : left.caid = right.caid
  providers : left.providers = right.providers
  hop : left.hop = right.hop
  reshare : left.reshare = right.reshare

/-- Each card with an id is as it was announced last. -/
def AllCurrent (cards announced : List Card) : Prop :=
  ∀ card ∈ cards, card.id ≠ 0 → ∃ last,
    announced.find? (·.id == card.id) = some last ∧ last.SameData card

def Current (s : ShareList) : Prop := AllCurrent s.reported s.announced

/-- The cards that are kept have the providers, the hop and the reshare value
of the reported cards that they replace. -/
def KeptAlike (time : Int) : List Card → List Card → Prop
  | [], _ => True
  | card :: cards, reported =>
      match findReportedCard time card reported with
      | some (card2, others) =>
          (card2.id ≠ 0 → card.providers = card2.providers ∧
            card.hop = card2.hop ∧ card.reshare = card2.reshare) ∧
          KeptAlike time cards others
      | none => KeptAlike time cards reported

/-- An id that a card takes is not zero, and no other card of the list has
it. -/
def FreshIds (env : AnnounceEnv) : List Listed → Announcing → Prop
  | [], _ => True
  | entry :: rest, v =>
      (entry.new = true → entry.card.id = 0 →
        (env.send v entry.card).sent ≠ [] →
          v.ccShareId ≠ 0 ∧ ∀ other ∈ v.listed ++ rest.map (·.card),
            other.id ≠ v.ccShareId) ∧
      FreshIds env rest (announceCard env v entry)

/-- The condition on a step. -/
def Steady (s : ShareList) : ShareOp → Prop
  | .update env minimize time added =>
      let cards := serverCards minimize added
      KeptAlike time cards s.reported ∧
        FreshIds { env with one := false } (reportCards time cards s.reported)
          (s.opened s.clients)
  | .report env place =>
      ∀ cl, s.clients[place]? = some cl →
        FreshIds { env with one := true } (allNew s.reported) (s.opened [cl])
  | .sort => True
  | .change _ => True

/-! ## Sending one card -/

section Sent

variable {cfg : ShareCfg} {takes : ShareMessage → Bool} {buf : Memory}
  {one : Bool} {card : Card} {n : Nat}

/-- The card with the id it has or takes. -/
def named (card : Card) (n : Nat) : Card :=
  if card.id = 0 then { card with id := n } else card

/-- A card that is not sent stays as it is; one that is sent has an id. -/
def Named (card : Card) (n : Nat) (s : Sending) : Prop :=
  (s.sent = [] ∧ s.card = card ∧ s.ccShareId = n) ∨
    (s.sent ≠ [] ∧ ((named card n).id ≠ 0 → s.card = named card n))

theorem Named.withId {s : Sending} (before : Named card n s)
    (id : (named card n).id ≠ 0) : s.withId.card = named card n := by
  unfold Sending.withId
  rcases before with ⟨_, same, count⟩ | ⟨_, same⟩
  · unfold named
    rw [same, count]
    split
    · rfl
    · exact same
  · rw [same id, if_neg id]
    exact same id

theorem Named.send {s : Sending} (before : Named card n s)
    (cl : ShareClient) :
    Named card n (sendCardToClient cfg takes buf one s cl) := by
  unfold sendCardToClient
  split
  · exact before
  · split
    · apply Or.inr
      constructor
      · simp
      · exact before.withId
    · exact before

end Sent

/-! ## Lists with different ids -/

/-- No two cards have the same id, apart from those that have none. -/
def DistinctIds (cards : List Card) : Prop :=
  cards.Pairwise fun left right => left.id = right.id → left.id = 0

theorem DistinctIds.perm {cards others : List Card}
    (distinct : DistinctIds cards) (perm : cards.Perm others) :
    DistinctIds others := by
  have symmetric : ∀ {left right : Card},
      (left.id = right.id → left.id = 0) →
        right.id = left.id → right.id = 0 := by
    intro left right apart same
    rw [same]
    exact apart same.symm
  exact (perm.pairwise_iff symmetric).mp distinct

theorem AllCurrent.perm {cards others announced : List Card}
    (current : AllCurrent cards announced) (perm : cards.Perm others) :
    AllCurrent others announced :=
  fun card member => current card (perm.symm.subset member)

variable {front rest announced : List Card} {card : Card}

theorem DistinctIds.add (distinct : DistinctIds (front ++ rest))
    (own : ∀ other ∈ front ++ rest, other.id ≠ 0 → other.id ≠ card.id) :
    DistinctIds (front ++ card :: rest) := by
  have all : DistinctIds (card :: (front ++ rest)) := by
    apply List.pairwise_cons.mpr
    constructor
    · intro other member same
      by_contra some
      rw [same] at some
      exact own other member some same.symm
    · exact distinct
  exact all.perm List.perm_middle.symm

/-- The other cards of a list have other ids. -/
theorem DistinctIds.others (distinct : DistinctIds (front ++ card :: rest)) :
    DistinctIds (front ++ rest) ∧
      ∀ other ∈ front ++ rest, other.id ≠ 0 → other.id ≠ card.id := by
  obtain ⟨apart, others⟩ :=
    List.pairwise_cons.mp (distinct.perm List.perm_middle)
  refine ⟨others, ?_⟩
  intro other member some same
  have none := apart other member same.symm
  rw [same] at some
  exact some none

/-! ## Announcing -/

/-- What holds of a list after each step. -/
structure ShareList.Kept (s : ShareList) : Prop where
  current : Current s
  distinct : DistinctIds s.reported

end Oscam.Cccam
