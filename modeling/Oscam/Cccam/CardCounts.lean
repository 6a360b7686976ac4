import Mathlib.Data.List.Basic
import Oscam.Cccam.SendEcm
import Oscam.Cccam.Share
import Oscam.Lib.Reach

/-!
# The card statistics of a reader

A reader keeps the cards of its server in a list and counts them by their hop
and by their reshare in seven counters beside it.  The messages about cards
change both, and so does a connect.
-/

namespace Oscam.Cccam

/-- The counters of `struct cc_data`. -/
@[ext]
structure Counts where
  numHop1 : Int
  numHop2 : Int
  numHopx : Int
  numReshare0 : Int
  numReshare1 : Int
  numReshare2 : Int
  numResharex : Int
  deriving DecidableEq, Repr

namespace Counts

def zero : Counts := ⟨0, 0, 0, 0, 0, 0, 0⟩

def moveHop (n : Int) (hop : Nat) (counts : Counts) : Counts :=
  if hop = 1 then { counts with numHop1 := counts.numHop1 + n }
  else if hop = 2 then { counts with numHop2 := counts.numHop2 + n }
  else { counts with numHopx := counts.numHopx + n }

def moveReshare (n : Int) (reshare : Nat) (counts : Counts) : Counts :=
  if reshare = 0 then { counts with numReshare0 := counts.numReshare0 + n }
  else if reshare = 1 then
    { counts with numReshare1 := counts.numReshare1 + n }
  else if reshare = 2 then
    { counts with numReshare2 := counts.numReshare2 + n }
  else { counts with numResharex := counts.numResharex + n }

/-- The counters when `n` cards like this one are added. -/
def move (n : Int) (card : Card) (counts : Counts) : Counts :=
  (counts.moveHop n card.hop).moveReshare n card.reshare

/-- How many cards of a list have each hop and each reshare. -/
def of (cards : List Card) : Counts where
  numHop1 := cards.countP fun card => card.hop = 1
  numHop2 := cards.countP fun card => card.hop = 2
  numHopx := cards.countP fun card => card.hop ≠ 1 ∧ card.hop ≠ 2
  numReshare0 := cards.countP fun card => card.reshare = 0
  numReshare1 := cards.countP fun card => card.reshare = 1
  numReshare2 := cards.countP fun card => card.reshare = 2
  numResharex := cards.countP fun card =>
    card.reshare ≠ 0 ∧ card.reshare ≠ 1 ∧ card.reshare ≠ 2

end Counts

/-- The settings that a new card is checked with. -/
structure CardRules where
  rdr : ReaderId
  readers : ReaderId → ShareReader
  ccMaxhop : Int
  ccMindown : Int
  ctab : List CaidEntry
  ftab : List Filter
  ccNodeId : List UInt8

/-- The part of `struct cc_data` that has to do with cards. -/
structure CardData where
  cards : List Card
  counts : Counts
  extendedEcmIdx : List ExtendedEcmIdx
  extendedMode : Bool
  justLoggedIn : Bool

/-- How far `cc_cli_connect` gets with its data in place. -/
inductive Connect where
  | noSocket
  | blocked
  | configurationError
  | networkError
  | alreadyConnected
  | noSeed
  | refused
  | accepted
  deriving DecidableEq, Repr

/-- The counters are cleared behind the init seed. -/
def Connect.seeded : Connect → Bool
  | .refused | .accepted => true
  | _ => false

/-- What happens to the cards of a reader: the messages of its server, the
requests it sends, connects, and the end of the client.  `settled` is
everything that only resets the flag for a new login. -/
inductive CardEvent where
  | newCard (addr : Nat) (data : Memory) (sidinfo : Bool)
  | cardRemoved (data : Memory)
  | srvData (payload : Nat)
  | cwNok1 (gFlag : Nat)
  | partner (ext : Bool)
  | requestSent (eei : ExtendedEcmIdx)
  | settled
  | connect (reach : Connect)
  | cleanup

namespace CardData

/-- Memory after `memset`, with empty lists. -/
def fresh : CardData where
  cards := []
  counts := .zero
  extendedEcmIdx := []
  extendedMode := false
  justLoggedIn := false

/-- One turn of the loop of `cc_card_removed`; `cards` are the cards that the
iterator has left in the list. -/
def visit (shareid : Nat) (cc : CardData) (card : Card) : CardData :=
  if card.id = shareid then
    { cc with
      extendedEcmIdx :=
        cc.extendedEcmIdx.filter fun eei => eei.card != card.addr
      counts := cc.counts.move (-1) card }
  else { cc with cards := cc.cards ++ [card] }

/-- `cc_card_removed`. -/
def cardRemoved (shareid : Nat) (cc : CardData) : CardData :=
  cc.cards.foldl (visit shareid) { cc with cards := [] }

/-- The checks of `MSG_NEW_CARD` on a card as it was read. -/
def admits (rules : CardRules) (card : Card) : Bool :=
  card.caid != 0 && decide ((card.hop : Int) < rules.ccMaxhop + 1) &&
    decide (rules.ccMindown ≤ card.reshare) && chkCtab card.caid rules.ctab &&
    !card.remoteNodes.contains rules.ccNodeId && chkIdent rules.ftab card

/-- The branch of `MSG_NEW_CARD` and of `MSG_NEW_CARD_SIDINFO`. -/
def newCard (rules : CardRules) (addr : Nat) (data : Memory) (sidinfo : Bool)
    (cc : CardData) : CardData :=
  let read := readCard addr data sidinfo
  let card := receivedCard rules.readers rules.rdr read
  if admits rules read ∧
      ∀ oldCard ∈ cc.cards, oldCard.id ≠ card.id ∧ ¬ oldCard.sameCard card then
    { cc with
      cards := cc.cards ++ [card]
      counts := cc.counts.move 1 card }
  else cc

/-- The branch of `MSG_SRV_DATA`: 72 bytes are the data of the server, and
35 bytes end in `cc_cli_close`. -/
def srvData (payload : Nat) (cc : CardData) : CardData :=
  if payload = 0x48 then
    { cc with cards := [], extendedEcmIdx := [], counts := .zero }
  else if payload = 0x23 then { cc with justLoggedIn := false }
  else cc

/-- The branch of `MSG_CW_NOK1` for a message without payload. -/
def cwNok1 (gFlag : Nat) (cc : CardData) : CardData :=
  if cc.justLoggedIn then cc
  else
    let sendIdx := if cc.extendedMode then gFlag else 1
    match cc.extendedEcmIdx.find? fun eei => eei.sendIdx == sendIdx with
    | none => cc
    | some eei =>
        let cc :=
          { cc with
            extendedEcmIdx :=
              cc.extendedEcmIdx.eraseP fun eei => eei.sendIdx == sendIdx }
        match cc.cards.find? fun card => card.addr == eei.card with
        | none => cc
        | some card => cc.cardRemoved card.id

/-- `cc_cli_connect` with the data of an earlier call.  A connection that is
there already and a missing seed end in `cc_cli_close`. -/
def reconnect (reach : Connect) (cc : CardData) : CardData :=
  let cc := { cc with cards := [], extendedEcmIdx := [] }
  let cc :=
    if reach.seeded then { cc with extendedMode := false, counts := .zero }
    else cc
  match reach with
  | .alreadyConnected | .noSeed => { cc with justLoggedIn := false }
  | .accepted => { cc with justLoggedIn := true }
  | _ => cc

end CardData

/-- `cc_cli_connect`. -/
def connect (reach : Connect) (cc : Option CardData) : CardData :=
  (cc.getD .fresh).reconnect reach

/-- One event at a reader; it has no data before its first connect. -/
def cardStep (rules : CardRules) (cc : Option CardData) (event : CardEvent) :
    Option CardData :=
  match event with
  | .newCard addr data sidinfo => cc.map (·.newCard rules addr data sidinfo)
  | .cardRemoved data => cc.map (·.cardRemoved (data.number 0 4))
  | .srvData payload => cc.map (·.srvData payload)
  | .cwNok1 gFlag => cc.map (·.cwNok1 gFlag)
  | .partner ext =>
      cc.map fun cc => { cc with extendedMode := cc.extendedMode || ext }
  | .requestSent eei =>
      cc.map fun cc =>
        { cc with
          extendedEcmIdx := cc.extendedEcmIdx ++ [eei]
          justLoggedIn := false }
  | .settled => cc.map fun cc => { cc with justLoggedIn := false }
  | .connect reach => some (connect reach cc)
  | .cleanup => none

/-! ## Counting -/

namespace Counts

variable {cards : List Card}

/-- A card counts where it stands in the list. -/
theorem of_insert (card : Card) (front back : List Card) :
    of (front ++ card :: back) = (of (front ++ back)).move 1 card := by
  ext <;>
  · simp only [of, move, moveHop, moveReshare, List.countP_append,
      List.countP_cons]
    grind

theorem move_undo (card : Card) (counts : Counts) :
    (counts.move 1 card).move (-1) card = counts := by
  ext <;>
  · simp only [move, moveHop, moveReshare]
    grind

/-- Every card is counted with its hop. -/
theorem hops_of (cards : List Card) :
    (of cards).numHop1 + (of cards).numHop2 + (of cards).numHopx =
      cards.length := by
  induction cards with
  | nil => rfl
  | cons card cards induction =>
      simp only [of, List.countP_cons, List.length_cons] at induction ⊢
      grind

theorem of_eq_zero_iff : of cards = zero ↔ cards = [] := by
  constructor
  · intro none
    have sum := hops_of cards
    rw [none] at sum
    have empty : (0 : Int) = cards.length := sum
    exact List.eq_nil_of_length_eq_zero (by omega)
  · rintro rfl
    rfl

end Counts

/-! ## Exact counters -/

namespace CardData

variable {cc : CardData} {rules : CardRules}

/-- The counters are the numbers of cards that they stand for. -/
def Exact (cc : CardData) : Prop := cc.counts = .of cc.cards

/-- The cards that `cc_card_removed` has left and those that it has not come
to are the ones that count. -/
theorem foldl_visit {kept rest : List Card} (shareid : Nat)
    (left : cc.cards = kept) (exact : cc.counts = .of (kept ++ rest)) :
    (rest.foldl (visit shareid) cc).Exact := by
  induction rest generalizing cc kept with
  | nil => rwa [List.foldl_nil, Exact, left, ← List.append_nil kept]
  | cons card rest induction =>
      rw [List.foldl_cons]
      by_cases gone : card.id = shareid
      · rw [visit, if_pos gone]
        refine @induction _ kept left ?_
        show cc.counts.move (-1) card = _
        rw [exact, Counts.of_insert, Counts.move_undo]
      · rw [visit, if_neg gone]
        refine @induction _ (kept ++ [card]) ?_ ?_
        · rw [left]
        · rw [exact, List.append_assoc, List.singleton_append]

theorem Exact.cardRemoved (exact : cc.Exact) (shareid : Nat) :
    (cc.cardRemoved shareid).Exact :=
  foldl_visit shareid rfl exact

theorem Exact.newCard (exact : cc.Exact) (rules : CardRules) (addr : Nat)
    (data : Memory) (sidinfo : Bool) :
    (cc.newCard rules addr data sidinfo).Exact := by
  unfold CardData.newCard
  simp only
  split
  · have added := Counts.of_insert
      (receivedCard rules.readers rules.rdr (readCard addr data sidinfo))
      cc.cards []
    rw [List.append_nil] at added
    rw [Exact, added, exact]
  · exact exact

theorem Exact.srvData (exact : cc.Exact) (payload : Nat) :
    (cc.srvData payload).Exact := by
  unfold CardData.srvData
  split
  · rfl
  · split
    · exact exact
    · exact exact

theorem Exact.cwNok1 (exact : cc.Exact) (gFlag : Nat) :
    (cc.cwNok1 gFlag).Exact := by
  unfold CardData.cwNok1
  split
  · exact exact
  · simp only
    split
    · exact exact
    · split
      · exact exact
      · apply Exact.cardRemoved
        exact exact

theorem cards_reconnect (reach : Connect) (cc : CardData) :
    (cc.reconnect reach).cards = [] := by
  cases reach <;> rfl

theorem counts_reconnect (reach : Connect) (cc : CardData) :
    (cc.reconnect reach).counts =
      if reach.seeded then Counts.zero else cc.counts := by
  cases reach <;> rfl

/-- The list is empty behind a connect, and the counters are cleared only
behind the seed. -/
theorem exact_reconnect_iff (exact : cc.Exact) (reach : Connect) :
    (cc.reconnect reach).Exact ↔ reach.seeded = true ∨ cc.cards = [] := by
  have empty : (cc.reconnect reach).Exact ↔
      (if reach.seeded then Counts.zero else cc.counts) = .zero := by
    rw [Exact, cards_reconnect, counts_reconnect]
    rfl
  rw [empty]
  by_cases seeded : reach.seeded = true
  · simp [seeded]
  · rw [if_neg seeded, exact, Counts.of_eq_zero_iff]
    simp [seeded]

end CardData

/-- The statistics of a reader are right; there are none without data. -/
def Counted (cc : Option CardData) : Prop := ∀ data ∈ cc, data.Exact

/-- A connect that ends before the init seed finds no cards from before. -/
def FailsEmpty (cc : Option CardData) (event : CardEvent) : Prop :=
  ∀ reach, event = .connect reach → reach.seeded = false →
    ∀ data ∈ cc, data.cards = []

theorem counted_map {cc : Option CardData} {change : CardData → CardData}
    (counted : Counted cc)
    (kept : ∀ data : CardData, data.Exact → (change data).Exact) :
    Counted (cc.map change) := by
  intro data member
  obtain ⟨before, there, rfl⟩ := Option.mem_map.mp member
  exact kept before (counted before there)

/-- One event keeps the counters right unless it is a connect that clears the
list only. -/
theorem counted_cardStep_iff (rules : CardRules) {cc : Option CardData}
    (counted : Counted cc) (event : CardEvent) :
    Counted (cardStep rules cc event) ↔ FailsEmpty cc event := by
  cases event with
  | connect reach =>
      have start : (cc.getD .fresh).Exact := by
        cases cc with
        | none => rfl
        | some data => exact counted data rfl
      have step := CardData.exact_reconnect_iff start reach
      have left : Counted (cardStep rules cc (.connect reach)) ↔
          ((cc.getD .fresh).reconnect reach).Exact := by
        simp [Counted, cardStep, connect]
      have right : FailsEmpty cc (.connect reach) ↔
          (reach.seeded = true ∨ (cc.getD .fresh).cards = []) := by
        cases cc <;> cases seeded : reach.seeded <;>
          simp [FailsEmpty, CardData.fresh, seeded]
      rw [left, right, step]
  | newCard addr data sidinfo =>
      exact iff_of_true
        (counted_map counted fun _ exact => exact.newCard rules addr data sidinfo)
        (by rintro _ ⟨⟩)
  | cardRemoved data =>
      exact iff_of_true
        (counted_map counted fun _ exact => exact.cardRemoved _)
        (by rintro _ ⟨⟩)
  | srvData payload =>
      exact iff_of_true
        (counted_map counted fun _ exact => exact.srvData payload)
        (by rintro _ ⟨⟩)
  | cwNok1 gFlag =>
      exact iff_of_true
        (counted_map counted fun _ exact => exact.cwNok1 gFlag)
        (by rintro _ ⟨⟩)
  | partner ext =>
      exact iff_of_true (counted_map counted fun _ exact => exact)
        (by rintro _ ⟨⟩)
  | requestSent eei =>
      exact iff_of_true (counted_map counted fun _ exact => exact)
        (by rintro _ ⟨⟩)
  | settled =>
      exact iff_of_true (counted_map counted fun _ exact => exact)
        (by rintro _ ⟨⟩)
  | cleanup => exact iff_of_true (by rintro _ ⟨⟩) (by rintro _ ⟨⟩)

instance (cc : Option CardData) : Decidable (Counted cc) :=
  match cc with
  | none => .isTrue (by rintro _ ⟨⟩)
  | some data =>
      decidable_of_iff (data.counts = .of data.cards)
        (by simp [Counted, CardData.Exact])

/-- In a run of a reader the counters are right after every event if and only
if no connect that fails before the init seed finds cards. -/
theorem counts_exact_along_iff (rules : CardRules) (events : List CardEvent) :
    StepSystem.Along (cardStep rules)
        (fun cc event => Counted (cardStep rules cc event)) none events ↔
      StepSystem.Along (cardStep rules) FailsEmpty none events :=
  StepSystem.Along.congr_under
    (fun _ event (counted : Counted _) =>
      counted_cardStep_iff rules counted event)
    (fun _ _ _ right => right) (by rintro _ ⟨⟩) events

/-- A reader without filters. -/
def someRules : CardRules where
  rdr := 0
  readers := fun _ =>
    { ccId := 0, ccReshare := 0, ccHop := 0, grp := 1, sidtabno := 0 }
  ccMaxhop := 10
  ccMindown := 0
  ctab := []
  ftab := []
  ccNodeId := List.replicate 8 1

/-- The message for a card of the system 0x0500. -/
def someCardData : Memory := fun i => if i = 8 then 5 else 0

/-- A login, a card, and a connect that does not get the init seed: the list
is empty, and a card is counted. -/
theorem counts_stale_without_seed :
    let events :=
      [.connect .accepted, .newCard 1 someCardData false, .connect .noSeed]
    ¬ StepSystem.Along (cardStep someRules)
        (fun cc event => Counted (cardStep someRules cc event)) none events ∧
      ((events.foldl (cardStep someRules) none).map fun cc =>
        (cc.cards, cc.counts.numHop1)) = some ([], 1) := by
  decide

end Oscam.Cccam
