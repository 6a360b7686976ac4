import Mathlib.Combinatorics.Enumerative.DoubleCounting
import Oscam.Stat.StatFile

/-!
# The rate limit of a local reader

`reader_get_ecm` lets a request through when its service has a slot or when it
finds one that was not used for `ratelimitseconds`.  The settings come from
`chk_reader`, which clears as many slots as it was told to use.
-/

namespace Oscam.RateLimit

/-- `MAXECMRATELIMIT`, the number of slots. -/
abbrev maxecmratelimit : Nat := 20

/-- `struct ecmrl`. -/
structure Ecmrl where
  srvid : Nat
  last : Int
  deriving DecidableEq, Repr

/-- The rate limit of a reader.  `rlecmh` is the memory from the first slot on;
the source has room for `maxecmratelimit` slots. -/
structure RateReader where
  ratelimitecm : Int
  ratelimitseconds : Int
  rlecmh : Nat → Ecmrl

/-! ## Settings -/

/-- The lines of a reader in the configuration that concern the rate limit,
with their values. -/
inductive RateLine where
  | ratelimitecm (value : List UInt8)
  | ratelimitseconds (value : List UInt8)
  deriving DecidableEq, Repr

/-- The slots that a line writes to. -/
def RateLine.written : RateLine → List Nat
  | .ratelimitecm value =>
      if value = [] then [] else List.range (Stat.atoi value).toNat
  | .ratelimitseconds _ => []

/-- The part of `chk_reader` for the rate limit. -/
def chkReader (rdr : RateReader) : RateLine → RateReader
  | .ratelimitecm value =>
      if value = [] then { rdr with ratelimitecm := 0 }
      else
        { rdr with
          ratelimitecm := Stat.atoi value
          rlecmh := fun h =>
            if (h : Int) < Stat.atoi value then
              { rdr.rlecmh h with last := -1 }
            else rdr.rlecmh h }
  | .ratelimitseconds value =>
      if value = [] then
        { rdr with
          ratelimitseconds := if rdr.ratelimitecm > 0 then 10 else 0 }
      else { rdr with ratelimitseconds := Stat.atoi value }

/-- A reader in the memory that `cs_malloc` cleared. -/
def newReader : RateReader :=
  { ratelimitecm := 0, ratelimitseconds := 0
    rlecmh := fun _ => { srvid := 0, last := 0 } }

def config (lines : List RateLine) : RateReader :=
  lines.foldl chkReader newReader

/-! ## Requests -/

/-- A request that reaches the rate limit.  The clock is read for every slot
that the second loop looks at, and once more for the slot that was found. -/
structure RateRequest where
  srvid : Nat
  checkedAt : Nat → Nat
  now : Nat

/-- The slots that a loop with `break` looks at. -/
def lookedAt (found : Nat → Bool) (slots : Nat) : List Nat :=
  (List.range slots).takeWhile (fun h => !found h) ++
    ((List.range slots).find? found).toList

namespace RateReader

/-- The slot is used for the service. -/
def inUse (rdr : RateReader) (er : RateRequest) (h : Nat) : Bool :=
  (rdr.rlecmh h).srvid == er.srvid

/-- The slot was never used, or not for a while. -/
def hasSpace (rdr : RateReader) (er : RateRequest) (h : Nat) : Bool :=
  (rdr.rlecmh h).last == -1 ||
    er.checkedAt h - (rdr.rlecmh h).last > rdr.ratelimitseconds

/-- The number of turns of the loops. -/
def slots (rdr : RateReader) : Nat := rdr.ratelimitecm.toNat

/-- `foundspace`. -/
def foundspace (rdr : RateReader) (er : RateRequest) : Option Nat :=
  match (List.range rdr.slots).find? (rdr.inUse er) with
  | some h => some h
  | none => (List.range rdr.slots).find? (rdr.hasSpace er)

/-- The slots that a request looks at. -/
def used (rdr : RateReader) (er : RateRequest) : List Nat :=
  match (List.range rdr.slots).find? (rdr.inUse er) with
  | some _ => lookedAt (rdr.inUse er) rdr.slots
  | none =>
      lookedAt (rdr.inUse er) rdr.slots ++ lookedAt (rdr.hasSpace er) rdr.slots

end RateReader

/-- What the rate limit does with a request. -/
inductive Verdict where
  | unlimited
  | dropped
  | passed (h : Nat)
  deriving DecidableEq, Repr

/-- The rate limit in `reader_get_ecm`. -/
def RateReader.rateLimit (rdr : RateReader) (er : RateRequest) : Verdict :=
  if rdr.ratelimitecm = 0 then .unlimited
  else
    match rdr.foundspace er with
    | none => .dropped
    | some h => .passed h

/-- What it leaves in the slots. -/
def RateReader.after (rdr : RateReader) (er : RateRequest) : RateReader :=
  match rdr.rateLimit er with
  | .passed h =>
      { rdr with
        rlecmh := Function.update rdr.rlecmh h
          { srvid := er.srvid, last := er.now } }
  | _ => rdr

/-! ## Runs -/

/-- A request that has passed. -/
structure Pass where
  srvid : Nat
  now : Nat
  slot : Nat
  deriving DecidableEq, Repr

/-- A reader with what has passed and the slots that were looked at. -/
structure RateRun where
  rdr : RateReader
  passes : List Pass
  used : List Nat

def RateRun.step (s : RateRun) (er : RateRequest) : RateRun :=
  { rdr := s.rdr.after er
    passes :=
      match s.rdr.rateLimit er with
      | .passed h =>
          s.passes ++ [{ srvid := er.srvid, now := er.now, slot := h }]
      | _ => s.passes
    used :=
      if s.rdr.ratelimitecm = 0 then s.used else s.used ++ s.rdr.used er }

def run (rdr : RateReader) (requests : List RateRequest) : RateRun :=
  requests.foldl RateRun.step { rdr := rdr, passes := [], used := [] }

/-- The clock does not go back from `clock` on. -/
def InOrder : Nat → List RateRequest → Prop
  | _, [] => True
  | clock, er :: requests =>
      (∀ h, clock ≤ er.checkedAt h ∧ er.checkedAt h ≤ er.now) ∧
        InOrder er.now requests

/-- The services that have passed from `a` to `b`. -/
def servicesIn (passes : List Pass) (a b : Nat) : Finset Nat :=
  ((passes.filter fun pass => a ≤ pass.now && pass.now ≤ b).map
    Pass.srvid).toFinset

/-! ## The slots -/

variable {rdr : RateReader} {er : RateRequest} {s : RateRun} {clock h : Nat}

theorem mem_lookedAt {found : Nat → Bool} {slots : Nat}
    (member : h ∈ lookedAt found slots) : h < slots := by
  rw [lookedAt, List.mem_append] at member
  rcases member with before | last
  · exact List.mem_range.mp (List.takeWhile_subset _ before)
  · rw [Option.mem_toList] at last
    exact List.mem_range.mp (List.mem_of_find?_eq_some last)

theorem mem_used (member : h ∈ rdr.used er) : h < rdr.slots := by
  unfold RateReader.used at member
  split at member
  · exact mem_lookedAt member
  · rcases List.mem_append.mp member with first | second
    · exact mem_lookedAt first
    · exact mem_lookedAt second

/-- A request passes with a slot of its service, or with one that has space. -/
theorem passed_slot (passed : rdr.rateLimit er = .passed h) :
    h < rdr.slots ∧
      ((rdr.rlecmh h).srvid = er.srvid ∨ (rdr.rlecmh h).last = -1 ∨
        rdr.ratelimitseconds < er.checkedAt h - (rdr.rlecmh h).last) := by
  unfold RateReader.rateLimit at passed
  split at passed
  · cases passed
  · split at passed
    · cases passed
    · next found =>
      cases passed
      unfold RateReader.foundspace at found
      split at found
      · next here =>
        cases found
        refine ⟨List.mem_range.mp (List.mem_of_find?_eq_some here), Or.inl ?_⟩
        simpa [RateReader.inUse] using List.find?_some here
      · refine ⟨List.mem_range.mp (List.mem_of_find?_eq_some found),
          Or.inr ?_⟩
        simpa [RateReader.hasSpace] using List.find?_some found

/-- The run after a request that passes, and after one that does not. -/
theorem step_passes (s : RateRun) (er : RateRequest) :
    (∃ h, s.rdr.rateLimit er = .passed h ∧
      (s.step er).passes =
        s.passes ++ [{ srvid := er.srvid, now := er.now, slot := h }] ∧
      (s.step er).rdr =
        { s.rdr with
          rlecmh := Function.update s.rdr.rlecmh h
            { srvid := er.srvid, last := er.now } }) ∨
    ((s.step er).passes = s.passes ∧ (s.step er).rdr = s.rdr) := by
  unfold RateRun.step RateReader.after
  cases verdict : s.rdr.rateLimit er with
  | passed h => exact Or.inl ⟨h, rfl, rfl, rfl⟩
  | unlimited => exact Or.inr ⟨rfl, rfl⟩
  | dropped => exact Or.inr ⟨rfl, rfl⟩

/-- What the slots say about the services that have passed: a slot was used
last for its service, and every other service that passed with it did so more
than `ratelimitseconds` before. -/
structure Sliding (s : RateRun) (clock : Nat) : Prop where
  slot : ∀ pass ∈ s.passes, pass.slot < s.rdr.slots
  past : ∀ h, h < s.rdr.slots → (s.rdr.rlecmh h).last ≤ clock
  last : ∀ pass ∈ s.passes, pass.now ≤ (s.rdr.rlecmh pass.slot).last
  kept : ∀ pass ∈ s.passes,
    pass.srvid = (s.rdr.rlecmh pass.slot).srvid ∨
      s.rdr.ratelimitseconds < (s.rdr.rlecmh pass.slot).last - pass.now
  apart : s.passes.Pairwise fun first second => first.slot = second.slot →
    first.srvid = second.srvid ∨
      s.rdr.ratelimitseconds < (second.now : Int) - first.now
  used : ∀ h ∈ s.used, h < s.rdr.slots

/-- A pass with the same slot as the new one was for the same service, or is
too long ago. -/
theorem Sliding.apart_new (sliding : Sliding s clock)
    (later : ∀ h, clock ≤ er.checkedAt h ∧ er.checkedAt h ≤ er.now)
    (passed : s.rdr.rateLimit er = .passed h) {pass : Pass}
    (member : pass ∈ s.passes) (same : pass.slot = h) :
    pass.srvid = er.srvid ∨
      s.rdr.ratelimitseconds < (er.now : Int) - pass.now := by
  subst same
  obtain ⟨inside, found⟩ := passed_slot passed
  have past := sliding.past pass.slot inside
  have last := sliding.last pass member
  have checked := later pass.slot
  rcases found with service | never | old
  · rcases sliding.kept pass member with kept | gone
    · exact Or.inl (kept.trans service)
    · right
      omega
  · omega
  · right
    omega

theorem Sliding.used_step (sliding : Sliding s clock) (er : RateRequest) :
    ∀ h ∈ (s.step er).used, h < s.rdr.slots := by
  intro h member
  unfold RateRun.step at member
  dsimp only at member
  split at member
  · exact sliding.used h member
  · rcases List.mem_append.mp member with older | new
    · exact sliding.used h older
    · exact mem_used new

/-- A request that passes takes its slot. -/
theorem Sliding.pass {after : RateRun} (sliding : Sliding s clock)
    (later : ∀ h, clock ≤ er.checkedAt h ∧ er.checkedAt h ≤ er.now)
    (passed : s.rdr.rateLimit er = .passed h)
    (passes : after.passes =
      s.passes ++ [{ srvid := er.srvid, now := er.now, slot := h }])
    (rdr : after.rdr =
      { s.rdr with
        rlecmh := Function.update s.rdr.rlecmh h
          { srvid := er.srvid, last := er.now } })
    (used : ∀ h ∈ after.used, h < s.rdr.slots) : Sliding after er.now := by
  have on : clock ≤ er.now := (later 0).1.trans (later 0).2
  have inside := (passed_slot passed).1
  have new : ∀ pass ∈ s.passes, pass.slot = h →
      pass.srvid = er.srvid ∨
        s.rdr.ratelimitseconds < (er.now : Int) - pass.now :=
    fun pass member same => sliding.apart_new later passed member same
  constructor
  · rw [passes, rdr]
    intro pass member
    rcases List.mem_append.mp member with older | last
    · exact sliding.slot pass older
    · cases List.mem_singleton.mp last
      exact inside
  · rw [rdr]
    intro slot bound
    by_cases here : slot = h
    · subst here
      simp only [Function.update_self, le_refl]
    · simp only [Function.update_of_ne here]
      have past := sliding.past slot bound
      omega
  · rw [passes, rdr]
    intro pass member
    rcases List.mem_append.mp member with older | last
    · by_cases here : pass.slot = h
      · have past := sliding.past h inside
        have last := sliding.last pass older
        rw [here] at last
        simp only [here, Function.update_self]
        omega
      · simp only [Function.update_of_ne here]
        exact sliding.last pass older
    · cases List.mem_singleton.mp last
      simp only [Function.update_self, le_refl]
  · rw [passes, rdr]
    intro pass member
    rcases List.mem_append.mp member with older | last
    · by_cases here : pass.slot = h
      · simp only [here, Function.update_self]
        exact new pass older here
      · simp only [Function.update_of_ne here]
        exact sliding.kept pass older
    · cases List.mem_singleton.mp last
      simp only [Function.update_self, true_or]
  · rw [passes, rdr]
    refine List.pairwise_append.mpr
      ⟨sliding.apart, List.pairwise_singleton _ _, ?_⟩
    intro first member second last same
    cases List.mem_singleton.mp last
    exact new first member same
  · rw [rdr]
    exact used

/-- A request that does not pass changes no slot. -/
theorem Sliding.idle {after : RateRun} {clock' : Nat}
    (sliding : Sliding s clock) (on : clock ≤ clock')
    (passes : after.passes = s.passes) (rdr : after.rdr = s.rdr)
    (used : ∀ h ∈ after.used, h < s.rdr.slots) : Sliding after clock' := by
  refine ⟨?_, ?_, ?_, ?_, ?_, ?_⟩
  · rw [passes, rdr]
    exact sliding.slot
  · rw [rdr]
    intro slot bound
    have past := sliding.past slot bound
    omega
  · rw [passes, rdr]
    exact sliding.last
  · rw [passes, rdr]
    exact sliding.kept
  · rw [passes, rdr]
    exact sliding.apart
  · rw [rdr]
    exact used

/-- The step of a run. -/
theorem Sliding.step (sliding : Sliding s clock)
    (later : ∀ h, clock ≤ er.checkedAt h ∧ er.checkedAt h ≤ er.now) :
    Sliding (s.step er) er.now := by
  have used := sliding.used_step er
  rcases step_passes s er with ⟨h, passed, passes, rdr⟩ | ⟨passes, rdr⟩
  · exact sliding.pass later passed passes rdr used
  · exact sliding.idle ((later 0).1.trans (later 0).2) passes rdr used

/-- A reader whose slots were cleared by its settings. -/
def Cleared (rdr : RateReader) : Prop :=
  ∀ h, h < rdr.slots → (rdr.rlecmh h).last = -1

theorem Sliding.start (cleared : Cleared rdr) :
    Sliding { rdr := rdr, passes := [], used := [] } 0 := by
  constructor
  · simp
  · intro h bound
    have last := cleared h bound
    dsimp only
    omega
  · simp
  · simp
  · exact List.Pairwise.nil
  · simp

theorem slots_step (s : RateRun) (er : RateRequest) :
    (s.step er).rdr.ratelimitecm = s.rdr.ratelimitecm ∧
      (s.step er).rdr.ratelimitseconds = s.rdr.ratelimitseconds := by
  rcases step_passes s er with ⟨_, _, _, rdr⟩ | ⟨_, rdr⟩
  · rw [rdr]
    exact ⟨rfl, rfl⟩
  · rw [rdr]
    exact ⟨rfl, rfl⟩

/-- A whole run keeps the settings, and its slots slide. -/
theorem Sliding.foldl {requests : List RateRequest}
    (sliding : Sliding s clock) (order : InOrder clock requests) :
    ∃ clock', Sliding (requests.foldl RateRun.step s) clock' ∧
      (requests.foldl RateRun.step s).rdr.ratelimitecm =
        s.rdr.ratelimitecm ∧
      (requests.foldl RateRun.step s).rdr.ratelimitseconds =
        s.rdr.ratelimitseconds := by
  induction requests generalizing s clock with
  | nil => exact ⟨clock, sliding, rfl, rfl⟩
  | cons er requests induction =>
      obtain ⟨clock', slides, ecm, seconds⟩ :=
        induction (sliding.step order.1) order.2
      have kept := slots_step s er
      exact ⟨clock', slides, ecm.trans kept.1, seconds.trans kept.2⟩

theorem Sliding.run {requests : List RateRequest} (cleared : Cleared rdr)
    (order : InOrder 0 requests) :
    ∃ clock, Sliding (run rdr requests) clock ∧
      (RateLimit.run rdr requests).rdr.ratelimitecm = rdr.ratelimitecm ∧
      (RateLimit.run rdr requests).rdr.ratelimitseconds =
        rdr.ratelimitseconds :=
  (Sliding.start cleared).foldl order

/-! ## The window -/

/-- Two passes were for the same service, or one of them was not between `a`
and `b`, or they had different slots. -/
def Agree (a b : Nat) (first second : Pass) : Prop :=
  first.slot = second.slot → (a ≤ first.now ∧ first.now ≤ b) →
    (a ≤ second.now ∧ second.now ≤ b) → first.srvid = second.srvid

instance (a b : Nat) : Std.Symm (Agree a b) :=
  ⟨fun _ _ agree slot within within' =>
    (agree slot.symm within' within).symm⟩

/-- Within the seconds of the limit a slot has let one service pass. -/
theorem Sliding.agree (sliding : Sliding s clock) {a b : Nat}
    (short : (b : Int) - a ≤ s.rdr.ratelimitseconds) :
    ∀ first ∈ s.passes, ∀ second ∈ s.passes, Agree a b first second := by
  intro first member second member'
  refine List.Pairwise.forall_of_forall ?_ ?_ member member'
  · intro pass _ _ _ _
    rfl
  · refine sliding.apart.imp ?_
    intro first second apart slot within within'
    rcases apart slot with same | far
    · exact same
    · omega

theorem mem_servicesIn {passes : List Pass} {a b service : Nat} :
    service ∈ servicesIn passes a b ↔
      ∃ pass ∈ passes, (a ≤ pass.now ∧ pass.now ≤ b) ∧
        pass.srvid = service := by
  simp [servicesIn, and_assoc]

/-- There are at most as many services as slots. -/
theorem Sliding.card_servicesIn (sliding : Sliding s clock) {a b : Nat}
    (short : (b : Int) - a ≤ s.rdr.ratelimitseconds) :
    (servicesIn s.passes a b).card ≤ s.rdr.slots := by
  have slots := Finset.card_range s.rdr.slots
  rw [← slots]
  apply Finset.card_le_card_of_forall_subsingleton fun service slot =>
    ∃ pass ∈ s.passes, (a ≤ pass.now ∧ pass.now ≤ b) ∧
      pass.srvid = service ∧ pass.slot = slot
  · intro service member
    obtain ⟨pass, passed, within, same⟩ := mem_servicesIn.mp member
    exact ⟨pass.slot, Finset.mem_range.mpr (sliding.slot pass passed),
      pass, passed, within, same, rfl⟩
  · intro slot _ first one second other
    obtain ⟨pass, passed, within, rfl, rfl⟩ := one.2
    obtain ⟨pass', passed', within', rfl, same⟩ := other.2
    exact sliding.agree short pass passed pass' passed' same.symm within
      within'

/-! ## Settings that fit -/

/-- The number of slots that a line asks for. -/
def RateLine.limit : RateLine → Int
  | .ratelimitecm value => if value = [] then 0 else Stat.atoi value
  | .ratelimitseconds _ => 0

theorem written_iff (line : RateLine) :
    (∀ h ∈ line.written, h < maxecmratelimit) ↔
      line.limit ≤ maxecmratelimit := by
  cases line with
  | ratelimitseconds value => simp [RateLine.written, RateLine.limit]
  | ratelimitecm value =>
      rw [RateLine.written, RateLine.limit]
      split
      · simp
      · constructor
        · intro fits
          by_contra large
          have last := fits maxecmratelimit (List.mem_range.mpr (by omega))
          omega
        · intro small h member
          have bound := List.mem_range.mp member
          omega

theorem Cleared.chkReader (cleared : Cleared rdr) (line : RateLine) :
    Cleared (chkReader rdr line) := by
  cases line with
  | ratelimitseconds value =>
      rw [RateLimit.chkReader]
      split
      · exact cleared
      · exact cleared
  | ratelimitecm value =>
      rw [RateLimit.chkReader]
      split
      · intro h bound
        simp [RateReader.slots] at bound
      · intro h bound
        simp only [RateReader.slots] at bound
        have inside : (h : Int) < Stat.atoi value := by omega
        simp only [inside, if_true]

/-- The settings clear every slot that they use, and use no more than the
largest number that a line asks for. -/
theorem config_cleared (lines : List RateLine)
    (small : ∀ line ∈ lines, line.limit ≤ maxecmratelimit) :
    Cleared (config lines) ∧
      (config lines).ratelimitecm ≤ maxecmratelimit := by
  induction lines using List.reverseRecOn with
  | nil =>
      constructor
      · intro h bound
        simp [config, newReader, RateReader.slots] at bound
      · decide
  | append_singleton lines line induction =>
      have before := induction fun line member =>
        small line (List.mem_append_left _ member)
      have last := small line
        (List.mem_append_right _ (List.mem_singleton_self line))
      rw [config, List.foldl_append]
      refine ⟨before.1.chkReader line, ?_⟩
      simp only [List.foldl_cons, List.foldl_nil]
      cases line with
      | ratelimitseconds value =>
          rw [RateLimit.chkReader]
          split
          · exact before.2
          · exact before.2
      | ratelimitecm value =>
          rw [RateLimit.chkReader]
          rw [RateLine.limit] at last
          split
          · exact Int.natCast_nonneg maxecmratelimit
          · next some =>
            rwa [if_neg some] at last

/-- The lines write to slots that exist, and so do all requests, and in no
time of `ratelimitseconds` more services pass than there may. -/
def LimitHolds (lines : List RateLine) : Prop :=
  (∀ line ∈ lines, ∀ h ∈ line.written, h < maxecmratelimit) ∧
  ∀ requests, InOrder 0 requests →
    (∀ h ∈ (run (config lines) requests).used, h < maxecmratelimit) ∧
    ∀ a b : Nat, (b : Int) - a ≤ (config lines).ratelimitseconds →
      ((servicesIn (run (config lines) requests).passes a b).card : Int) ≤
        (config lines).ratelimitecm

/-- The rate limit does what it should exactly when no line asks for more
slots than there are and the number in force is not negative. -/
theorem limit_holds_iff (lines : List RateLine) :
    LimitHolds lines ↔
      (∀ line ∈ lines, line.limit ≤ maxecmratelimit) ∧
        0 ≤ (config lines).ratelimitecm := by
  constructor
  · intro holds
    constructor
    · intro line member
      exact (written_iff line).mp (holds.1 line member)
    · have none := (holds.2 [] trivial).2
        (-(config lines).ratelimitseconds).toNat 0 (by omega)
      simpa [run, servicesIn] using none
  · rintro ⟨small, positive⟩
    obtain ⟨cleared, most⟩ := config_cleared lines small
    refine ⟨fun line member => (written_iff line).mpr (small line member), ?_⟩
    intro requests order
    obtain ⟨clock, sliding, ecm, seconds⟩ := Sliding.run cleared order
    have slots : (run (config lines) requests).rdr.slots =
        (config lines).ratelimitecm.toNat := by
      rw [RateReader.slots, ecm]
    constructor
    · intro h member
      have bound := sliding.used h member
      omega
    · intro a b short
      rw [← seconds] at short
      have card := sliding.card_servicesIn short
      omega

/-- The configuration accepts 21 slots. -/
theorem limit_exceeded :
    ¬∀ lines : List RateLine, LimitHolds lines := by
  intro holds
  have written := (holds [.ratelimitecm [50, 49]]).1 _
    (List.mem_singleton_self _) 20 (by decide)
  exact absurd written (by decide)

end Oscam.RateLimit
