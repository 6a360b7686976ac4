import Oscam.Ecm.Deadlines

/-!
# The time until the next deadline

`chk_pending` returns how long `process_input` may wait in `poll`: until the
first deadline of a slot that it leaves waiting, as `comp_timeb` orders them, or
the end of its own time.  The value is an `uint32_t` that `poll` takes as an
`int`.
-/

namespace Oscam

namespace Timeb

theorem compTimeb_le_iff (left right : Timeb) :
    compTimeb left right ≤ 0 ↔
      left.time < right.time ∨
        left.time = right.time ∧ left.millitm ≤ right.millitm := by
  have above := compTimeb_pos_iff left right
  omega

theorem compTimeb_antisymm {left right : Timeb}
    (first : compTimeb left right ≤ 0) (second : compTimeb right left ≤ 0) :
    left = right := by
  rw [compTimeb_le_iff] at first second
  have time : left.time = right.time := by omega
  have millitm : left.millitm = right.millitm := by omega
  cases left
  cases right
  simp only at time millitm
  rw [time, millitm]

end Timeb

namespace Server

open Timeb

/-! ## The value of `chk_pending` -/

/-- The deadline of a slot that is left waiting by its turn, none if the slot is
answered with a time-out. -/
def waitsUntil (cfg : Config) (s : Server) (c : ClientId) (i : Nat)
    (er : EcmRequest) : Option Timeb :=
  let retried := s.retry cfg c i er
  if compTimeb (Timeb.ofMs s.now) retried.2.2 > 0 then
    if retried.2.1.stage ≠ 0 then none
    else some (addMs retried.2.2 (restTimeout cfg))
  else some retried.2.2

/-- `tpe` after the comparison with the deadline of a slot. -/
def earlier (tpe : Timeb) : Option Timeb → Timeb
  | some tpc => if compTimeb tpe tpc > 0 then tpc else tpe
  | none => tpe

/-- The end of the time that `chk_pending` is given. -/
def pollEnd (s : Server) (timeout : Int) : Timeb :=
  { time := (Timeb.ofMs s.now).time + timeout
    millitm := (Timeb.ofMs s.now).millitm }

variable {cfg : Config} {s t : Server} {c : ClientId} {i : Nat}
  {er : EcmRequest}

/-- Slot `i` is left waiting by `chk_pending`, until `tpc`. -/
def WaitsUntil (cfg : Config) (s : Server) (c : ClientId) (i : Nat)
    (tpc : Timeb) : Prop :=
  ∃ er, s.slotOf c i = some er ∧ e99 ≤ er.rc ∧
    (s.atTurn cfg c i).hit cfg c er = none ∧
    s.waitsUntil cfg c i er = some tpc

/-- The end of the time or a deadline, whichever is first for `comp_timeb`. -/
structure IsFirst (cfg : Config) (s : Server) (c : ClientId) (timeout : Int)
    (tpc : Timeb) : Prop where
  source : tpc = s.pollEnd timeout ∨ ∃ i, WaitsUntil cfg s c i tpc
  beforeEnd : compTimeb tpc (s.pollEnd timeout) ≤ 0
  least : ∀ i other, WaitsUntil cfg s c i other → compTimeb tpc other ≤ 0

theorem IsFirst.unique {timeout : Int} {tpc other : Timeb}
    (first : IsFirst cfg s c timeout tpc)
    (second : IsFirst cfg s c timeout other) : tpc = other := by
  have below {tpc other : Timeb} (first : IsFirst cfg s c timeout tpc)
      (second : IsFirst cfg s c timeout other) : compTimeb tpc other ≤ 0 := by
    rcases second.source with same | ⟨i, waits⟩
    · rw [same]
      exact first.beforeEnd
    · exact first.least i other waits
  exact compTimeb_antisymm (below first second) (below second first)

theorem SameView.retry (same : SameView s t) (cfg : Config) (c : ClientId)
    (i : Nat) (er : EcmRequest) :
    (t.retry cfg c i er).2 = (s.retry cfg c i er).2 := by
  have asked := same.nothingAsked cfg er
  have fallback : t.earlyFallback cfg er = s.earlyFallback cfg er := by
    unfold earlyFallback
    simp only [same.activeReaders, same.isNetwork, same.now]
  unfold Server.retry
  rw [asked, fallback]
  split
  · rfl
  · rfl

theorem SameView.waitsUntil (same : SameView s t) (cfg : Config)
    (c : ClientId) (i : Nat) (er : EcmRequest) :
    t.waitsUntil cfg c i er = s.waitsUntil cfg c i er := by
  unfold Server.waitsUntil
  dsimp only
  rw [same.retry, same.now]

/-- The value is not negative and at most the time that was asked for. -/
def Fits (value timeout : Int) : Prop := 0 ≤ value ∧ value ≤ 1000 * timeout + 5

/-- The end of the waiting is not more than 5 ms past when it is reached, it is
not later than the time that was asked for, and an `int` holds it. -/
def InTime (s : Server) (timeout : Int) (tpc : Timeb) : Prop :=
  let rest := tpc.msSince (Timeb.ofMs s.now)
  ∃ turns : Int, -5 ≤ rest + 2 ^ 32 * turns ∧
    rest + 2 ^ 32 * turns ≤ 1000 * timeout ∧
    rest + 2 ^ 32 * turns + 5 < 2 ^ 31

end Server

end Oscam
