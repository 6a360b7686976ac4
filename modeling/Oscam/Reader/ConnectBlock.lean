import Oscam.Globals

/-!
# Blocked connects

After a failed connect `block_connect` adds a growing delay to a stored time
stamp, and `is_connect_blocked` compares the clock with it.  The stamp is the
time of the last success, of a change of the address or of the start of the
reader, moved on by the failures since; its milliseconds are not carried over.
-/

namespace Oscam.ConnectBlock

/-- The fields of a reader that the blocking of connects uses. -/
structure TcpReader where
  tcpBlockDelay : Nat
  tcpBlockConnectTill : Timeb
  deriving DecidableEq, Repr

/-- `clear_block_delay`. -/
def TcpReader.clearBlockDelay (_rdr : TcpReader) (now : Nat) : TcpReader :=
  { tcpBlockDelay := 0, tcpBlockConnectTill := Timeb.ofMs now }

/-- The delay that a failure adds: 100 ms the first time. -/
def TcpReader.delay (rdr : TcpReader) : Nat :=
  if rdr.tcpBlockDelay = 0 then 100 else rdr.tcpBlockDelay

/-- `block_connect`.  The milliseconds are an `unsigned short`. -/
def TcpReader.blockConnect (rdr : TcpReader) : TcpReader :=
  { tcpBlockDelay := min (rdr.delay * 4) (60 * 1000)
    tcpBlockConnectTill :=
      { time := rdr.tcpBlockConnectTill.time + (rdr.delay / 1000 : Nat)
        millitm :=
          (rdr.tcpBlockConnectTill.millitm + (rdr.delay % 1000 : Nat)) %
            2 ^ 16 } }

/-- `is_connect_blocked`. -/
def TcpReader.isConnectBlocked (rdr : TcpReader) (now : Nat) : Bool :=
  rdr.tcpBlockDelay != 0 &&
    compTimeb (Timeb.ofMs now) rdr.tcpBlockConnectTill < 0

/-- What happens in a call of `network_tcp_connection_open`: when the address
is seen to have changed, when the block is looked at, whether the connection
comes up, and when it does or fails. -/
structure Opening where
  resolved : Bool
  changedAt : Option Nat
  checkedAt : Nat
  connected : Bool
  endedAt : Nat
  deriving DecidableEq, Repr

/-- The reader when the block is looked at. -/
def TcpReader.checked (rdr : TcpReader) (opening : Opening) : TcpReader :=
  match opening.changedAt with
  | some now => rdr.clearBlockDelay now
  | none => rdr

/-- `network_tcp_connection_open`. -/
def TcpReader.networkTcpConnectionOpen (rdr : TcpReader) (opening : Opening) :
    TcpReader :=
  if opening.resolved then
    let rdr := rdr.checked opening
    if rdr.isConnectBlocked opening.checkedAt then rdr
    else if opening.connected then rdr.clearBlockDelay opening.endedAt
    else rdr.blockConnect
  else rdr

/-! ## Histories -/

/-- What changes the block of a reader.  After a connection was opened,
`cc_cli_connect` blocks the next one if the login fails. -/
inductive TcpEvent where
  | restartCardreader (now : Nat)
  | opening (opening : Opening)
  | loginFailed (now : Nat)
  deriving DecidableEq, Repr

def TcpReader.step (rdr : TcpReader) : TcpEvent → TcpReader
  | .restartCardreader now =>
      { tcpBlockDelay := 100, tcpBlockConnectTill := Timeb.ofMs now }
  | .opening opening => rdr.networkTcpConnectionOpen opening
  | .loginFailed _ => rdr.blockConnect

/-- The time of a failure, with the reader before `block_connect`. -/
def TcpReader.failure (rdr : TcpReader) : TcpEvent → Option (Nat × TcpReader)
  | .restartCardreader _ => none
  | .opening opening =>
      if opening.resolved ∧ ¬opening.connected ∧
          ¬(rdr.checked opening).isConnectBlocked opening.checkedAt then
        some (opening.endedAt, rdr.checked opening)
      else none
  | .loginFailed now => some (now, rdr)

/-- A reader in the memory that `cs_malloc` cleared. -/
def newReader : TcpReader :=
  { tcpBlockDelay := 0, tcpBlockConnectTill := { time := 0, millitm := 0 } }

def run (events : List TcpEvent) : TcpReader :=
  events.foldl TcpReader.step newReader

variable {rdr before : TcpReader} {event : TcpEvent} {t now : Nat}

/-- A failure ends in `block_connect`. -/
theorem step_of_failure (failed : rdr.failure event = some (t, before)) :
    rdr.step event = before.blockConnect := by
  cases event with
  | restartCardreader now => cases failed
  | loginFailed now =>
      cases failed
      rfl
  | opening opening =>
      simp only [TcpReader.failure, Option.ite_none_right_eq_some,
        Option.some.injEq, Prod.mk.injEq] at failed
      obtain ⟨⟨resolved, closed, unblocked⟩, _, rfl⟩ := failed
      rw [TcpReader.step, TcpReader.networkTcpConnectionOpen, if_pos resolved]
      dsimp only
      rw [if_neg unblocked, if_neg closed]

/-! ## The time stamp -/

/-- The delays that come one after the other, each with what the milliseconds
of the time stamp can have reached by then. -/
def reached : List (Nat × Int) :=
  [(0, 999), (100, 999), (400, 1099), (1600, 1499), (6400, 2099),
    (25600, 2499), (60000, 3099)]

theorem reached_next : ∀ step ∈ reached, ∃ next ∈ reached,
    next.1 = min ((if step.1 = 0 then 100 else step.1) * 4) (60 * 1000) ∧
      step.2 + ((if step.1 = 0 then 100 else step.1) % 1000 : Nat) ≤
        next.2 := by
  decide

structure Sound (rdr : TcpReader) : Prop where
  low : 0 ≤ rdr.tcpBlockConnectTill.millitm
  high : ∃ step ∈ reached, step.1 = rdr.tcpBlockDelay ∧
    rdr.tcpBlockConnectTill.millitm ≤ step.2

namespace Sound

theorem clearBlockDelay (rdr : TcpReader) (now : Nat) :
    Sound (rdr.clearBlockDelay now) := by
  constructor
  · simp only [TcpReader.clearBlockDelay, Timeb.ofMs]
    omega
  · refine ⟨(0, 999), by decide, rfl, ?_⟩
    simp only [TcpReader.clearBlockDelay, Timeb.ofMs]
    omega

theorem checked (sound : Sound rdr) (opening : Opening) :
    Sound (rdr.checked opening) := by
  unfold TcpReader.checked
  split
  · exact clearBlockDelay rdr _
  · exact sound

/-- The milliseconds stay far below the range of their type. -/
theorem no_wrap (sound : Sound rdr) :
    rdr.blockConnect.tcpBlockConnectTill.millitm =
      rdr.tcpBlockConnectTill.millitm + (rdr.delay % 1000 : Nat) := by
  obtain ⟨low, step, member, _, high⟩ := sound
  have small : ∀ step ∈ reached, step.2 ≤ 3099 := by decide
  have bound := small step member
  apply Int.emod_eq_of_lt
  · omega
  · omega

theorem blockConnect (sound : Sound rdr) : Sound rdr.blockConnect := by
  have milli := sound.no_wrap
  obtain ⟨low, step, member, same, high⟩ := sound
  obtain ⟨next, found, delay, grown⟩ := reached_next step member
  rw [same] at delay grown
  constructor
  · omega
  · refine ⟨next, found, delay, ?_⟩
    rw [milli]
    exact (Int.add_le_add_right high _).trans grown

theorem step (sound : Sound rdr) (event : TcpEvent) :
    Sound (rdr.step event) := by
  cases event with
  | restartCardreader now =>
      constructor
      · simp only [TcpReader.step, Timeb.ofMs]
        omega
      · refine ⟨(100, 999), by decide, rfl, ?_⟩
        simp only [TcpReader.step, Timeb.ofMs]
        omega
  | loginFailed now => exact sound.blockConnect
  | opening opening =>
      simp only [TcpReader.step, TcpReader.networkTcpConnectionOpen]
      split
      · split
        · exact sound.checked opening
        · split
          · exact clearBlockDelay _ _
          · exact (sound.checked opening).blockConnect
      · exact sound

theorem run (events : List TcpEvent) : Sound (run events) := by
  induction events using List.reverseRecOn with
  | nil => exact ⟨le_rfl, (0, 999), by decide, rfl, by decide⟩
  | append_singleton events event induction =>
      rw [ConnectBlock.run, List.foldl_append]
      exact induction.step event

/-- The reader at a failure. -/
theorem failure (sound : Sound rdr)
    (failed : rdr.failure event = some (t, before)) : Sound before := by
  cases event with
  | restartCardreader now => cases failed
  | loginFailed now =>
      cases failed
      exact sound
  | opening opening =>
      simp only [TcpReader.failure, Option.ite_none_right_eq_some,
        Option.some.injEq, Prod.mk.injEq] at failed
      obtain ⟨_, _, rfl⟩ := failed
      exact sound.checked opening

end Sound

/-! ## What a failure blocks -/

/-- The time stamp is not before the failure, and the milliseconds of the
failure and of the delay make no new second, unless the seconds of the stamp
are ahead.  In the third case the delay is made of whole seconds and the stamp
lacks one of them, but has enough milliseconds that were not carried over. -/
def StampNotPast (t : Nat) (before : TcpReader) : Prop :=
  let now := Timeb.ofMs t
  let till := before.tcpBlockConnectTill
  now.time < till.time ∨
    (now.time = till.time ∧ now.millitm ≤ till.millitm ∧
      now.millitm + (before.delay % 1000 : Nat) ≤ 1000) ∨
    (now.time = till.time + 1 ∧ now.millitm = 0 ∧ before.delay % 1000 = 0 ∧
      1000 ≤ till.millitm)

theorem delay_pos (rdr : TcpReader) : 0 < rdr.delay := by
  unfold TcpReader.delay
  split <;> omega

theorem compTimeb_neg_iff (left right : Timeb) :
    compTimeb left right < 0 ↔
      left.time < right.time ∨
        (left.time = right.time ∧ left.millitm < right.millitm) := by
  unfold compTimeb
  split_ifs <;> omega

theorem blocked_iff (sound : Sound before) :
    before.blockConnect.isConnectBlocked now = true ↔
      ((now / 1000 : Nat) : Int) <
          before.tcpBlockConnectTill.time + (before.delay / 1000 : Nat) ∨
        (((now / 1000 : Nat) : Int) =
            before.tcpBlockConnectTill.time + (before.delay / 1000 : Nat) ∧
          ((now % 1000 : Nat) : Int) <
            before.tcpBlockConnectTill.millitm +
              (before.delay % 1000 : Nat)) := by
  have blocking : before.blockConnect.tcpBlockDelay ≠ 0 := by
    have positive := delay_pos before
    simp only [TcpReader.blockConnect]
    omega
  rw [TcpReader.isConnectBlocked, bne_iff_ne.mpr blocking, Bool.true_and,
    decide_eq_true_eq, compTimeb_neg_iff, sound.no_wrap]
  rfl

/-- The last millisecond of the delay decides. -/
theorem blockConnect_blocks_iff (sound : Sound before) :
    (∀ now < t + before.delay,
      before.blockConnect.isConnectBlocked now = true) ↔
        StampNotPast t before := by
  have positive := delay_pos before
  unfold StampNotPast
  simp only [blocked_iff sound, Timeb.ofMs]
  have low := sound.low
  constructor
  · intro all
    have last := all (t + before.delay - 1) (by omega)
    omega
  · intro stamp now within
    omega

/-- A failure in a history: what came before, its time, and the reader
before `block_connect`. -/
def FailureIn (events earlier : List TcpEvent) (event : TcpEvent) (t : Nat)
    (before : TcpReader) : Prop :=
  earlier ++ [event] <+: events ∧
    (run earlier).failure event = some (t, before)

/-- In every history, every failure blocks the connects for its delay exactly
when every one finds a time stamp that is not past. -/
theorem failures_block_iff (events : List TcpEvent) :
    (∀ earlier event t before, FailureIn events earlier event t before →
      ∀ now < t + before.delay,
        ((run earlier).step event).isConnectBlocked now = true) ↔
    ∀ earlier event t before, FailureIn events earlier event t before →
      StampNotPast t before := by
  have each : ∀ earlier event t before,
      FailureIn events earlier event t before →
        ((∀ now < t + before.delay,
            ((run earlier).step event).isConnectBlocked now = true) ↔
          StampNotPast t before) := by
    intro earlier event t before failure
    rw [step_of_failure failure.2]
    exact blockConnect_blocks_iff ((Sound.run earlier).failure failure.2)
  constructor
  · intro all earlier event t before failure
    exact (each earlier event t before failure).mp
      (all earlier event t before failure)
  · intro all earlier event t before failure
    exact (each earlier event t before failure).mpr
      (all earlier event t before failure)

/-- A connect is only tried when the time stamp has passed, so where the clock
goes on while it is tried its failure never finds the stamp ahead.  Without a
delay the stamp is the time of the last success. -/
theorem opening_finds_stamp_past {opening : Opening}
    (failed : rdr.failure (.opening opening) = some (t, before))
    (forward : opening.checkedAt < t)
    (cleared : before.tcpBlockDelay = 0 →
      ¬compTimeb (Timeb.ofMs opening.checkedAt)
        before.tcpBlockConnectTill < 0) :
    ¬StampNotPast t before := by
  simp only [TcpReader.failure, Option.ite_none_right_eq_some,
    Option.some.injEq, Prod.mk.injEq] at failed
  obtain ⟨⟨_, _, unblocked⟩, _, rfl⟩ := failed
  have past : ¬compTimeb (Timeb.ofMs opening.checkedAt)
      (rdr.checked opening).tcpBlockConnectTill < 0 := by
    by_cases none : (rdr.checked opening).tcpBlockDelay = 0
    · exact cleared none
    · simpa [TcpReader.isConnectBlocked, none] using unblocked
  rw [compTimeb_neg_iff] at past
  unfold StampNotPast
  simp only [Timeb.ofMs] at past ⊢
  omega

/-- A connect that is tried at 1000.5 s and has failed after 100 ms. -/
def failedOpening : Opening :=
  { resolved := true, changedAt := none, checkedAt := 1000500
    connected := false, endedAt := 1000600 }

/-- For a reader that was started at 1000 s the next connect is not blocked a
millisecond later. -/
theorem failure_blocks_nothing :
    ¬∀ events earlier event t before,
      FailureIn events earlier event t before →
        ∀ now < t + before.delay,
          ((run earlier).step event).isConnectBlocked now = true := by
  intro blocks
  have blocked := blocks
    [.restartCardreader 1000000, .opening failedOpening]
    [.restartCardreader 1000000] (.opening failedOpening) 1000600
    (run [.restartCardreader 1000000]) ⟨List.prefix_rfl, by decide⟩ 1000601
    (by decide)
  exact absurd blocked (by decide)

end Oscam.ConnectBlock
