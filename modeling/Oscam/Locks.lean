import Oscam.Lib.Threads

/-!
# Read and write locks

The locks of `oscam-simples.c`: two counters, one of the readers and one of the
writers, that every thread changes before it looks whether it may go on.  Each
read and each write of a counter is a step of its own, an increment or a
decrement is one step.
-/

namespace Oscam

open StepSystem

/-- `CS_MUTEX_LOCK` without its name. -/
structure CsLock where
  readLock : Int
  writeLock : Int
  lastlock : Int
  timeout : Int
  deriving DecidableEq, Repr

/-- The lock made by `cs_lock_create`. -/
def csLockCreate (timeout : Int) : CsLock :=
  { readLock := 0, writeLock := 0, lastlock := 0, timeout := timeout }

namespace CsLock

/-- The functions on a lock. -/
inductive Operation where
  | writelock
  | readlock
  | tryWritelock
  | tryReadlock
  | unlock
  deriving DecidableEq, Repr

/-- What a thread takes from outside: the function it calls next and the time
it is told. -/
structure Input where
  call : Operation
  now : Int
  deriving DecidableEq, Repr

/-- The places in the code of the lock functions.  Those of a function that
waits carry what it does when the wait is over. -/
inductive Place where
  /-- Outside of the lock functions, without the lock. -/
  | idle
  /-- At the loop over `write_lock`, behind its sleep, and at the parts of the
  timeout there. -/
  | waits (writer : Bool)
  | slept (writer : Bool)
  | late (writer : Bool) (t : Int)
  | clearsWrite (writer : Bool) (t : Int)
  | clearsRead (writer : Bool) (t : Int)
  | clearsTime (writer : Bool) (t : Int)
  /-- `cs_writelock` from its increment on. -/
  | writeEnters
  | writeChecks
  | writeLeaves
  | writeWaits
  | writeSlept
  | forcesTime (t : Int)
  | forcesRead
  | writeStamps
  | writes
  /-- `cs_readlock` from its increment on. -/
  | readEnters
  | readChecks
  | readLeaves
  | readStamps
  | reads
  /-- `cs_try_writelock`. -/
  | tryWriteTests
  | tryWriteEnters
  | tryWriteChecks
  | tryWriteLeaves
  | tryWriteStamps
  | tryWrites
  /-- `cs_try_readlock`; with the lock it is where `cs_readlock` is. -/
  | tryReadTests
  | tryReadEnters
  | tryReadChecks
  | tryReadLeaves
  /-- `cs_writeunlock` and `cs_readunlock`. -/
  | writeUnlocks
  | writeDrops
  | readUnlocks
  | readDrops
  deriving DecidableEq, Repr

/-- The timeout of a wait is over. -/
def Expired (l : CsLock) (now : Int) : Prop :=
  l.timeout ≠ 0 ∧ l.lastlock + l.timeout < now

instance (l : CsLock) (now : Int) : Decidable (l.Expired now) :=
  inferInstanceAs (Decidable (_ ∧ _))

/-- The next call of a thread without the lock; there is nothing to unlock. -/
def called : Operation → Place
  | .writelock => .waits true
  | .readlock => .waits false
  | .tryWritelock => .tryWriteTests
  | .tryReadlock => .tryReadTests
  | .unlock => .idle

/-- The next call of a thread that holds the lock, which it gives back before
it asks for it again. -/
def released (held back : Place) : Operation → Place
  | .unlock => back
  | _ => held

/-- One step of a thread. -/
def code (input : Input) (l : CsLock) : Place → CsLock × Place
  | .idle => (l, called input.call)
  | .waits writer =>
      if l.writeLock ≠ 0 then (l, .slept writer)
      else (l, if writer then .writeEnters else .readEnters)
  | .slept writer =>
      if l.Expired input.now then (l, .late writer input.now)
      else (l, .waits writer)
  | .late writer t =>
      if l.writeLock ≠ 0 then (l, .clearsWrite writer t) else (l, .waits writer)
  | .clearsWrite writer t => ({ l with writeLock := 0 }, .clearsRead writer t)
  | .clearsRead writer t => ({ l with readLock := 0 }, .clearsTime writer t)
  | .clearsTime writer t =>
      ({ l with lastlock := t }, if writer then .writeEnters else .readEnters)
  | .writeEnters => ({ l with writeLock := l.writeLock + 1 }, .writeChecks)
  | .writeChecks =>
      if 1 < l.writeLock then (l, .writeLeaves) else (l, .writeWaits)
  | .writeLeaves => ({ l with writeLock := l.writeLock - 1 }, .waits true)
  | .writeWaits =>
      if l.readLock ≠ 0 then (l, .writeSlept) else (l, .writeStamps)
  | .writeSlept =>
      if l.Expired input.now then (l, .forcesTime input.now)
      else (l, .writeWaits)
  | .forcesTime t => ({ l with lastlock := t }, .forcesRead)
  | .forcesRead => ({ l with readLock := 0 }, .writeStamps)
  | .writeStamps => ({ l with lastlock := input.now }, .writes)
  | .writes => (l, released .writes .writeUnlocks input.call)
  | .readEnters => ({ l with readLock := l.readLock + 1 }, .readChecks)
  | .readChecks =>
      if 0 < l.writeLock then (l, .readLeaves) else (l, .readStamps)
  | .readLeaves => ({ l with readLock := l.readLock - 1 }, .waits false)
  | .readStamps => ({ l with lastlock := input.now }, .reads)
  | .reads => (l, released .reads .readUnlocks input.call)
  | .tryWriteTests =>
      if l.writeLock ≠ 0 then (l, .idle) else (l, .tryWriteEnters)
  | .tryWriteEnters =>
      ({ l with writeLock := l.writeLock + 1 }, .tryWriteChecks)
  | .tryWriteChecks =>
      if 1 < l.writeLock then (l, .tryWriteLeaves) else (l, .tryWriteStamps)
  | .tryWriteLeaves => ({ l with writeLock := l.writeLock - 1 }, .idle)
  | .tryWriteStamps => ({ l with lastlock := input.now }, .tryWrites)
  | .tryWrites => (l, released .tryWrites .writeUnlocks input.call)
  | .tryReadTests =>
      if l.writeLock ≠ 0 then (l, .idle) else (l, .tryReadEnters)
  | .tryReadEnters => ({ l with readLock := l.readLock + 1 }, .tryReadChecks)
  | .tryReadChecks =>
      if 0 < l.writeLock then (l, .tryReadLeaves) else (l, .readStamps)
  | .tryReadLeaves => ({ l with readLock := l.readLock - 1 }, .idle)
  | .writeUnlocks =>
      if 0 < l.writeLock then (l, .writeDrops) else (l, .idle)
  | .writeDrops => ({ l with writeLock := l.writeLock - 1 }, .idle)
  | .readUnlocks =>
      if 0 < l.readLock then (l, .readDrops) else (l, .idle)
  | .readDrops => ({ l with readLock := l.readLock - 1 }, .idle)

/-! ## The places that a counter counts -/

/-- Behind its increment of `write_lock` and before the decrement. -/
def Place.inWrite : Place → Bool
  | .writeChecks | .writeLeaves | .writeWaits | .writeSlept | .writeStamps
  | .writes | .tryWriteChecks | .tryWriteLeaves | .tryWriteStamps | .tryWrites
  | .writeUnlocks | .writeDrops => true
  | _ => false

/-- Behind its increment of `read_lock` and before the decrement. -/
def Place.inRead : Place → Bool
  | .readChecks | .readLeaves | .readStamps | .reads | .tryReadChecks
  | .tryReadLeaves | .readUnlocks | .readDrops => true
  | _ => false

/-- Behind the check that no other writer is there. -/
def Place.passed : Place → Bool
  | .writeWaits | .writeSlept | .writeStamps | .writes | .tryWriteStamps
  | .tryWrites | .writeUnlocks | .writeDrops => true
  | _ => false

/-- `cs_writelock` behind its wait for the readers. -/
def Place.alone : Place → Bool
  | .writeStamps | .writes => true
  | _ => false

/-- Behind the check that no writer is there. -/
def Place.shares : Place → Bool
  | .readStamps | .reads => true
  | _ => false

/-- In the part of a wait that takes the lock from its holders. -/
def Place.breaks : Place → Bool
  | .late _ _ | .clearsWrite _ _ | .clearsRead _ _ | .clearsTime _ _
  | .forcesTime _ | .forcesRead => true
  | _ => false

/-- A thread that has slept does not find the timeout over. -/
def Patient (input : Input) (l : CsLock) : Place → Prop
  | .slept _ | .writeSlept => ¬l.Expired input.now
  | _ => True

instance (input : Input) (l : CsLock) : ∀ p, Decidable (Patient input l p)
  | .slept _ | .writeSlept => inferInstanceAs (Decidable (¬_))
  | .idle | .waits _ | .late _ _ | .clearsWrite _ _ | .clearsRead _ _
  | .clearsTime _ _ | .writeEnters | .writeChecks | .writeLeaves | .writeWaits
  | .forcesTime _ | .forcesRead | .writeStamps | .writes | .readEnters
  | .readChecks | .readLeaves | .readStamps | .reads | .tryWriteTests
  | .tryWriteEnters | .tryWriteChecks | .tryWriteLeaves | .tryWriteStamps
  | .tryWrites | .tryReadTests | .tryReadEnters | .tryReadChecks
  | .tryReadLeaves | .writeUnlocks | .writeDrops | .readUnlocks
  | .readDrops => .isTrue trivial

/-! ## One step -/

/-- What one step changes: the counters by the place left and the place
reached, and where the step passes one of the checks what the check saw. -/
structure Moves (l l' : CsLock) (p q : Place) : Prop where
  writers : l'.writeLock + p.inWrite.toNat = l.writeLock + q.inWrite.toNat
  readers : l'.readLock + p.inRead.toNat = l.readLock + q.inRead.toNat
  passed : q.passed = true →
    p.passed = true ∨ p.inWrite = true ∧ l.writeLock ≤ 1
  alone : q.alone = true → p.alone = true ∨ l.readLock = 0
  shares : q.shares = true → p.shares = true ∨ l.writeLock ≤ 0
  quiet : q.breaks = false

variable {input : Input} {l l' : CsLock} {p q : Place}

variable {s : Threads CsLock Place} {t u n : Nat} {timeout : Int}

/-- `n` threads and a new lock. -/
def begun (timeout : Int) (n : Nat) : Threads CsLock Place :=
  { shared := csLockCreate timeout, places := List.replicate n .idle }

/-- The thread that goes on does not break the lock. -/
def Keeps (s : Threads CsLock Place) (event : Nat × Input) : Prop :=
  ∀ p ∈ s.places[event.1]?, Patient event.2 s.shared p

instance (s : Threads CsLock Place) (event : Nat × Input) :
    Decidable (Keeps s event) :=
  inferInstanceAs (Decidable (∀ p ∈ s.places[event.1]?, _))

/-- The counters count the threads, one writer at most has passed its check,
and none that has waited for the readers is there beside one of them. -/
structure Counted (s : Threads CsLock Place) : Prop where
  quiet : s.tally Place.breaks = 0
  writers : s.shared.writeLock = s.tally Place.inWrite
  readers : s.shared.readLock = s.tally Place.inRead
  one : s.tally Place.passed ≤ 1
  apart : s.tally Place.alone = 0 ∨ s.tally Place.shares = 0

theorem inWrite_of_passed (passed : p.passed = true) : p.inWrite = true := by
  cases p <;> first | rfl | cases passed

theorem passed_of_alone (alone : p.alone = true) : p.passed = true := by
  cases p <;> first | rfl | cases alone

theorem inRead_of_shares (shares : p.shares = true) : p.inRead = true := by
  cases p <;> first | rfl | cases shares

theorem shares_of_alone (alone : p.alone = true) : p.shares = false := by
  cases p <;> first | rfl | cases alone

theorem tally_le_of_imp {first second : Place → Bool}
    (imp : ∀ p, first p = true → second p = true) :
    s.tally first ≤ s.tally second :=
  List.countP_mono_left fun p _ => imp p

/-- Beside a thread that only the second kind counts. -/
theorem tally_beside (first second : Place → Bool)
    (imp : ∀ p, first p = true → second p = true) (there : s.At t p)
    (outside : second .idle = false) :
    s.tally first + (second p).toNat ≤ s.tally second + (first p).toNat := by
  have firstBehind := Threads.tally_set first there s.shared .idle
  have secondBehind := Threads.tally_set second there s.shared .idle
  have few := tally_le_of_imp
    (s := { shared := s.shared, places := s.places.set t .idle }) imp
  have below : (first .idle).toNat ≤ (second .idle).toNat := by
    cases counted : first .idle with
    | false => exact Nat.zero_le _
    | true => exact Nat.le_of_eq (congrArg Bool.toNat (imp _ counted).symm)
  rw [outside, Bool.toNat_false] at secondBehind below
  omega

/-- What a step leaves of the invariant, from what it changes. -/
theorem Counted.moved {s' : Threads CsLock Place} (counted : Counted s)
    (there : s.At t p) (moves : Moves s.shared s'.shared p q)
    (behind : ∀ kind : Place → Bool,
      s'.tally kind + (kind p).toNat = s.tally kind + (kind q).toNat) :
    Counted s' := by
  obtain ⟨quiet, writers, readers, one, apart⟩ := counted
  have inWrite := behind Place.inWrite
  have inRead := behind Place.inRead
  have few : s.tally Place.alone ≤ s.tally Place.inWrite :=
    tally_le_of_imp fun _ alone => inWrite_of_passed (passed_of_alone alone)
  have some : s.tally Place.shares ≤ s.tally Place.inRead :=
    tally_le_of_imp fun _ => inRead_of_shares
  refine ⟨?_, ?_, ?_, ?_, ?_⟩
  · have breaks := behind Place.breaks
    rw [moves.quiet, Bool.toNat_false] at breaks
    omega
  · have changed := moves.writers
    omega
  · have changed := moves.readers
    omega
  · have passed := behind Place.passed
    cases now : q.passed with
    | false =>
        rw [now, Bool.toNat_false] at passed
        omega
    | true =>
        rw [now, Bool.toNat_true] at passed
        rcases moves.passed now with before | ⟨inside, single⟩
        · rw [before, Bool.toNat_true] at passed
          omega
        · -- The thread is the only one that `write_lock` counts.
          have beside := tally_beside Place.passed Place.inWrite
            (fun _ => inWrite_of_passed) there rfl
          rw [inside, Bool.toNat_true] at beside
          omega
  · have alone := behind Place.alone
    have shares := behind Place.shares
    cases nowAlone : q.alone with
    | true =>
        right
        rw [shares_of_alone nowAlone, Bool.toNat_false] at shares
        rcases moves.alone nowAlone with before | free
        · have there := Threads.tally_pos there before
          omega
        · omega
    | false =>
        rw [nowAlone, Bool.toNat_false] at alone
        cases nowShares : q.shares with
        | true =>
            left
            rcases moves.shares nowShares with before | free
            · have there := Threads.tally_pos there before
              omega
            · omega
        | false =>
            rw [nowShares, Bool.toNat_false] at shares
            omega

/-- The states of `n` threads that use one lock, as long as no wait for it
breaks it. -/
def Reached (timeout : Int) (n : Nat) : Threads CsLock Place → Prop :=
  Reach (fun s event => s.step code event) Keeps (· = begun timeout n)

end CsLock

end Oscam
