import Oscam.Dvbapi.Pids

/-!
# The pids of a message in a used demux

An update counts the entries of a demux from zero again but leaves what is in
them.  The same pids are then added to a used demux and to a cleared one, and
the entries become the same if and only if the streams that were left in them
are among those of the message.
-/

namespace Oscam.Dvbapi

/-- The same caid, ECM pid, provider and streams. -/
structure EcmPid.SamePid (a b : EcmPid) : Prop where
  caid : a.caid = b.caid
  ecmPid : a.ecmPid = b.ecmPid
  provid : a.provid = b.provid
  streams : a.streams = b.streams

/-- As many entries in use, and the same pids in them. -/
structure Demux.SameTable (d e : Demux) : Prop where
  ecmPidCount : d.ecmPidCount = e.ecmPidCount
  pid : ∀ n, e.InUse n → (d.ecmPid n).SamePid (e.ecmPid n)

/-- All of the first streams are among the second ones. -/
def Among (a b : UInt32) : Prop := a ||| b = b

instance (a b : UInt32) : Decidable (Among a b) :=
  inferInstanceAs (Decidable (_ = _))

theorem Among.refl (a : UInt32) : Among a a := UInt32.or_self

theorem Among.or {a b : UInt32} (among : Among a b) (c : UInt32) :
    Among a (b ||| c) := by
  unfold Among
  rw [← UInt32.or_assoc, among]

theorem Among.eq_zero {a : UInt32} (none : Among a 0) : a = 0 :=
  (UInt32.or_eq_zero_iff.mp none).1

/-! ## What adding keeps -/

/-- The number of entries never gets less. -/
theorem ecmPidCount_le_add (d : Demux) (pid : Pid) :
    d.ecmPidCount ≤ (d.add pid).ecmPidCount := by
  cases pid with
  | stream pid =>
      rw [Demux.add]
      split_ifs <;> exact le_rfl
  | ecm caid ecmpid provid =>
      rw [Demux.add, Demux.addEcmpid]
      split_ifs
      · exact le_rfl
      · exact Nat.le_succ _
      · exact le_rfl

/-- Streams that are left in an entry stay in it. -/
theorem among_add {d : Demux} {n : Fin ecmPids} {left : UInt32} (pid : Pid)
    (among : Among left (d.ecmPid n).streams) :
    Among left ((d.add pid).ecmPid n).streams := by
  cases pid with
  | stream pid =>
      rw [Demux.add]
      split_ifs <;> exact among
  | ecm caid ecmpid provid =>
      rw [Demux.add, Demux.addEcmpid]
      split_ifs
      · dsimp only
        split_ifs
        · exact among.or _
        · exact among
      · dsimp only
        by_cases same : n = ⟨d.ecmPidCount, by assumption⟩
        · subst same
          rw [Function.update_self]
          exact among.or _
        · rw [Function.update_of_ne same]
          exact among
      · exact among

/-- An entry for all streams stays one. -/
theorem global_add {d : Demux} {n : Fin ecmPids} (pid : Pid)
    (used : d.InUse n) (all : (d.ecmPid n).streams = 0) :
    (d.add pid).InUse n ∧ ((d.add pid).ecmPid n).streams = 0 := by
  refine ⟨Nat.lt_of_lt_of_le used (ecmPidCount_le_add d pid), ?_⟩
  cases pid with
  | stream pid =>
      rw [Demux.add]
      split_ifs <;> exact all
  | ecm caid ecmpid provid =>
      rw [Demux.add, Demux.addEcmpid]
      split_ifs
      · dsimp only
        rw [if_neg]
        · exact all
        · simp [Demux.addsStream, all]
      · dsimp only
        rw [Function.update_of_ne]
        · exact all
        · rintro rfl
          exact Nat.lt_irrefl _ used
      · exact all

theorem global_addAll {d : Demux} {n : Fin ecmPids} (pids : List Pid)
    (used : d.InUse n) (all : (d.ecmPid n).streams = 0) :
    (d.addAll pids).InUse n ∧ ((d.addAll pids).ecmPid n).streams = 0 := by
  induction pids generalizing d with
  | nil => exact ⟨used, all⟩
  | cons pid rest induction =>
      obtain ⟨used, all⟩ := global_add pid used all
      exact induction used all

/-! ## The same pids twice -/

/-- A used demux and a cleared one with the same pids so far.  The entries in
use differ by the streams that were left in them, and an entry for all streams
had none. -/
structure Alike (left : Fin ecmPids → UInt32) (d e : Demux) : Prop where
  ecmPidCount : d.ecmPidCount = e.ecmPidCount
  streamPids : d.streamPids = e.streamPids
  caid : ∀ n, e.InUse n → (d.ecmPid n).caid = (e.ecmPid n).caid
  ecmPid : ∀ n, e.InUse n → (d.ecmPid n).ecmPid = (e.ecmPid n).ecmPid
  provid : ∀ n, e.InUse n → (d.ecmPid n).provid = (e.ecmPid n).provid
  streams : ∀ n, (d.ecmPid n).streams = (e.ecmPid n).streams ||| left n
  global : ∀ n, e.InUse n → (e.ecmPid n).streams = 0 → left n = 0
  unused : ∀ n, ¬ e.InUse n → (e.ecmPid n).streams = 0

namespace Alike

variable {left : Fin ecmPids → UInt32} {d e : Demux}

theorem addsStream (alike : Alike left d e) (caid ecmpid : UInt16)
    (n : Fin ecmPids) :
    d.addsStream caid ecmpid n = e.addsStream caid ecmpid n := by
  have inUse : d.InUse n ↔ e.InUse n := by
    unfold Demux.InUse
    rw [alike.ecmPidCount]
  unfold Demux.addsStream
  rw [alike.streamPids, decide_eq_decide.mpr inUse]
  by_cases used : e.InUse n
  · have zero : (d.ecmPid n).streams = 0 ↔ (e.ecmPid n).streams = 0 := by
      rw [alike.streams n, UInt32.or_eq_zero_iff]
      exact ⟨And.left, fun all => ⟨all, alike.global n used all⟩⟩
    have same : ((d.ecmPid n).streams != 0) = ((e.ecmPid n).streams != 0) := by
      rw [Bool.eq_iff_iff, bne_iff_ne, bne_iff_ne]
      exact not_congr zero
    rw [alike.caid n used, alike.ecmPid n used, same]
  · simp [used]

theorem streamBit (alike : Alike left d e) : d.streamBit = e.streamBit := by
  unfold Demux.streamBit
  rw [alike.streamPids]

/-- Another stream of the entries that have the pid. -/
theorem more (alike : Alike left d e) {caid ecmpid : UInt16}
    {provid : UInt32} (room : e.ecmPidCount < ecmPids)
    (known : (List.finRange ecmPids).any (e.addsStream caid ecmpid) = true) :
    Alike left (d.addEcmpid caid ecmpid provid)
      (e.addEcmpid caid ecmpid provid) := by
  have roomToo : d.ecmPidCount < ecmPids := by rwa [alike.ecmPidCount]
  have adds : d.addsStream caid ecmpid = e.addsStream caid ecmpid :=
    funext (alike.addsStream caid ecmpid)
  rw [Demux.addEcmpid, Demux.addEcmpid, dif_pos room, dif_pos roomToo, adds,
    if_pos known, if_pos known, alike.streamBit]
  constructor
  · exact alike.ecmPidCount
  · exact alike.streamPids
  · intro n used
    dsimp only
    split <;> exact alike.caid n used
  · intro n used
    dsimp only
    split <;> exact alike.ecmPid n used
  · intro n used
    dsimp only
    split <;> exact alike.provid n used
  · intro n
    dsimp only
    split
    · dsimp only
      rw [alike.streams n, UInt32.or_assoc, UInt32.or_comm (left n),
        ← UInt32.or_assoc]
    · exact alike.streams n
  · intro n used all
    dsimp only at all
    split at all
    · exact alike.global n used (UInt32.or_eq_zero_iff.mp all).1
    · exact alike.global n used all
  · intro n unused
    have none : e.addsStream caid ecmpid n = false := by
      have notUsed : decide (e.InUse n) = false := decide_eq_false unused
      unfold Demux.addsStream
      rw [notUsed, Bool.and_false, Bool.false_and, Bool.false_and,
        Bool.false_and]
    dsimp only
    rw [none, if_neg Bool.false_ne_true]
    exact alike.unused n unused

/-- A new entry; if it is one for all streams, none may be left in it. -/
theorem new (alike : Alike left d e) {caid ecmpid : UInt16}
    {provid : UInt32} (room : e.ecmPidCount < ecmPids)
    (unknown : ¬ (List.finRange ecmPids).any (e.addsStream caid ecmpid) = true)
    (covered : e.streamBit = 0 → left ⟨e.ecmPidCount, room⟩ = 0) :
    Alike left (d.addEcmpid caid ecmpid provid)
      (e.addEcmpid caid ecmpid provid) := by
  have roomToo : d.ecmPidCount < ecmPids := by rwa [alike.ecmPidCount]
  have adds : d.addsStream caid ecmpid = e.addsStream caid ecmpid :=
    funext (alike.addsStream caid ecmpid)
  have next : (⟨d.ecmPidCount, roomToo⟩ : Fin ecmPids) =
      ⟨e.ecmPidCount, room⟩ := Fin.ext alike.ecmPidCount
  rw [Demux.addEcmpid, Demux.addEcmpid, dif_pos room, dif_pos roomToo, adds,
    if_neg unknown, if_neg unknown, alike.streamBit]
  dsimp only
  rw [next]
  have before {n : Fin ecmPids} (used : n.val < e.ecmPidCount + 1)
      (other : n ≠ ⟨e.ecmPidCount, room⟩) : e.InUse n := by
    have different : n.val ≠ e.ecmPidCount := fun same => other (Fin.ext same)
    unfold Demux.InUse
    omega
  constructor
  · exact congrArg (· + 1) alike.ecmPidCount
  · exact alike.streamPids
  · intro n used
    by_cases same : n = ⟨e.ecmPidCount, room⟩
    · subst same
      simp only [Function.update_self]
    · simp only [Function.update_of_ne same]
      exact alike.caid n (before used same)
  · intro n used
    by_cases same : n = ⟨e.ecmPidCount, room⟩
    · subst same
      simp only [Function.update_self]
    · simp only [Function.update_of_ne same]
      exact alike.ecmPid n (before used same)
  · intro n used
    by_cases same : n = ⟨e.ecmPidCount, room⟩
    · subst same
      simp only [Function.update_self]
    · simp only [Function.update_of_ne same]
      exact alike.provid n (before used same)
  · intro n
    by_cases same : n = ⟨e.ecmPidCount, room⟩
    · subst same
      simp only [Function.update_self]
      rw [alike.streams, UInt32.or_assoc, UInt32.or_comm (left _),
        ← UInt32.or_assoc]
    · simp only [Function.update_of_ne same]
      exact alike.streams n
  · intro n used all
    by_cases same : n = ⟨e.ecmPidCount, room⟩
    · subst same
      simp only [Function.update_self] at all
      exact covered (UInt32.or_eq_zero_iff.mp all).2
    · simp only [Function.update_of_ne same] at all
      exact alike.global n (before used same) all
  · intro n unused
    have same : n ≠ ⟨e.ecmPidCount, room⟩ := by
      rintro rfl
      exact unused (Nat.lt_succ_self _)
    simp only [Function.update_of_ne same]
    exact alike.unused n fun used => unused (Nat.lt_succ_of_lt used)

/-- One more pid. -/
theorem add (alike : Alike left d e) (pid : Pid)
    (covered : ∀ n, (e.add pid).InUse n →
      ((e.add pid).ecmPid n).streams = 0 → left n = 0) :
    Alike left (d.add pid) (e.add pid) := by
  cases pid with
  | stream pid =>
      by_cases room : e.streamPids.length < ecmPids
      · have roomToo : d.streamPids.length < ecmPids := by
          rwa [alike.streamPids]
        rw [Demux.add, Demux.add, dif_pos room, dif_pos roomToo]
        exact ⟨alike.ecmPidCount,
          congrArg (· ++ [pid]) alike.streamPids, alike.caid, alike.ecmPid,
          alike.provid, alike.streams, alike.global, alike.unused⟩
      · have fullToo : ¬ d.streamPids.length < ecmPids := by
          rwa [alike.streamPids]
        rw [Demux.add, Demux.add, dif_neg room, dif_neg fullToo]
        exact alike
  | ecm caid ecmpid provid =>
      rw [Demux.add, Demux.add]
      by_cases room : e.ecmPidCount < ecmPids
      · by_cases known :
            (List.finRange ecmPids).any (e.addsStream caid ecmpid) = true
        · exact alike.more room known
        · refine alike.new room known fun none => ?_
          apply covered
          · rw [Demux.add, Demux.addEcmpid, dif_pos room, if_neg known]
            exact Nat.lt_succ_self _
          · rw [Demux.add, Demux.addEcmpid, dif_pos room, if_neg known]
            dsimp only
            rw [Function.update_self, none,
              alike.unused ⟨e.ecmPidCount, room⟩ (Nat.lt_irrefl _)]
            rfl
      · have full := Nat.not_lt.mp room
        rw [addEcmpid_of_full full,
          addEcmpid_of_full (full.trans_eq alike.ecmPidCount.symm)]
        exact alike

/-- The same pids are added to both. -/
theorem addAll (alike : Alike left d e) (pids : List Pid)
    (covered : ∀ n, (e.addAll pids).InUse n →
      Among (left n) ((e.addAll pids).ecmPid n).streams) :
    Alike left (d.addAll pids) (e.addAll pids) := by
  induction pids generalizing d e with
  | nil => exact alike
  | cons pid rest induction =>
      refine induction (alike.add pid ?_) covered
      intro n used all
      obtain ⟨usedAfter, allAfter⟩ := global_addAll rest used all
      have among := covered n usedAfter
      rw [Demux.addAll, List.foldl_cons, ← Demux.addAll, allAfter] at among
      exact among.eq_zero

end Alike

theorem among_addAll {d : Demux} {n : Fin ecmPids} {left : UInt32}
    (pids : List Pid) (among : Among left (d.ecmPid n).streams) :
    Among left ((d.addAll pids).ecmPid n).streams := by
  induction pids generalizing d with
  | nil => exact among
  | cons pid rest induction => exact induction (among_add pid among)

/-- With nothing counted, the same pids give the same table as in a cleared
demux if and only if no other streams are left in the entries they get. -/
theorem sameTable_addAll_iff {d e : Demux} (pids : List Pid)
    (used : d.ecmPidCount = 0) (cleared : e.ecmPidCount = 0)
    (streams : d.streamPids = e.streamPids)
    (none : ∀ n, (e.ecmPid n).streams = 0) :
    (d.addAll pids).SameTable (e.addAll pids) ↔
      ∀ n, (e.addAll pids).InUse n →
        Among (d.ecmPid n).streams ((e.addAll pids).ecmPid n).streams := by
  constructor
  · intro same n inUse
    rw [← (same.pid n inUse).streams]
    exact among_addAll pids (.refl _)
  · intro covered
    have nothing (n : Fin ecmPids) : ¬ e.InUse n := by
      unfold Demux.InUse
      rw [cleared]
      exact Nat.not_lt_zero _
    have start : Alike (fun n => (d.ecmPid n).streams) d e := {
      ecmPidCount := used.trans cleared.symm
      streamPids := streams
      caid := fun n inUse => absurd inUse (nothing n)
      ecmPid := fun n inUse => absurd inUse (nothing n)
      provid := fun n inUse => absurd inUse (nothing n)
      streams := fun n => by rw [none, UInt32.zero_or]
      global := fun n inUse => absurd inUse (nothing n)
      unused := fun n _ => none n }
    have alike := start.addAll pids covered
    refine ⟨alike.ecmPidCount, fun n inUse => ?_⟩
    refine ⟨alike.caid n inUse, alike.ecmPid n inUse, alike.provid n inUse, ?_⟩
    rw [alike.streams n, UInt32.or_comm]
    exact covered n inUse

end Oscam.Dvbapi
