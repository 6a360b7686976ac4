import Oscam.Dvbapi.Events

/-!
# Updates

An update of a PMT on a connection gives the table of a fresh demux, and starts
the descrambling with an entry of it, if and only if the earlier PMTs have left
nothing that the message does not have.
-/

namespace Oscam.Dvbapi

/-- The table of a message in a cleared demux. -/
def freshTable (m : Memory) (base length : Nat) : Demux :=
  addPids m base length .cleared

/-- An update has the table of a cleared demux, and the index with which it
starts the descrambling is that of an entry in use. -/
def UpdateFresh (cfg : Cfg) (m : Memory) (base length : Nat) (connfd : Int)
    (s : State) : Prop :=
  ∀ known i, knownPids cfg m base length connfd s = (known, some i) →
    (parseCapmt cfg m base length connfd s i).SameTable
        (freshTable m base length) ∧
      ∀ n, (known i).curindex = some n → (known i).InUse n

/-- The demux of a connection, the last one if there are more, or else the first
that is free. -/
def updateTarget (connfd : Int) (s : State) : Option (Fin maxDemux) :=
  ((List.finRange maxDemux).reverse.find? fun i =>
      decide ((s i).socketFd = connfd)).or
    ((List.finRange maxDemux).find? fun i => (s i).programNumber == 0)

local instance neZeroEcmPids : NeZero ecmPids := ⟨by decide⟩

/-- The index that an update keeps: that of the descrambling, or 0 in a demux
that was free. -/
def keptIndex (connfd : Int) (d : Demux) : Option (Fin ecmPids) :=
  if d.socketFd = connfd then d.pidindex else some 0

/-- The streams that are left in an entry are among those that the message has
for it, and the index that is kept is below the number of its entries. -/
def UpdateFits (m : Memory) (base length : Nat) (connfd : Int) (s : State) :
    Prop :=
  ∀ i, updateTarget connfd s = some i →
    (∀ n, (freshTable m base length).InUse n →
      Among ((s i).ecmPid n).streams
        ((freshTable m base length).ecmPid n).streams) ∧
    ∀ n, keptIndex connfd (s i) = some n → (freshTable m base length).InUse n

/-- All messages come from this connection. -/
def OnConnection (connfd : Int) (_ : State) (event : Event) : Prop :=
  match event.action with
  | .capmt _ _ _ fd => fd = connfd
  | _ => True

/-! ## Demuxes of no connection -/

/-- A demux that has no message yet, or was cleared. -/
structure Demux.Idle (d : Demux) : Prop where
  ecmPidCount : d.ecmPidCount = 0
  streamPids : d.streamPids = []
  curindex : d.curindex = some 0

theorem idle_zero : Demux.zero.Idle := ⟨rfl, rfl, rfl⟩

theorem idle_cleared : Demux.cleared.Idle := ⟨rfl, rfl, rfl⟩

theorem Demux.Idle.chosen {d e : Demux} (idle : d.Idle) (chosen : d.Chosen e) :
    e.Idle where
  ecmPidCount := chosen.ecmPidCount.trans idle.ecmPidCount
  streamPids := chosen.streamPids.trans idle.streamPids
  curindex := by
    rcases chosen.curindex with same | ⟨n, -, used⟩
    · exact same.trans idle.curindex
    · unfold InUse at used
      rw [idle.ecmPidCount] at used
      exact absurd used (Nat.not_lt_zero _)

/-- Every demux that is not of the connection is idle. -/
def OthersIdle (connfd : Int) (s : State) : Prop :=
  ∀ i, (s i).socketFd ≠ connfd → (s i).Idle

theorem OthersIdle.update {connfd : Int} {s after : State}
    (idle : OthersIdle connfd s) (i : Fin maxDemux)
    (others : ∀ k, k ≠ i → after k = s k)
    (this : (after i).socketFd ≠ connfd → (after i).Idle) :
    OthersIdle connfd after := by
  intro k other
  by_cases same : k = i
  · subst same
    exact this other
  · rw [others k same] at other ⊢
    exact idle k other

theorem othersIdle_found {connfd : Int} {s : State}
    (idle : OthersIdle connfd s) (management : UInt8) :
    OthersIdle connfd (findDemux management connfd s).1 := by
  intro i other
  rw [findDemux_fst] at other ⊢
  unfold Demux.found at other ⊢
  split_ifs at other ⊢ with matched update
  · exact absurd matched.2 other
  · exact idle_cleared
  · exact idle i other
  · exact idle i other

theorem socketFd_add (d : Demux) (pid : Pid) :
    (d.add pid).socketFd = d.socketFd := by
  cases pid with
  | stream pid =>
      rw [Demux.add]
      split_ifs <;> rfl
  | ecm caid ecmpid provid =>
      rw [Demux.add, Demux.addEcmpid]
      split_ifs <;> rfl

theorem socketFd_addPids (m : Memory) (base length : Nat) (d : Demux) :
    (addPids m base length d).socketFd = d.socketFd :=
  addPids_keeps (fun added => added.socketFd = d.socketFd)
    (fun added pid same => (socketFd_add added pid).trans same) m base length
    rfl

theorem othersIdle_parseCapmt {connfd : Int} {s : State}
    (idle : OthersIdle connfd s) (cfg : Cfg) (m : Memory) (base length : Nat) :
    OthersIdle connfd (parseCapmt cfg m base length connfd s) := by
  have found := othersIdle_found idle (m base)
  rw [parseCapmt_eq, knownPids]
  revert found
  rcases findDemux (m base) connfd s with ⟨middle, _ | i⟩
  · exact id
  · intro found
    refine found.update i (fun k other => ?_) fun other => absurd ?_ other
    · dsimp only
      rw [afterPids_of_ne other, Function.update_of_ne other]
    · refine (kept_afterPids ..).socketFd.trans ?_
      rw [Function.update_self, socketFd_addPids]
      rfl

/-- No event on the connection changes an idle demux of no connection. -/
theorem othersIdle_step {connfd : Int} {s : State} {event : Event}
    (idle : OthersIdle connfd s) (on : OnConnection connfd s event) :
    OthersIdle connfd (step s event) := by
  obtain ⟨cfg, action⟩ := event
  cases action with
  | capmt m base length fd =>
      obtain rfl : fd = connfd := on
      exact othersIdle_parseCapmt idle cfg m base length
  | dcw er i =>
      refine idle.update i (fun k other => dcwTurn_of_ne other s) fun other => ?_
      have kept := kept_dcwTurn cfg er s i
      have before : (s i).socketFd ≠ connfd := kept.socketFd ▸ other
      have here := idle i before
      have same : step s ⟨cfg, .dcw er i⟩ = s :=
        dcwTurn_of_unused here.ecmPidCount
      rw [same]
      exact here
  | tryNext i =>
      have chosen := chosen_tryNextCaid cfg (s i)
      unfold step
      dsimp only
      split
      · refine idle.update i (fun k other => Function.update_of_ne other ..) ?_
        rw [Function.update_self]
        intro other
        exact (idle i (chosen.socketFd ▸ other)).chosen chosen
      · exact idle
  | stop i =>
      unfold step
      dsimp only
      rw [stopDescrambling_eq]
      refine idle.update i (fun k other => Function.update_of_ne other ..) ?_
      rw [Function.update_self]
      split
      · exact fun _ => idle_cleared
      · exact idle i
  | provid i n provid =>
      refine idle.update i (fun k other => setEcmPid_of_ne other ..) fun other => ?_
      have after : step s ⟨cfg, .provid i n provid⟩ i = _ :=
        setEcmPid_self s i n { (s i).ecmPid n with provid := provid }
      rw [after] at other ⊢
      have here := idle i other
      exact ⟨here.ecmPidCount, here.streamPids, here.curindex⟩

theorem othersIdle_reached {connfd : Int} {s : State}
    (reached : StepSystem.Reach step (OnConnection connfd) Begun s) :
    OthersIdle connfd s := by
  refine reached.invariant ?_ fun state event => othersIdle_step
  intro state begun i _other
  rw [begun i]
  exact idle_zero

/-! ## The demux of an update -/

theorem found_of_update (connfd : Int) (d : Demux) :
    d.found 0x05 connfd =
      if connfd > 0 ∧ d.socketFd = connfd then d.restart else d := by
  unfold Demux.found
  rw [if_pos rfl]

theorem socketFd_found (connfd : Int) (d : Demux) :
    (d.found 0x05 connfd).socketFd = d.socketFd := by
  rw [found_of_update]
  split <;> rfl

theorem findTurn_snd {connfd : Int} (socket : 0 < connfd)
    (found : State × Option (Fin maxDemux)) (i : Fin maxDemux) :
    (findTurn 0x05 connfd found i).2 =
      if (found.1 i).socketFd = connfd then some i else found.2 := by
  obtain ⟨s, demuxId⟩ := found
  unfold findTurn
  dsimp only
  by_cases matched : (s i).socketFd = connfd
  · rw [if_pos matched, if_pos ⟨socket, matched⟩, if_pos rfl]
  · rw [if_neg matched, if_neg fun both => matched both.2]

theorem foldl_findTurn_snd {connfd : Int} (socket : 0 < connfd)
    (items : List (Fin maxDemux)) (found : State × Option (Fin maxDemux)) :
    (items.foldl (findTurn 0x05 connfd) found).2 =
      (items.reverse.find? fun i =>
        decide ((found.1 i).socketFd = connfd)).or found.2 := by
  induction items generalizing found with
  | nil => rfl
  | cons i rest induction =>
      have kept (k : Fin maxDemux) :
          ((findTurn 0x05 connfd found i).1 k).socketFd =
            (found.1 k).socketFd := by
        rw [findTurn_fst]
        by_cases here : k = i
        · subst here
          rw [Function.update_self, socketFd_found]
        · rw [Function.update_of_ne here]
      rw [List.foldl_cons, induction, findTurn_snd socket, List.reverse_cons,
        List.find?_append, Option.or_assoc]
      simp only [kept]
      by_cases matched : (found.1 i).socketFd = connfd
      · simp [matched]
      · simp [matched]

theorem findDemux_snd {connfd : Int} (socket : 0 < connfd) (s : State) :
    (findDemux 0x05 connfd s).2 = updateTarget connfd s := by
  have free (i : Fin maxDemux) :
      ((findDemux 0x05 connfd s).1 i).programNumber = (s i).programNumber := by
    rw [findDemux_fst, found_of_update]
    split <;> rfl
  have all := foldl_findTurn_snd socket (List.finRange maxDemux) (s, none)
  rw [Option.or_none] at all
  unfold findDemux at free ⊢
  dsimp only at free ⊢
  unfold updateTarget
  rw [all]
  simp only [free]

theorem knownPids_of_update (cfg : Cfg) {m : Memory} {base : Nat}
    (update : m base = 0x05) (length : Nat) {connfd : Int}
    (socket : 0 < connfd) {s known : State} {i : Fin maxDemux} :
    knownPids cfg m base length connfd s = (known, some i) ↔
      updateTarget connfd s = some i ∧
        known = Function.update (fun j => (s j).found 0x05 connfd) i
          (addPids m base length (((s i).found 0x05 connfd).program m base
            (demuxDevice cfg m base i) connfd)) := by
  have state : (findDemux 0x05 connfd s).1 =
      fun j => (s j).found 0x05 connfd := funext (findDemux_fst 0x05 connfd s)
  have target := findDemux_snd socket s
  rw [knownPids, update]
  revert state target
  rcases findDemux 0x05 connfd s with ⟨found, _ | j⟩
  · intro _state target
    rw [← target]
    simp
  · intro state target
    dsimp only at state target
    subst state
    rw [← target, Prod.mk.injEq, Option.some.injEq]
    constructor
    · rintro ⟨rfl, rfl⟩
      exact ⟨rfl, rfl⟩
    · rintro ⟨rfl, rfl⟩
      exact ⟨rfl, rfl⟩

/-! ## Tables -/

theorem EcmPid.SamePid.symm {a b : EcmPid} (same : a.SamePid b) :
    b.SamePid a :=
  ⟨same.caid.symm, same.ecmPid.symm, same.provid.symm, same.streams.symm⟩

/-- What a demux keeps, its table keeps. -/
theorem Demux.Kept.sameTable_iff {d e : Demux} (kept : d.Kept e) (f : Demux) :
    e.SameTable f ↔ d.SameTable f := by
  constructor
  · intro same
    exact ⟨kept.ecmPidCount.symm.trans same.ecmPidCount,
      fun n used => (same.pid n used).trans (kept.pid n).symm⟩
  · intro same
    exact ⟨kept.ecmPidCount.trans same.ecmPidCount,
      fun n used => (same.pid n used).trans (kept.pid n)⟩

theorem curindex_add (d : Demux) (pid : Pid) :
    (d.add pid).curindex = d.curindex := by
  cases pid with
  | stream pid =>
      rw [Demux.add]
      split_ifs <;> rfl
  | ecm caid ecmpid provid =>
      rw [Demux.add, Demux.addEcmpid]
      split_ifs <;> rfl

theorem curindex_addPids (m : Memory) (base length : Nat) (d : Demux) :
    (addPids m base length d).curindex = d.curindex :=
  addPids_keeps (fun added => added.curindex = d.curindex)
    (fun added pid same => (curindex_add added pid).trans same) m base length
    rfl

/-- The demux before the pids of an update are added. -/
structure Restarted (connfd : Int) (d : Demux) (fresh : Demux) : Prop where
  ecmPidCount : fresh.ecmPidCount = 0
  streamPids : fresh.streamPids = []
  curindex : fresh.curindex = keptIndex connfd d
  streams : ∀ n, (fresh.ecmPid n).streams = (d.ecmPid n).streams

theorem restarted_found {connfd : Int} (socket : 0 < connfd) {d : Demux}
    (idle : d.socketFd ≠ connfd → d.Idle) (m : Memory) (base device : Nat) :
    Restarted connfd d ((d.found 0x05 connfd).program m base device connfd) := by
  rw [found_of_update]
  by_cases matched : d.socketFd = connfd
  · rw [if_pos ⟨socket, matched⟩]
    refine ⟨rfl, rfl, ?_, fun _ => rfl⟩
    rw [keptIndex, if_pos matched]
    rfl
  · have here := idle matched
    rw [if_neg fun both => matched both.2]
    refine ⟨here.ecmPidCount, here.streamPids, ?_, fun _ => rfl⟩
    rw [keptIndex, if_neg matched]
    exact here.curindex

/-- The table of a restarted demux is that of a cleared one if no other streams
are left in its entries. -/
theorem sameTable_restarted_iff {connfd : Int} {d e : Demux}
    (restarted : Restarted connfd d e) (m : Memory) (base length : Nat) :
    (addPids m base length e).SameTable (freshTable m base length) ↔
      ∀ n, (freshTable m base length).InUse n →
        Among (d.ecmPid n).streams
          ((freshTable m base length).ecmPid n).streams := by
  have streams : e.streamPids = Demux.cleared.streamPids := restarted.streamPids
  unfold freshTable
  rw [addPids_eq, addPids_eq, streams,
    sameTable_addAll_iff _ restarted.ecmPidCount rfl streams fun _ => rfl]
  simp only [restarted.streams]

theorem updateFresh_of_idle {connfd : Int} (socket : 0 < connfd) {s : State}
    (idle : OthersIdle connfd s) (cfg : Cfg) {m : Memory} {base : Nat}
    (update : m base = 0x05) (length : Nat) :
    UpdateFresh cfg m base length connfd s ↔
      UpdateFits m base length connfd s := by
  unfold UpdateFresh UpdateFits
  constructor
  · intro fresh i target
    have known := (knownPids_of_update cfg update length socket).mpr
      ⟨target, rfl⟩
    have restarted := restarted_found socket (idle i) m base
      (demuxDevice cfg m base i)
    obtain ⟨same, started⟩ := fresh _ i known
    rw [parseCapmt_eq, known] at same
    dsimp only at same
    rw [(kept_afterPids ..).sameTable_iff, Function.update_self] at same
    refine ⟨(sameTable_restarted_iff restarted m base length).mp same, ?_⟩
    intro n kept
    have used := started n
    rw [Function.update_self, curindex_addPids, restarted.curindex] at used
    have inUse := used kept
    unfold Demux.InUse at inUse ⊢
    rwa [← same.ecmPidCount]
  · intro fits known i knows
    obtain ⟨target, rfl⟩ :=
      (knownPids_of_update cfg update length socket).mp knows
    obtain ⟨among, below⟩ := fits i target
    have restarted := restarted_found socket (idle i) m base
      (demuxDevice cfg m base i)
    have same := (sameTable_restarted_iff restarted m base length).mpr among
    refine ⟨?_, ?_⟩
    · rw [parseCapmt_eq, knows]
      dsimp only
      rw [(kept_afterPids ..).sameTable_iff, Function.update_self]
      exact same
    · intro n
      rw [Function.update_self, curindex_addPids, restarted.curindex]
      intro kept
      have inUse := below n kept
      unfold Demux.InUse at inUse ⊢
      rwa [same.ecmPidCount]

/-- In every run on a connection an update is as in a fresh demux if and only if
its message fits what is left. -/
theorem updateFresh_iff {connfd : Int} (socket : 0 < connfd) {s : State}
    (reached : StepSystem.Reach step (OnConnection connfd) Begun s) (cfg : Cfg)
    {m : Memory} {base : Nat} (update : m base = 0x05) (length : Nat) :
    UpdateFresh cfg m base length connfd s ↔
      UpdateFits m base length connfd s :=
  updateFresh_of_idle socket (othersIdle_reached reached) cfg update length

/-- A message with two streams of one ECM pid. -/
def twoStreams : Memory := fun p =>
  [0x03, 0x00, 0x01, 0x00, 0xF0, 0x00, 0x00, 0x00,
    0x02, 0xE0, 0x20, 0xF0, 0x06, 0x09, 0x04, 0x0D, 0x00, 0xE1, 0x00,
    0x04, 0xE0, 0x21, 0xF0, 0x06, 0x09, 0x04, 0x0D, 0x00, 0xE1, 0x00].getD p 0

/-- The update of it that has only the first stream. -/
def oneStream : Memory := fun p =>
  [0x05, 0x00, 0x01, 0x00, 0xF0, 0x00, 0x00, 0x00,
    0x02, 0xE0, 0x20, 0xF0, 0x06, 0x09, 0x04, 0x0D, 0x00, 0xE1, 0x00].getD p 0

theorem updateFresh_iff_begun :
    UpdateFresh .plain oneStream 0 19 5 (fun _ => .zero) ↔
      UpdateFits oneStream 0 19 5 (fun _ => .zero) :=
  updateFresh_iff (by decide) (.start fun _ => rfl) .plain (by decide) 19

/-- The demuxes after the first message. -/
def afterTwoStreams : State :=
  step (fun _ => .zero) ⟨.plain, .capmt twoStreams 0 30 5⟩

/-- The second stream stays in the entry. -/
theorem not_updateFresh_oneStream :
    StepSystem.Reach step (OnConnection 5) Begun afterTwoStreams ∧
      ¬ UpdateFresh .plain oneStream 0 19 5 afterTwoStreams := by
  have reached : StepSystem.Reach step (OnConnection 5) Begun afterTwoStreams :=
    .next (.start fun _ => rfl) rfl
  refine ⟨reached, ?_⟩
  rw [updateFresh_of_idle (by decide) (othersIdle_reached reached) .plain
    (by decide) 19]
  intro fits
  have target : updateTarget 5 afterTwoStreams = some 0 := by decide +kernel
  have among := (fits 0 target).1 0 (by decide +kernel)
  revert among
  decide +kernel

end Oscam.Dvbapi
