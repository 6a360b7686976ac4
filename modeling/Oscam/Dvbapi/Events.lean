import Oscam.Dvbapi.Reparse
import Oscam.Dvbapi.Loops
import Oscam.Lib.Reach

/-!
# The events of the dvbapi

A run of the dvbapi is a sequence of PMT messages, answers to requests, timeouts
and ends of descrambling.  The settings may be others at every event, and so may
the memory that is read without being set.
-/

namespace Oscam.Dvbapi

inductive Action where
  | capmt (m : Memory) (base length : Nat) (connfd : Int)
  | dcw (er : Dcw) (i : Fin maxDemux)
  | tryNext (i : Fin maxDemux)
  | stop (i : Fin maxDemux)
  | provid (i : Fin maxDemux) (n : Fin ecmPids) (provid : UInt32)

structure Event where
  cfg : Cfg
  action : Action

/-- A turn of the loop of `dvbapi_send_dcw`. -/
def dcwTurn (cfg : Cfg) (er : Dcw) (s : State) (i : Fin maxDemux) : State :=
  if (s i).programNumber ≠ er.srvid then s
  else
    match (s i).entryOf er with
    | none => s
    | some j =>
        if er.found then dcwFound cfg er s i j
        else if er.chidsLeft then s
        else dcwNotFound cfg s i

/-- What one event does. -/
def step (s : State) (event : Event) : State :=
  match event.action with
  | .capmt m base length connfd => parseCapmt event.cfg m base length connfd s
  | .dcw er i => dcwTurn event.cfg er s i
  | .tryNext i =>
      -- the device of a filter had nothing to read
      if (s i).pidindex = none then
        Function.update s i (tryNextCaid event.cfg (s i))
      else s
  | .stop i => stopDescrambling s i
  | .provid i n provid =>
      -- `dvbapi_process_input` knows the provider from the ECM
      setEcmPid s i n { (s i).ecmPid n with provid }

/-- All demuxes after `memset`. -/
def Begun (s : State) : Prop := ∀ i, s i = .zero

/-- `dvbapi_send_dcw` is a sequence of turns. -/
theorem sendDcwTo_turns (cfg : Cfg) (er : Dcw) (demuxes : List (Fin maxDemux))
    (s : State) :
    ∃ turns : List (Fin maxDemux),
      sendDcwTo cfg er demuxes s = turns.foldl (dcwTurn cfg er) s := by
  induction demuxes generalizing s with
  | nil => exact ⟨[], rfl⟩
  | cons i rest induction =>
      rw [sendDcwTo]
      split
      · exact induction s
      rename_i program
      split
      · exact induction s
      · rename_i j entry
        have turn : dcwTurn cfg er s i =
            if er.found then dcwFound cfg er s i j
            else if er.chidsLeft then s
            else dcwNotFound cfg s i := by
          rw [dcwTurn, if_neg program, entry]
        split
        · rename_i found
          obtain ⟨turns, same⟩ := induction (dcwFound cfg er s i j)
          refine ⟨i :: turns, ?_⟩
          rw [List.foldl_cons, turn, if_pos found, same]
        split
        · exact ⟨[], rfl⟩
        · rename_i failed none
          refine ⟨[i], ?_⟩
          rw [List.foldl_cons, turn, if_neg failed, if_neg none]
          rfl

/-! ## What stays as it is -/

theorem EcmPid.SamePid.refl (a : EcmPid) : a.SamePid a := ⟨rfl, rfl, rfl, rfl⟩

theorem EcmPid.SamePid.trans {a b c : EcmPid} (first : b.SamePid a)
    (second : c.SamePid b) : c.SamePid a :=
  ⟨second.caid.trans first.caid, second.ecmPid.trans first.ecmPid,
    second.provid.trans first.provid, second.streams.trans first.streams⟩

/-- The choice of an entry and its start leave this as it is. -/
structure Demux.Kept (d e : Demux) : Prop where
  ecmPidCount : e.ecmPidCount = d.ecmPidCount
  streamPids : e.streamPids = d.streamPids
  socketFd : e.socketFd = d.socketFd
  pid : ∀ n, (e.ecmPid n).SamePid (d.ecmPid n)

namespace Demux.Kept

theorem refl (d : Demux) : d.Kept d := ⟨rfl, rfl, rfl, fun _ => .refl _⟩

theorem trans {d e f : Demux} (first : d.Kept e) (second : e.Kept f) :
    d.Kept f :=
  ⟨second.ecmPidCount.trans first.ecmPidCount,
    second.streamPids.trans first.streamPids,
    second.socketFd.trans first.socketFd,
    fun n => (first.pid n).trans (second.pid n)⟩

theorem inUse {d e : Demux} (kept : d.Kept e) (n : Fin ecmPids) :
    e.InUse n ↔ d.InUse n := by
  unfold InUse
  rw [kept.ecmPidCount]

end Demux.Kept

/-- Moreover no index is given. -/
structure Demux.Chosen (d e : Demux) : Prop extends d.Kept e where
  index : ∀ n, (e.ecmPid n).index = (d.ecmPid n).index
  curindex : e.curindex = d.curindex ∨ ∃ n, e.curindex = some n ∧ d.InUse n

namespace Demux.Chosen

theorem refl (d : Demux) : d.Chosen d := ⟨.refl d, fun _ => rfl, .inl rfl⟩

theorem trans {d e f : Demux} (first : d.Chosen e) (second : e.Chosen f) :
    d.Chosen f where
  toKept := first.toKept.trans second.toKept
  index := fun n => (second.index n).trans (first.index n)
  curindex := by
    rcases second.curindex with same | ⟨n, chosen, used⟩
    · rw [same]
      exact first.curindex
    · exact .inr ⟨n, chosen, (first.inUse n).mp used⟩

end Demux.Chosen

theorem chosen_tryTurns (cfg : Cfg) (turns : Nat) (d : Demux) :
    d.Chosen (tryTurns cfg turns d) := by
  induction turns generalizing d with
  | zero => exact .refl d
  | succ turns induction =>
      rw [tryTurns]
      split
      · exact .refl d
      split
      · split
        · exact .refl d
        · refine Demux.Chosen.trans ?_ (induction _)
          refine ⟨⟨rfl, rfl, rfl, fun n => ?_⟩, fun n => ?_, .inl rfl⟩
          · dsimp only
            split_ifs
            · exact ⟨rfl, rfl, rfl, rfl⟩
            · exact .refl _
          · dsimp only
            split_ifs <;> rfl
      · rename_i num next
        have tried : d.Chosen { d with
            curindex := some num
            ecmPid := Function.update d.ecmPid num
              { d.ecmPid num with checked := true } } := by
          refine ⟨⟨rfl, rfl, rfl, fun n => ?_⟩, fun n => ?_,
            .inr ⟨num, rfl, (nextPid_some next).1⟩⟩
          · by_cases same : n = num
            · subst same
              dsimp only
              rw [Function.update_self]
              exact ⟨rfl, rfl, rfl, rfl⟩
            · dsimp only
              rw [Function.update_of_ne same]
              exact .refl _
          · by_cases same : n = num
            · subst same
              dsimp only
              rw [Function.update_self]
            · dsimp only
              rw [Function.update_of_ne same]
        split
        · exact tried.trans (induction _)
        · exact tried

theorem chosen_resortEcmpids (cfg : Cfg) (d : Demux) :
    d.Chosen (resortEcmpids cfg d) :=
  ⟨⟨rfl, rfl, rfl, fun _ => ⟨rfl, rfl, rfl, rfl⟩⟩, fun _ => rfl, .inl rfl⟩

/-- The choice of an entry after a message. -/
theorem chosen_tryNextCaid (cfg : Cfg) (d : Demux) :
    d.Chosen (tryNextCaid cfg d) :=
  chosen_tryTurns cfg 200 d

/-! ## The start of descrambling -/

@[simp] theorem setEcmPid_self (s : State) (i : Fin maxDemux)
    (j : Fin ecmPids) (entry : EcmPid) :
    setEcmPid s i j entry i =
      { s i with ecmPid := Function.update (s i).ecmPid j entry } :=
  Function.update_self ..

@[simp] theorem setEcmPid_of_ne {s : State} {i k : Fin maxDemux}
    (other : k ≠ i) (j : Fin ecmPids) (entry : EcmPid) :
    setEcmPid s i j entry k = s k :=
  Function.update_of_ne other ..

theorem kept_setEcmPid {s : State} {i : Fin maxDemux} {j : Fin ecmPids}
    {entry : EcmPid} (same : entry.SamePid ((s i).ecmPid j)) :
    (s i).Kept (setEcmPid s i j entry i) := by
  rw [setEcmPid_self]
  refine ⟨rfl, rfl, rfl, fun n => ?_⟩
  dsimp only
  by_cases here : n = j
  · subst here
    rwa [Function.update_self]
  · rw [Function.update_of_ne here]
    exact .refl _

theorem startTurn_of_ne {cfg : Cfg} {i k : Fin maxDemux} (other : k ≠ i)
    (s : State) (j : Fin ecmPids) : startTurn cfg i s j k = s k := by
  unfold startTurn
  split
  · exact setEcmPid_of_ne other ..
  · rfl

theorem kept_startTurn (cfg : Cfg) (i : Fin maxDemux) (s : State)
    (j : Fin ecmPids) : (s i).Kept (startTurn cfg i s j i) := by
  unfold startTurn
  split
  · exact kept_setEcmPid ⟨rfl, rfl, rfl, rfl⟩
  · exact .refl _

theorem startDescrambling_of_ne {cfg : Cfg} {i k : Fin maxDemux}
    (other : k ≠ i) (s : State) : startDescrambling cfg s i k = s k := by
  have turns (items : List (Fin ecmPids)) (s : State) :
      items.foldl (startTurn cfg i) s k = s k := by
    induction items generalizing s with
    | nil => rfl
    | cons j rest induction =>
        rw [List.foldl_cons, induction, startTurn_of_ne other]
  unfold startDescrambling
  rw [turns, Function.update_of_ne other]

theorem kept_startDescrambling (cfg : Cfg) (s : State) (i : Fin maxDemux) :
    (s i).Kept (startDescrambling cfg s i i) := by
  have turns (items : List (Fin ecmPids)) (s : State) :
      (s i).Kept (items.foldl (startTurn cfg i) s i) := by
    induction items generalizing s with
    | nil => exact .refl _
    | cons j rest induction =>
        exact (kept_startTurn cfg i s j).trans (induction _)
  have first : (s i).Kept (Function.update s i
      { s i with pidindex := (s i).curindex } i) := by
    rw [Function.update_self]
    exact ⟨rfl, rfl, rfl, fun _ => .refl _⟩
  exact first.trans (turns _ _)

/-! ## Control words -/

/-- The demuxes when a control word, or an answer without one for an entry that
is forced, starts the descrambling. -/
def dcwStart (cfg : Cfg) (er : Dcw) (s : State) (i : Fin maxDemux) :
    Option State :=
  if (s i).programNumber ≠ er.srvid then none
  else
    match (s i).entryOf er with
    | none => none
    | some j =>
        if (s i).pidindex ≠ none then none
        else if er.found then
          if er.caid = 0 then none
          else if cfg.requestmode = 1 then
            some (Function.update s i { s i with curindex := some j })
          else some s
        else if er.chidsLeft ∨ cfg.requestmode = 1 then none
        else
          match checkPrioMatch cfg (s i) (s i).curindex .prefer with
          | some entry => if 0 < entry.force then some s else none
          | none => none

/-- A turn starts the descrambling of a demux, or leaves all but the choice of
an entry as it is. -/
def DcwDoes (cfg : Cfg) (s : State) (i : Fin maxDemux) (started : Option State)
    (after : State) : Prop :=
  after = s ∨ ∃ d, (s i).Chosen d ∧
    (after = Function.update s i d ∨
      started = some (Function.update s i d) ∧
        after = startDescrambling cfg (Function.update s i d) i)

theorem DcwDoes.start (cfg : Cfg) (s : State) (i : Fin maxDemux) :
    DcwDoes cfg s i (some s) (startDescrambling cfg s i) := by
  refine .inr ⟨s i, .refl _, .inr ?_⟩
  rw [Function.update_eq_self]
  exact ⟨rfl, rfl⟩

theorem dcwFound_does (cfg : Cfg) (er : Dcw) (s : State) (i : Fin maxDemux)
    {j : Fin ecmPids} (used : (s i).InUse j) :
    DcwDoes cfg s i
      (if (s i).pidindex ≠ none then none
      else if er.caid = 0 then none
      else if cfg.requestmode = 1 then
        some (Function.update s i { s i with curindex := some j })
      else some s)
      (dcwFound cfg er s i j) := by
  unfold dcwFound
  by_cases begins : (s i).pidindex = none ∧ er.caid ≠ 0
  · rw [if_pos begins, if_neg (not_not.mpr begins.1), if_neg begins.2]
    by_cases mode : cfg.requestmode = 1
    · rw [if_pos mode, if_pos mode]
      have chosen : (s i).Chosen { s i with curindex := some j } :=
        ⟨⟨rfl, rfl, rfl, fun _ => .refl _⟩, fun _ => rfl,
          .inr ⟨j, rfl, used⟩⟩
      exact .inr ⟨_, chosen, .inr ⟨rfl, rfl⟩⟩
    · rw [if_neg mode, if_neg mode]
      exact .start cfg s i
  · rw [if_neg begins]
    exact .inl rfl

theorem dcwNotFound_does (cfg : Cfg) (s : State) (i : Fin maxDemux)
    {j : Fin ecmPids} (used : (s i).InUse j) :
    DcwDoes cfg s i
      (if (s i).pidindex ≠ none then none
      else if cfg.requestmode = 1 then none
      else
        match checkPrioMatch cfg (s i) (s i).curindex .prefer with
        | some entry => if 0 < entry.force then some s else none
        | none => none)
      (dcwNotFound cfg s i) := by
  have tried := chosen_tryNextCaid cfg (s i)
  unfold dcwNotFound
  dsimp only
  by_cases free : (s i).pidindex = none
  · rw [if_pos free, if_neg (not_not.mpr free)]
    by_cases mode : cfg.requestmode = 1
    · rw [if_pos mode, if_pos mode]
      exact .inl rfl
    · rw [if_neg mode, if_neg mode]
      cases checkPrioMatch cfg (s i) (s i).curindex .prefer with
      | some entry =>
          dsimp only
          by_cases forced : 0 < entry.force
          · rw [if_pos forced, if_pos forced]
            exact .start cfg s i
          · rw [if_neg forced, if_neg forced]
            exact .inr ⟨_, tried, .inl rfl⟩
      | none => exact .inr ⟨_, tried, .inl rfl⟩
  · have again : (s i).Chosen
        { s i with tries := 0, curindex := some 0, pidindex := none } :=
      ⟨⟨rfl, rfl, rfl, fun _ => .refl _⟩, fun _ => rfl,
        .inr ⟨0, rfl, Nat.zero_lt_of_lt used⟩⟩
    have more : (s i).Chosen { s i with tries := (s i).tries + 1 } :=
      ⟨⟨rfl, rfl, rfl, fun _ => .refl _⟩, fun _ => rfl, .inl rfl⟩
    rw [if_neg free]
    refine .inr ?_
    split
    · exact ⟨_, again.trans (chosen_tryNextCaid cfg _), .inl rfl⟩
    · exact ⟨_, more, .inl rfl⟩

/-- A turn, and the entry that it is about if anything changes. -/
theorem dcwTurn_cases (cfg : Cfg) (er : Dcw) (s : State) (i : Fin maxDemux) :
    dcwTurn cfg er s i = s ∨
      (∃ j, (s i).InUse j) ∧
        DcwDoes cfg s i (dcwStart cfg er s i) (dcwTurn cfg er s i) := by
  unfold dcwTurn dcwStart
  by_cases program : (s i).programNumber ≠ er.srvid
  · rw [if_pos program]
    exact .inl rfl
  rw [if_neg program, if_neg program]
  cases entry : (s i).entryOf er with
  | none => exact .inl rfl
  | some j =>
      have used : (s i).InUse j := by
        have all := List.find?_some entry
        simp only [Bool.and_eq_true, decide_eq_true_eq] at all
        exact all.1.1
      refine .inr ⟨⟨j, used⟩, ?_⟩
      dsimp only
      by_cases found : er.found = true
      · rw [if_pos found, if_pos found]
        exact dcwFound_does cfg er s i used
      · rw [if_neg found, if_neg found]
        by_cases chids : er.chidsLeft = true
        · rw [if_pos chids]
          exact .inl rfl
        · rw [if_neg chids]
          have same : (er.chidsLeft = true ∨ cfg.requestmode = 1) =
              (cfg.requestmode = 1) := by simp [chids]
          simp only [same]
          exact dcwNotFound_does cfg s i used

theorem dcwTurn_of_ne {cfg : Cfg} {er : Dcw} {i k : Fin maxDemux}
    (other : k ≠ i) (s : State) : dcwTurn cfg er s i k = s k := by
  rcases dcwTurn_cases cfg er s i with
    same | ⟨_used, same | ⟨d, _chosen, turn | ⟨_start, turn⟩⟩⟩
  · rw [same]
  · rw [same]
  · rw [turn, Function.update_of_ne other]
  · rw [turn, startDescrambling_of_ne other, Function.update_of_ne other]

theorem kept_dcwTurn (cfg : Cfg) (er : Dcw) (s : State) (i : Fin maxDemux) :
    (s i).Kept (dcwTurn cfg er s i i) := by
  rcases dcwTurn_cases cfg er s i with
    same | ⟨_used, same | ⟨d, chosen, turn | ⟨_start, turn⟩⟩⟩
  · rw [same]
    exact .refl _
  · rw [same]
    exact .refl _
  · rw [turn, Function.update_self]
    exact chosen.toKept
  · rw [turn]
    have started :=
      kept_startDescrambling cfg (Function.update s i d) i
    rw [Function.update_self] at started
    exact chosen.toKept.trans started

/-- Without an entry nothing happens. -/
theorem dcwTurn_of_unused {cfg : Cfg} {er : Dcw} {s : State}
    {i : Fin maxDemux} (none : (s i).ecmPidCount = 0) :
    dcwTurn cfg er s i = s := by
  rcases dcwTurn_cases cfg er s i with same | ⟨⟨j, used⟩, _does⟩
  · exact same
  · unfold Demux.InUse at used
    omega

/-! ## Messages -/

/-- What the search for the demux of a connection makes of each demux. -/
def Demux.found (management : UInt8) (connfd : Int) (d : Demux) : Demux :=
  if connfd > 0 ∧ d.socketFd = connfd then
    if management = 0x05 then d.restart
    else if (management = 0x03 ∨ management = 0x01) ∧ d.programNumber ≠ 0 then
      .cleared
    else d
  else d

theorem found_found (management : UInt8) (connfd : Int) (d : Demux) :
    (d.found management connfd).found management connfd =
      d.found management connfd := by
  by_cases matched : connfd > 0 ∧ d.socketFd = connfd
  · by_cases update : management = 0x05
    · have restarted : d.found management connfd = d.restart := by
        rw [Demux.found, if_pos matched, if_pos update]
      have matchedToo : connfd > 0 ∧ d.restart.socketFd = connfd := matched
      rw [restarted, Demux.found, if_pos matchedToo, if_pos update]
      rfl
    · by_cases stopped :
          (management = 0x03 ∨ management = 0x01) ∧ d.programNumber ≠ 0
      · have cleared : d.found management connfd = .cleared := by
          rw [Demux.found, if_pos matched, if_neg update, if_pos stopped]
        have other : ¬ (connfd > 0 ∧ Demux.cleared.socketFd = connfd) := by
          rintro ⟨positive, same⟩
          have zero : (0 : Int) = connfd := same
          omega
        rw [cleared, Demux.found, if_neg other]
      · have same : d.found management connfd = d := by
          rw [Demux.found, if_pos matched, if_neg update, if_neg stopped]
        rw [same, same]
  · have same : d.found management connfd = d := by
      rw [Demux.found, if_neg matched]
    rw [same, same]

theorem stopDescrambling_eq (s : State) (i : Fin maxDemux) :
    stopDescrambling s i =
      Function.update s i
        (if (s i).programNumber ≠ 0 then .cleared else s i) := by
  unfold stopDescrambling
  by_cases none : (s i).programNumber = 0
  · rw [if_pos none, if_neg (not_not.mpr none), Function.update_eq_self]
  · rw [if_neg none, if_pos none]

theorem findTurn_fst (management : UInt8) (connfd : Int)
    (found : State × Option (Fin maxDemux)) (i : Fin maxDemux) :
    (findTurn management connfd found i).1 =
      Function.update found.1 i ((found.1 i).found management connfd) := by
  obtain ⟨s, demuxId⟩ := found
  unfold findTurn Demux.found
  dsimp only
  by_cases matched : connfd > 0 ∧ (s i).socketFd = connfd
  · rw [if_pos matched, if_pos matched]
    by_cases update : management = 0x05
    · rw [if_pos update, if_pos update]
    · rw [if_neg update, if_neg update]
      by_cases stopped : management = 0x03 ∨ management = 0x01
      · rw [if_pos stopped]
        simp only [stopped, true_and]
        exact stopDescrambling_eq s i
      · have other : ¬ ((management = 0x03 ∨ management = 0x01) ∧
            (s i).programNumber ≠ 0) := fun both => stopped both.1
        rw [if_neg stopped, if_neg other, Function.update_eq_self]
        split <;> rfl
  · rw [if_neg matched, if_neg matched, Function.update_eq_self]

theorem findDemux_fst (management : UInt8) (connfd : Int) (s : State)
    (j : Fin maxDemux) :
    (findDemux management connfd s).1 j = (s j).found management connfd := by
  have turns (items : List (Fin maxDemux))
      (found : State × Option (Fin maxDemux)) :
      (items.foldl (findTurn management connfd) found).1 j =
        if j ∈ items then (found.1 j).found management connfd
        else found.1 j := by
    induction items generalizing found with
    | nil => rfl
    | cons i rest induction =>
        rw [List.foldl_cons, induction, findTurn_fst]
        by_cases here : j = i
        · subst here
          rw [if_pos List.mem_cons_self, Function.update_self, found_found]
          exact ite_self _
        · rw [Function.update_of_ne here]
          simp only [List.mem_cons, here, false_or]
  exact (turns (List.finRange maxDemux) (s, none)).trans
    (if_pos (List.mem_finRange j))

/-- The demuxes when the pids of a message are known, and the one that they are
of. -/
def knownPids (cfg : Cfg) (m : Memory) (base length : Nat) (connfd : Int)
    (s : State) : State × Option (Fin maxDemux) :=
  match findDemux (m base) connfd s with
  | (s, none) => (s, none)
  | (s, some i) =>
      let d := (s i).program m base (demuxDevice cfg m base i) connfd
      (Function.update s i (addPids m base length d), some i)

theorem parseCapmt_eq (cfg : Cfg) (m : Memory) (base length : Nat)
    (connfd : Int) (s : State) :
    parseCapmt cfg m base length connfd s =
      match knownPids cfg m base length connfd s with
      | (known, none) => known
      | (known, some i) => afterPids cfg (m base) known i := by
  rw [parseCapmt, knownPids]
  rcases findDemux (m base) connfd s with ⟨found, _ | i⟩
  · rfl
  · rfl

theorem afterPids_of_ne {cfg : Cfg} {i k : Fin maxDemux} (other : k ≠ i)
    (management : UInt8) (s : State) :
    afterPids cfg management s i k = s k := by
  unfold afterPids
  split_ifs
  · exact Function.update_of_ne other ..
  · exact startDescrambling_of_ne other s
  · exact Function.update_of_ne other ..
  · rfl

theorem kept_afterPids (cfg : Cfg) (management : UInt8) (s : State)
    (i : Fin maxDemux) : (s i).Kept (afterPids cfg management s i i) := by
  have tried : (s i).Kept (Function.update s i
      (tryNextCaid cfg (resortEcmpids cfg (s i))) i) := by
    rw [Function.update_self]
    exact ((chosen_resortEcmpids cfg (s i)).trans
      (chosen_tryNextCaid cfg _)).toKept
  unfold afterPids
  split_ifs
  · exact tried
  · exact kept_startDescrambling cfg s i
  · exact tried
  · exact .refl _

end Oscam.Dvbapi
