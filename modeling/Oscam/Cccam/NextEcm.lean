import Oscam.Cccam.CardChoice
import Oscam.Lib.FirstGreatest

/-!
# The request that goes next

`cc_get_nxt_ecm` drops timeouts, answers loops and looks for the waiting
request to send next, all in one pass over the table of the tasks.
-/

namespace Oscam.Cccam

/-! ## The pass over the table -/

/-- The table of the tasks in memory: the address of the first `ecmd5` and the
size of a task. -/
structure TaskTable where
  first : Nat
  size : Nat
  size_pos : 0 < size

/-- `er->ecmd5` is an array, which compares by its address. -/
def TaskTable.ecmd5 (table : TaskTable) (i : Nat) : Nat :=
  table.first + i * table.size

/-- The variables of `cc_get_nxt_ecm`. -/
structure Scan where
  ecmtask : List Task
  pending : Nat
  answers : List EcmRequest
  n : Option (Nat × Task)

namespace Scan

/-- The check for the same request already pending. -/
def found (table : TaskTable) (scan : Scan) (i : Nat) (er : Task) : Bool :=
  scan.ecmtask.zipIdx.any fun (erx, j) =>
    i ≠ j ∧ erx.rc = 101 ∧ er.caid = erx.caid ∧ table.ecmd5 i = table.ecmd5 j

/-- `n < 0 || (ern->tps.time - er->tps.time < 0)`. -/
def goesFirst (scan : Scan) (er : Task) : Bool :=
  match scan.n with
  | none => true
  | some (_, ern) => ern.tps.time - er.tps.time < 0

/-- A task that waits and is in no loop. -/
def pick (table : TaskTable) (extendedMode : Bool) (scan : Scan) (i : Nat)
    (er : Task) : Scan :=
  if scan.goesFirst er then
    if extendedMode ∧ scan.found table i er then scan
    else { scan with n := some (i, er) }
  else scan

/-- The turn of the loop for slot `i`. -/
def turn (table : TaskTable) (env : SendEnv) (now : Int) (conn : Conn)
    (scan : Scan) (i : Nat) : Scan :=
  match scan.ecmtask[i]? with
  | none => scan
  | some er =>
      if TimedOut env now er then -- drop timeouts
        { scan with ecmtask := scan.ecmtask.set i (er.withRc 0) }
      else if er.Waits then
        let scan := { scan with pending := scan.pending + 1 }
        if loopCheck env conn.peerNodeId er.client then
          let er := er.answered env e2CccamLoop
          { scan with
            ecmtask := scan.ecmtask.set i er
            answers := scan.answers ++ [er.toEcmRequest] }
        else scan.pick table conn.extendedMode i er
      else scan

end Scan

/-- The whole pass. -/
def scanTasks (table : TaskTable) (env : SendEnv) (now : Int) (conn : Conn)
    (answers : List EcmRequest) : Scan :=
  (List.range conn.ecmtask.length).foldl (Scan.turn table env now conn)
    { ecmtask := conn.ecmtask, pending := 0, answers := answers, n := none }

/-- `cc_get_nxt_ecm`, slot by slot; `none` is its -1. -/
def getNxtEcm (table : TaskTable) (env : SendEnv) (now : Int) (st : Call) :
    Call × Option (Nat × Task) :=
  let scan := scanTasks table env now st.conn st.answers
  ({ st with
      conn :=
        { st.conn with ecmtask := scan.ecmtask, pending := scan.pending }
      answers := scan.answers },
    scan.n)

/-! ## What the pass computes -/

variable {table : TaskTable} {env : SendEnv} {now : Int} {conn : Conn}
  {answers : List EcmRequest} {tasks : List Task} {task er : Task} {i n : Nat}

theorem TaskTable.ecmd5_inj {j : Nat}
    (same : table.ecmd5 i = table.ecmd5 j) : i = j := by
  unfold ecmd5 at same
  exact Nat.eq_of_mul_eq_mul_right table.size_pos (by omega)

/-- Two slots have different addresses, so nothing is found. -/
theorem Scan.found_eq_false (table : TaskTable) (scan : Scan) (i : Nat)
    (er : Task) : scan.found table i er = false := by
  unfold found
  rw [List.any_eq_false]
  intro entry _member
  rw [decide_eq_true_iff]
  rintro ⟨other, _, _, same⟩
  exact other (TaskTable.ecmd5_inj same)

theorem nextOf_concat (tasks : List Task) (er : Task) :
    nextOf (tasks ++ [er]) = next (nextOf tasks) (er, tasks.length) := by
  simp [nextOf, List.zipIdx_append]

theorem next_idle (best : Option (Nat × Task)) (i : Nat)
    (idle : ¬ er.Waits) : next best (er, i) = best :=
  if_neg idle

/-- The variables after the slots of `front`. -/
def scanned (env : SendEnv) (now : Int) (myid : List UInt8)
    (answers : List EcmRequest) (front behind : List Task) : Scan :=
  { ecmtask := front.map (refresh env myid now) ++ behind
    pending :=
      (front.filter fun task => ¬ TimedOut env now task ∧ task.Waits).length
    answers := answers ++ loopAnswers env myid now front
    n := nextOf (front.map (refresh env myid now)) }

theorem pick_eq (table : TaskTable) (extendedMode : Bool) (scan : Scan)
    (i : Nat) (waits : er.Waits) :
    scan.pick table extendedMode i er =
      { scan with n := next scan.n (er, i) } := by
  unfold Scan.pick Scan.goesFirst next
  rw [Scan.found_eq_false, if_pos waits]
  cases best : scan.n with
  | none => simp
  | some other =>
      by_cases later : other.2.tps.time - er.tps.time < 0
      · simp [later]
      · simp [later, ← best]

/-- One turn of the loop looks at one slot. -/
theorem turn_scanned (table : TaskTable) (env : SendEnv) (now : Int)
    (conn : Conn) (answers : List EcmRequest) (front : List Task) (er : Task)
    (behind : List Task) :
    (scanned env now conn.peerNodeId answers front (er :: behind)).turn table
        env now conn front.length =
      scanned env now conn.peerNodeId answers (front ++ [er]) behind := by
  have length : (front.map (refresh env conn.peerNodeId now)).length =
      front.length := List.length_map _
  have slot : (scanned env now conn.peerNodeId answers front
      (er :: behind)).ecmtask[front.length]? = some er := by
    rw [← length]
    exact List.getElem?_append_right (Nat.le_refl _) |>.trans (by simp)
  have put : ∀ er', (scanned env now conn.peerNodeId answers front
      (er :: behind)).ecmtask.set front.length er' =
        front.map (refresh env conn.peerNodeId now) ++ er' :: behind := by
    intro er'
    rw [← length]
    exact List.set_append_right _ _ (Nat.le_refl _) |>.trans (by simp)
  have last := nextOf_concat (front.map (refresh env conn.peerNodeId now))
    (refresh env conn.peerNodeId now er)
  rw [length] at last
  unfold Scan.turn
  rw [slot]
  dsimp only
  by_cases late : TimedOut env now er
  · have dropped : refresh env conn.peerNodeId now er = er.withRc 0 :=
      refresh_late late
    rw [if_pos late, put]
    rw [dropped, next_idle _ _ (withRc_zero_idle er)] at last
    simp [scanned, loopAnswers, late, dropped, last]
  · rw [if_neg late]
    by_cases waits : er.Waits
    · rw [if_pos waits]
      by_cases loop : loopCheck env conn.peerNodeId er.client = true
      · have answered : refresh env conn.peerNodeId now er =
            er.answered env e2CccamLoop := refresh_loop late ⟨waits, loop⟩
        rw [if_pos loop, put]
        rw [answered, next_idle _ _ (answered_idle env _ er)] at last
        simp [scanned, loopAnswers, late, waits, loop, answered, last]
      · have same : refresh env conn.peerNodeId now er = er :=
          refresh_stay late fun both => loop both.2
        rw [if_neg loop, pick_eq table _ _ _ waits]
        rw [same] at last
        simp [scanned, loopAnswers, late, waits, loop, same, last]
    · have same : refresh env conn.peerNodeId now er = er :=
        refresh_stay late fun both => waits both.1
      rw [if_neg waits]
      rw [same, next_idle _ _ waits] at last
      simp [scanned, loopAnswers, waits, same, last]

theorem scanTasks_eq (table : TaskTable) (env : SendEnv) (now : Int)
    (conn : Conn) (answers : List EcmRequest) :
    scanTasks table env now conn answers =
      scanned env now conn.peerNodeId answers conn.ecmtask [] := by
  have run : ∀ behind front : List Task,
      (List.range' front.length behind.length).foldl
          (Scan.turn table env now conn)
          (scanned env now conn.peerNodeId answers front behind) =
        scanned env now conn.peerNodeId answers (front ++ behind) [] := by
    intro behind
    induction behind with
    | nil =>
        intro front
        simp
    | cons er behind induction =>
        intro front
        have rest := induction (front ++ [er])
        rw [List.length_append, List.length_singleton, List.append_assoc,
          List.singleton_append] at rest
        rw [List.length_cons, List.range'_succ, List.foldl_cons,
          turn_scanned]
        exact rest
  have start : scanned env now conn.peerNodeId answers [] conn.ecmtask =
      { ecmtask := conn.ecmtask, pending := 0, answers := answers
        n := none } := by
    simp [scanned, loopAnswers, nextOf]
  rw [scanTasks, ← start, List.range_eq_range']
  exact run conn.ecmtask []

/-- The pass looks at the whole table at once and at the times that remain. -/
theorem getNxtEcm_eq (table : TaskTable) (env : SendEnv) (now : Int)
    (st : Call) : getNxtEcm table env now st = st.getNxtEcm env now := by
  rw [getNxtEcm, scanTasks_eq]
  simp [scanned, Call.getNxtEcm, Conn.looked]

/-! ## The task it finds -/

/-- A request that waits, in time and in no loop. -/
structure Eligible (env : SendEnv) (now : Int) (conn : Conn) (task : Task) :
    Prop where
  waits : task.Waits
  inTime : ¬ TimedOut env now task
  noLoop : loopCheck env conn.peerNodeId task.client = false

/-- In extended mode the request is not among those that are sent. -/
def Unsent (conn : Conn) (sent : List Task) (task : Task) : Prop :=
  conn.extendedMode = true → ∀ erx ∈ sent, erx.rc = 101 →
    ¬ (task.caid = erx.caid ∧ task.ecmd5 = erx.ecmd5)

/-- What `cc_get_nxt_ecm` should find: nothing, or a request that has waited
longest of those that are not sent. -/
def FindsEarliest (env : SendEnv) (now : Int) (conn : Conn)
    (sent : List Task) (result : Option (Nat × Task)) : Prop :=
  ∀ n task, result = some (n, task) →
    conn.ecmtask[n]? = some task ∧ Eligible env now conn task ∧
      Unsent conn sent task ∧
      ∀ other ∈ conn.ecmtask, Eligible env now conn other →
        Unsent conn sent other → task.tps.time ≤ other.tps.time

/-- The scan finds the first task of the latest time. -/
theorem nextOf_first (tasks : List Task) :
    match nextOf tasks with
    | none => ∀ task ∈ tasks, ¬ task.Waits
    | some (n, task) =>
        FirstGreatest (fun task => task.tps.time) Task.Waits tasks n task := by
  induction tasks using List.reverseRecOn with
  | nil =>
      intro task none
      cases none
  | append_singleton tasks er induction =>
      rw [nextOf_concat]
      by_cases waits : er.Waits
      · cases best : nextOf tasks with
        | none =>
            rw [best] at induction
            have taken : next none (er, tasks.length) =
                some (tasks.length, er) := if_pos waits
            rw [taken]
            exact .concat_greater waits fun task here member =>
              absurd member (induction task here)
        | some other =>
            obtain ⟨n, ern⟩ := other
            rw [best] at induction
            by_cases later : ern.tps.time - er.tps.time < 0
            · have taken : next (some (n, ern)) (er, tasks.length) =
                  some (tasks.length, er) :=
                (if_pos waits).trans (if_pos later)
              rw [taken]
              refine .concat_greater waits fun task here member => ?_
              have low := induction.le here member
              omega
            · have kept : next (some (n, ern)) (er, tasks.length) =
                  some (n, ern) := (if_pos waits).trans (if_neg later)
              rw [kept]
              exact induction.concat fun _ => by omega
      · rw [next_idle _ _ waits]
        cases best : nextOf tasks with
        | none =>
            rw [best] at induction
            intro task member
            rcases List.mem_append.mp member with here | last
            · exact induction task here
            · rw [List.mem_singleton.mp last]
              exact waits
        | some other =>
            rw [best] at induction
            exact induction.concat fun member => absurd member waits

theorem eligible_iff :
    (refresh env conn.peerNodeId now task).Waits ↔
      Eligible env now conn task := by
  constructor
  · intro waits
    have same := refresh_waits waits
    have inTime : ¬ TimedOut env now task := by
      intro late
      rw [refresh_late late] at waits
      exact withRc_zero_idle task waits
    refine ⟨same ▸ waits, inTime, ?_⟩
    by_contra loop
    rw [refresh_loop inTime ⟨same ▸ waits, eq_true_of_ne_false loop⟩] at waits
    exact answered_idle env e2CccamLoop task waits
  · rintro ⟨waits, inTime, noLoop⟩
    have same : refresh env conn.peerNodeId now task = task :=
      refresh_stay inTime fun both => by simp [noLoop] at both
    rwa [same]

/-- `cc_get_nxt_ecm` finds the first of the requests that came last. -/
theorem getNxtEcm_eq_some (table : TaskTable) (env : SendEnv) (now : Int)
    (st : Call) :
    (getNxtEcm table env now st).2 = some (n, task) ↔
      FirstGreatest (fun task => task.tps.time) (Eligible env now st.conn)
        st.conn.ecmtask n task := by
  rw [← FirstGreatest.map_iff (fun task _ => eligible_iff)
    fun task _ eligible => refresh_waits (eligible_iff.mpr eligible)]
  have found := nextOf_first (st.conn.looked env now).ecmtask
  rw [getNxtEcm_eq]
  show nextOf (st.conn.looked env now).ecmtask = some (n, task) ↔ _
  constructor
  · intro same
    rw [same] at found
    exact found
  · intro first
    cases best : nextOf (st.conn.looked env now).ecmtask with
    | none =>
        rw [best] at found
        exact absurd first.member
          (found task (List.mem_of_getElem? first.entry))
    | some other =>
        rw [best] at found
        obtain ⟨rfl, rfl⟩ := found.unique first
        rfl

/-- `cc_get_nxt_ecm` finds what it should if and only if the first of the
requests that came last is not sent, and all that are not sent came in the
same second.  The requests that are sent may be those of the table before or
after the call. -/
theorem getNxtEcm_earliest_iff (table : TaskTable) (env : SendEnv)
    (now : Int) (st : Call) (sent : List Task) :
    FindsEarliest env now st.conn sent (getNxtEcm table env now st).2 ↔
      ∀ n task,
        FirstGreatest (fun task => task.tps.time) (Eligible env now st.conn)
          st.conn.ecmtask n task →
        Unsent st.conn sent task ∧
          ∀ other ∈ st.conn.ecmtask, Eligible env now st.conn other →
            Unsent st.conn sent other →
              other.tps.time = task.tps.time := by
  refine forall₂_congr fun n task => ?_
  rw [getNxtEcm_eq_some]
  constructor
  · intro finds first
    obtain ⟨_, _, unsent, least⟩ := finds first
    refine ⟨unsent, fun other here eligible free => ?_⟩
    exact le_antisymm (first.le here eligible)
      (least other here eligible free)
  · intro alike first
    obtain ⟨unsent, same⟩ := alike first
    refine ⟨first.entry, first.member, unsent, ?_⟩
    intro other here eligible free
    exact le_of_eq (same other here eligible free).symm

/-- Two requests, the second of which came a second later. -/
def twoSeconds : Conn :=
  { twoSystems with extendedMode := false }

/-- A request that waits while the same one is sent already. -/
def sentTwice : Conn :=
  { twoSystems with
    ecmtask := [(plainTask 0 0x500 100).withRc 101, plainTask 1 0x500 101] }

def someTable : TaskTable :=
  { first := 528, size := 1024, size_pos := by decide }

/-- The later request goes first, and a request goes although it is on its
way already. -/
theorem later_goes_first :
    ¬ FindsEarliest plainEnv 102 twoSeconds []
        (getNxtEcm someTable plainEnv 102
          { conn := twoSeconds, sent := [], answers := [] }).2 ∧
      ¬ FindsEarliest plainEnv 102 sentTwice sentTwice.ecmtask
        (getNxtEcm someTable plainEnv 102
          { conn := sentTwice, sent := [], answers := [] }).2 := by
  constructor
  · intro finds
    obtain ⟨_, _, _, least⟩ := finds 1 (plainTask 1 0x100 101) (by decide)
    have earlier := least (plainTask 0 0x500 100) (by decide)
      ⟨by decide, by decide, by decide⟩ (by intro never; cases never)
    exact absurd earlier (by decide)
  · intro finds
    obtain ⟨_, _, unsent, _⟩ := finds 1 (plainTask 1 0x500 101) (by decide)
    exact unsent rfl ((plainTask 0 0x500 100).withRc 101) (by decide) rfl
      ⟨rfl, rfl⟩

end Oscam.Cccam
