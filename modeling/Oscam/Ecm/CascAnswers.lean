import Oscam.Ecm.Tags

/-!
# Answers for all tasks of an ECM

The loop of `casc_check_dcw` compares every task with the one that the server
has answered.  `write_ecm_answer` restores the caid of the client in the task
that it answers, and from the turn of the answered task on the comparison is
made with that caid.
-/

namespace Oscam

namespace Server

variable {cfg : Config} {r : ReaderId} {idx i : Nat} {rc : Int} {cw : Cw}
  {s : Server}

/-- What the turn for slot `i` hands to `write_ecm_answer`. -/
def slotAnswer (r : ReaderId) (idx : Nat) (rc : Int) (cw : Cw) (s : Server)
    (i : Nat) : Option EcmRequest :=
  match (s.readers r).ecmtask[i]?, (s.readers r).ecmtask[idx]? with
  | some ecm, some asked =>
      if sameTask asked ecm then some (cascAnswered i idx rc cw ecm) else none
  | _, _ => none

/-- What the turns for these slots hand to `write_ecm_answer`, each with its
slot. -/
def cascAnswers (cfg : Config) (r : ReaderId) (idx : Nat) (rc : Int)
    (cw : Cw) : Server → List Nat → List (Nat × EcmRequest)
  | _, [] => []
  | s, i :: slots =>
      ((slotAnswer r idx rc cw s i).map (Prod.mk i)).toList ++
        cascAnswers cfg r idx rc cw (cascCheckSlot cfg r idx rc cw s i) slots

/-! ## One turn -/

/-- A turn with an answer writes this answer. -/
theorem cascCheckSlot_of_answer {er : EcmRequest}
    (answer : slotAnswer r idx rc cw s i = some er) :
    cascCheckSlot cfg r idx rc cw s i =
      (s.answerTask r er).setTask r i
        (dropTimeout cfg s.now (answerOf r (s.readers r) er)) := by
  unfold slotAnswer at answer
  unfold cascCheckSlot
  cases found : (s.readers r).ecmtask[i]? with
  | none => simp [found] at answer
  | some ecm =>
      cases other : (s.readers r).ecmtask[idx]? with
      | none => simp [found, other] at answer
      | some asked =>
          by_cases same : sameTask asked ecm = true
          · simp only [found, other, if_pos same] at answer
            cases answer
            simp only [if_pos same]
          · simp only [found, other, if_neg same] at answer
            cases answer

/-- A turn without an answer changes no more than the task of its slot. -/
theorem cascCheckSlot_silent (cfg : Config)
    (silent : slotAnswer r idx rc cw s i = none) :
    cascCheckSlot cfg r idx rc cw s i = s ∨
      ∃ er, cascCheckSlot cfg r idx rc cw s i = s.setTask r i er := by
  unfold slotAnswer at silent
  unfold cascCheckSlot
  cases found : (s.readers r).ecmtask[i]? with
  | none => exact .inl rfl
  | some ecm =>
      cases other : (s.readers r).ecmtask[idx]? with
      | none => exact .inl rfl
      | some asked =>
          by_cases same : sameTask asked ecm = true
          · simp only [found, other, if_pos same] at silent
            cases silent
          · right
            exact ⟨_, if_neg same⟩

/-! ## The task table along the loop -/

theorem dropTimeout_caid (now : Nat) (er : EcmRequest) :
    (dropTimeout cfg now er).caid = er.caid := by
  unfold dropTimeout
  split <;> rfl

theorem cascAnswered_frame (i idx : Nat) (rc : Int) (cw : Cw)
    (er : EcmRequest) :
    (cascAnswered i idx rc cw er).ocaid = er.ocaid ∧
      (cascAnswered i idx rc cw er).ecmd5 = er.ecmd5 := by
  unfold cascAnswered
  split <;> exact ⟨rfl, rfl⟩

/-- The readers do not notice that an answer is written. -/
theorem readers_answerTask (er : EcmRequest) :
    (s.answerTask r er).readers = s.readers := by
  rw [answerTask, writeEcmAnswer_eq]
  rfl

/-- The task that a turn leaves in its slot. -/
def taskLeft (cfg : Config) (r : ReaderId) (idx : Nat) (rc : Int) (cw : Cw)
    (s : Server) (i : Nat) (asked ecm : EcmRequest) : EcmRequest :=
  if sameTask asked ecm then
    dropTimeout cfg s.now
      (answerOf r (s.readers r) (cascAnswered i idx rc cw ecm))
  else dropTimeout cfg s.now ecm

theorem ecmtask_cascCheckSlot (cfg : Config) (rc : Int) (cw : Cw)
    {ecm asked : EcmRequest}
    (found : (s.readers r).ecmtask[i]? = some ecm)
    (other : (s.readers r).ecmtask[idx]? = some asked) :
    ((cascCheckSlot cfg r idx rc cw s i).readers r).ecmtask =
      (s.readers r).ecmtask.set i
        (taskLeft cfg r idx rc cw s i asked ecm) := by
  unfold cascCheckSlot taskLeft
  simp only [found, other]
  split
  · simp [setTask, readers_answerTask]
  · simp [setTask]

/-- The fields of the answered task that the comparisons read, before the
turn for slot `i`. -/
def comparedWith (idx i : Nat) (asked : EcmRequest) : EcmRequest :=
  if idx < i ∧ taskPending ≤ asked.rc then { asked with caid := asked.ocaid }
  else asked

/-- Before the turn for slot `i` the slots from there on are as they were at
the call, and the answered task has at most changed its caid. -/
structure Turned (r : ReaderId) (idx : Nat) (start : Server) (i : Nat)
    (s : Server) : Prop where
  ahead : ∀ j, i ≤ j →
    (s.readers r).ecmtask[j]? = (start.readers r).ecmtask[j]?
  asked : ∀ asked, (start.readers r).ecmtask[idx]? = some asked →
    ∃ task, (s.readers r).ecmtask[idx]? = some task ∧
      task.caid = (comparedWith idx i asked).caid ∧
      task.ecmd5 = asked.ecmd5
  missing : (start.readers r).ecmtask[idx]? = none →
    (s.readers r).ecmtask[idx]? = none

theorem Turned.start : Turned r idx s 0 s := by
  constructor
  · exact fun _ _ => rfl
  · intro asked found
    exact ⟨asked, found, by simp [comparedWith], rfl⟩
  · exact id

theorem sameTask_congr {er er' task : EcmRequest} (caid : er.caid = er'.caid)
    (ecmd5 : er.ecmd5 = er'.ecmd5) : sameTask er task = sameTask er' task := by
  simp only [sameTask, caid, ecmd5]

theorem comparedWith_ecmd5 (asked : EcmRequest) :
    (comparedWith idx i asked).ecmd5 = asked.ecmd5 := by
  unfold comparedWith
  split <;> rfl

/-- What the turn answers, from the table at the call. -/
theorem Turned.slotAnswer_iff {start : Server}
    (turned : Turned r idx start i s) {er : EcmRequest} :
    slotAnswer r idx rc cw s i = some er ↔
      ∃ ecm asked, (start.readers r).ecmtask[i]? = some ecm ∧
        (start.readers r).ecmtask[idx]? = some asked ∧
        sameTask (comparedWith idx i asked) ecm = true ∧
        er = cascAnswered i idx rc cw ecm := by
  have here := turned.ahead i le_rfl
  cases other : (start.readers r).ecmtask[idx]? with
  | none =>
      simp [slotAnswer, turned.missing other]
  | some asked =>
      obtain ⟨task, now, caid, ecmd5⟩ := turned.asked asked other
      cases found : (start.readers r).ecmtask[i]? with
      | none => simp [slotAnswer, here.trans found]
      | some ecm =>
          have same : sameTask task ecm =
              sameTask (comparedWith idx i asked) ecm :=
            sameTask_congr caid (ecmd5.trans (comparedWith_ecmd5 asked).symm)
          simp only [slotAnswer, here.trans found, now, same,
            Option.ite_none_right_eq_some, Option.some.injEq]
          constructor
          · rintro ⟨compared, rfl⟩
            exact ⟨ecm, asked, rfl, rfl, compared, rfl⟩
          · rintro ⟨_, _, rfl, rfl, compared, rfl⟩
            exact ⟨compared, rfl⟩

theorem cascCheckSlot_of_missing
    (missing : (s.readers r).ecmtask[i]? = none ∨
      (s.readers r).ecmtask[idx]? = none) :
    cascCheckSlot cfg r idx rc cw s i = s := by
  unfold cascCheckSlot
  rcases missing with none | none <;> simp [none]

theorem comparedWith_later {asked task : EcmRequest} (other : i ≠ idx)
    (now : task.caid = (comparedWith idx i asked).caid) :
    task.caid = (comparedWith idx (i + 1) asked).caid := by
  have same : idx < i + 1 ↔ idx < i := by omega
  simpa only [comparedWith, same] using now

/-- The turn of the answered task gives it the caid of the client, if it is
pending. -/
theorem taskLeft_self (asked : EcmRequest) :
    (taskLeft cfg r idx rc cw s idx asked asked).caid =
        (comparedWith idx (idx + 1) asked).caid ∧
      (taskLeft cfg r idx rc cw s idx asked asked).ecmd5 = asked.ecmd5 := by
  unfold taskLeft comparedWith
  by_cases pending : taskPending ≤ asked.rc
  · have same : sameTask asked asked = true := by simp [sameTask, pending]
    obtain ⟨ocaid, ecmd5⟩ := cascAnswered_frame idx idx rc cw asked
    simp only [same, if_true, dropTimeout_caid,
      (Tagged.dropTimeout_frame cfg s.now _).2.1,
      (Tagged.answerOf_frame r _ _).2.1, ecmd5,
      pending, Nat.lt_succ_self, and_self, and_true]
    exact ocaid
  · have different : sameTask asked asked = false := by
      simp [sameTask, pending]
    simp [different, pending, dropTimeout_caid,
      (Tagged.dropTimeout_frame cfg s.now asked).2.1]

/-- The step of the loop. -/
theorem Turned.next {start : Server} (turned : Turned r idx start i s) :
    Turned r idx start (i + 1) (cascCheckSlot cfg r idx rc cw s i) := by
  cases here : (s.readers r).ecmtask[i]? with
  | none =>
      rw [cascCheckSlot_of_missing (Or.inl here)]
      refine ⟨fun j le => turned.ahead j (by omega), ?_, turned.missing⟩
      intro asked found
      obtain ⟨task, now, caid, ecmd5⟩ := turned.asked asked found
      have other : i ≠ idx := by
        rintro rfl
        rw [here] at now
        cases now
      exact ⟨task, now, comparedWith_later other caid, ecmd5⟩
  | some ecm =>
      cases now : (s.readers r).ecmtask[idx]? with
      | none =>
          rw [cascCheckSlot_of_missing (Or.inr now)]
          refine ⟨fun j le => turned.ahead j (by omega), ?_, turned.missing⟩
          intro asked found
          obtain ⟨task, found, _⟩ := turned.asked asked found
          rw [now] at found
          cases found
      | some task =>
          have table := ecmtask_cascCheckSlot cfg rc cw here now
          constructor
          · intro j le
            rw [table, List.getElem?_set_ne (by omega)]
            exact turned.ahead j (by omega)
          · intro asked found
            rw [table]
            by_cases other : i = idx
            · subst other
              have same : ecm = asked := by
                have before := (turned.ahead i le_rfl).trans found
                exact Option.some.inj (here.symm.trans before)
              have both : task = ecm := Option.some.inj (now.symm.trans here)
              subst same both
              exact ⟨_, List.getElem?_set_self'.trans (by rw [here]; rfl),
                taskLeft_self task⟩
            · obtain ⟨old, found, caid, ecmd5⟩ := turned.asked asked found
              rw [List.getElem?_set_ne other]
              exact ⟨old, found, comparedWith_later other caid, ecmd5⟩
          · intro missing
            have none := turned.missing missing
            rw [now] at none
            cases none

/-! ## What a call answers -/

theorem mem_cascAnswers_iff {start : Server} (slots : Nat) {j : Nat}
    {er : EcmRequest} (turned : Turned r idx start i s) :
    (j, er) ∈ cascAnswers cfg r idx rc cw s (List.range' i slots) ↔
      i ≤ j ∧ j < i + slots ∧
        ∃ ecm asked, (start.readers r).ecmtask[j]? = some ecm ∧
          (start.readers r).ecmtask[idx]? = some asked ∧
          sameTask (comparedWith idx j asked) ecm = true ∧
          er = cascAnswered j idx rc cw ecm := by
  induction slots generalizing i s with
  | zero =>
      simp only [List.range'_zero, cascAnswers, List.not_mem_nil, false_iff]
      omega
  | succ slots induction =>
      have first : (j, er) ∈
          ((slotAnswer r idx rc cw s i).map (Prod.mk i)).toList ↔
            j = i ∧ slotAnswer r idx rc cw s i = some er := by
        rw [Option.mem_toList, Option.map_eq_some_iff]
        constructor
        · rintro ⟨answer, written, pair⟩
          cases pair
          exact ⟨rfl, written⟩
        · rintro ⟨rfl, written⟩
          exact ⟨er, written, rfl⟩
      rw [List.range'_succ, cascAnswers, List.mem_append, first,
        induction turned.next]
      constructor
      · intro member
        rcases member with ⟨rfl, written⟩ | ⟨le, lt, rest⟩
        · exact ⟨le_rfl, by omega, turned.slotAnswer_iff.mp written⟩
        · exact ⟨by omega, by omega, rest⟩
      · intro member
        obtain ⟨le, lt, rest⟩ := member
        rcases eq_or_lt_of_le le with here | later
        · subst here
          exact Or.inl ⟨rfl, turned.slotAnswer_iff.mpr rest⟩
        · exact Or.inr ⟨later, by omega, rest⟩

/-- A task is answered when it is pending, of the same ECM, and has the caid
of the answered task: the one at the call for the slots up to the answered
one, the caid of the client behind it. -/
theorem answered_iff {j : Nat} {er : EcmRequest} :
    (j, er) ∈ cascAnswers cfg r idx rc cw s (List.range csMaxpending) ↔
      j < csMaxpending ∧
        ∃ ecm asked, (s.readers r).ecmtask[j]? = some ecm ∧
          (s.readers r).ecmtask[idx]? = some asked ∧
          sameTask (comparedWith idx j asked) ecm = true ∧
          er = cascAnswered j idx rc cw ecm := by
  rw [List.range_eq_range', mem_cascAnswers_iff csMaxpending Turned.start]
  simp

/-! ## What the clients get -/

/-- The servers differ in the task tables of the readers and in what was
recorded, and in nothing that an answer of this reader depends on. -/
structure SameAnswering (r : ReaderId) (s s' : Server) : Prop where
  clientList : s.clientList = s'.clientList
  clients : s.clients = s'.clients
  cache : s.cache = s'.cache
  now : s.now = s'.now
  grp : (s.readers r).grp = (s'.readers r).grp
  dropbadcws : (s.readers r).dropbadcws = (s'.readers r).dropbadcws

namespace SameAnswering

variable {s' : Server}

theorem answerTask (same : SameAnswering r s s') (er : EcmRequest) :
    SameAnswering r (s.answerTask r er) (s'.answerTask r er) := by
  have answer : answerOf r (s.readers r) er =
      answerOf r (s'.readers r) er := by
    simp only [answerOf, same.dropbadcws]
  simp only [Server.answerTask, writeEcmAnswer_eq]
  simp only [recordAnswer, answer, same.clientList, same.clients, same.cache,
    same.now, same.grp]
  exact ⟨rfl, rfl, rfl, rfl, same.grp, same.dropbadcws⟩

theorem setTask (same : SameAnswering r s s') (er : EcmRequest) :
    SameAnswering r (s.setTask r i er) s' := by
  refine ⟨same.clientList, same.clients, same.cache, same.now, ?_, ?_⟩
  · simpa [Server.setTask] using same.grp
  · simpa [Server.setTask] using same.dropbadcws

/-- The loop writes its answers one after the other. -/
theorem cascAnswers (slots : List Nat) (same : SameAnswering r s s') :
    SameAnswering r (slots.foldl (cascCheckSlot cfg r idx rc cw) s)
      ((cascAnswers cfg r idx rc cw s slots).foldl
        (fun s answer => s.answerTask r answer.2) s') := by
  induction slots generalizing s s' with
  | nil => exact same
  | cons i slots induction =>
      rw [List.foldl_cons, Server.cascAnswers, List.foldl_append]
      apply induction
      cases answer : slotAnswer r idx rc cw s i with
      | none =>
          rcases cascCheckSlot_silent cfg answer with
            unchanged | ⟨er, changed⟩
          · rw [unchanged]
            exact same
          · rw [changed]
            exact same.setTask er
      | some er =>
          rw [cascCheckSlot_of_answer answer]
          exact (same.answerTask er).setTask _

end SameAnswering

/-- The clients get the answers of a call of `casc_check_dcw` in the order of
the slots. -/
theorem clients_cascCheckDcw :
    (s.cascCheckDcw cfg r idx rc cw).clients =
      ((cascAnswers cfg r idx rc cw s (List.range csMaxpending)).foldl
        (fun s answer => s.answerTask r answer.2) s).clients :=
  have same : SameAnswering r s s := ⟨rfl, rfl, rfl, rfl, rfl, rfl⟩
  (same.cascAnswers (List.range csMaxpending)).clients

/-! ## Duplicates -/

/-- Every pending task of the same caid and ECM gets the answer. -/
def EachDuplicateAnswered (cfg : Config) (r : ReaderId) (idx : Nat) (rc : Int)
    (cw : Cw) (s : Server) : Prop :=
  ∀ asked ∈ (s.readers r).ecmtask[idx]?, ∀ i < csMaxpending,
    ∀ ecm ∈ (s.readers r).ecmtask[i]?, sameTask asked ecm = true →
      (i, cascAnswered i idx rc cw ecm) ∈
        cascAnswers cfg r idx rc cw s (List.range csMaxpending)

/-- The answered task keeps its caid, or no duplicate waits behind it. -/
def NoneBehindMapped (r : ReaderId) (idx : Nat) (s : Server) : Prop :=
  ∀ asked ∈ (s.readers r).ecmtask[idx]?, taskPending ≤ asked.rc →
    asked.ocaid ≠ asked.caid → ∀ i < csMaxpending, idx < i →
      ∀ ecm ∈ (s.readers r).ecmtask[i]?, sameTask asked ecm = false

theorem duplicates_answered_iff :
    EachDuplicateAnswered cfg r idx rc cw s ↔ NoneBehindMapped r idx s := by
  constructor
  · intro answered asked other pending mapped i bound behind ecm found
    by_contra waiting
    have same : sameTask asked ecm = true := by simpa using waiting
    obtain ⟨_, ecm', asked', found', other', compared, _⟩ :=
      answered_iff.mp (answered asked other i bound ecm found same)
    cases found.symm.trans found'
    cases other.symm.trans other'
    simp only [comparedWith, behind, pending, and_self, if_true, sameTask,
      Bool.and_eq_true, beq_iff_eq] at compared same
    exact mapped (compared.1.2.symm.trans same.1.2)
  · intro none asked other i bound ecm found same
    rw [answered_iff]
    refine ⟨bound, ecm, asked, found, other, ?_, rfl⟩
    unfold comparedWith
    split
    · next behind =>
      have kept : asked.ocaid = asked.caid := by
        by_contra mapped
        have different :=
          none asked other behind.2 mapped i bound behind.1 ecm found
        rw [same] at different
        cases different
      simpa [sameTask, kept] using same
    · exact same

/-! A client asks for the same ECM twice, and the caid table of the reader
maps 0x0100 to 0x0500. -/

def mappedTask : EcmRequest :=
  { EcmRequest.zero with
    ecmd5 := 1, caid := 0x0500, ocaid := 0x0100, rc := taskPending }

def mappedCfg : Config :=
  { ctimeout := 5000, ftimeout := 2500, preferlocalcards := false }

def mappedServer : Server :=
  withReader { networkReader 1 false with ecmtask := [mappedTask, mappedTask] }
    0

/-- The second task is not answered. -/
theorem duplicate_unanswered :
    ¬∀ (cfg : Config) (r : ReaderId) (idx : Nat) (rc : Int) (cw : Cw)
      (s : Server), EachDuplicateAnswered cfg r idx rc cw s := by
  intro answered
  have second := answered mappedCfg 0 0 1 Cw.zero mappedServer mappedTask
    rfl 1 (by decide) mappedTask rfl (by decide)
  rw [answered_iff] at second
  obtain ⟨_, ecm, asked, found, other, same, _⟩ := second
  cases found
  cases other
  exact absurd same (by decide)

end Server

end Oscam
