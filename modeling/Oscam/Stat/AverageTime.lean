import Oscam.Stat.AddStat
import Oscam.Stat.Distinct
import Oscam.Stat.Sorting
import Mathlib.Algebra.Order.BigOperators.Group.List

/-!
# The average time

`time_avg` behind a sequence of answers.  A time of zero is stored like any
other, but `calc_stat` takes it for an entry that was never written: it is left
out of the average.
-/

namespace Oscam.Stat

variable {cfg : StatCfg} {call : AddStatCall}

/-! ## The average of a list -/

section Average

variable {times : List Int}

/-- The quotient is not below all of them. -/
theorem exists_le_average (some : times ≠ []) :
    ∃ time ∈ times, time ≤ times.sum / (times.length : Int) := by
  by_contra none
  have positive : (0 : Int) < times.length := by
    exact_mod_cast List.length_pos_of_ne_nil some
  have above : ∀ time ∈ times,
      times.sum / (times.length : Int) + 1 ≤ time := by
    intro time member
    by_contra below
    exact none ⟨time, member, by omega⟩
  have bound := List.card_nsmul_le_sum times _ above
  rw [nsmul_eq_mul, mul_add, mul_one] at bound
  have division := Int.mul_ediv_add_emod times.sum times.length
  have rest := Int.emod_lt_of_pos times.sum positive
  omega

/-- The quotient is not above all of them. -/
theorem exists_average_le (some : times ≠ []) :
    ∃ time ∈ times, times.sum / (times.length : Int) ≤ time := by
  by_contra none
  have positive : (0 : Int) < times.length := by
    exact_mod_cast List.length_pos_of_ne_nil some
  have below : ∀ time ∈ times,
      time ≤ times.sum / (times.length : Int) - 1 := by
    intro time member
    by_contra above
    exact none ⟨time, member, by omega⟩
  have bound := List.sum_le_card_nsmul times _ below
  rw [nsmul_eq_mul, mul_sub, mul_one] at bound
  have division := Int.mul_ediv_add_emod times.sum times.length
  have rest := Int.emod_nonneg times.sum (Int.ne_of_gt positive)
  omega

theorem sum_pos_times (positive : ∀ time ∈ times, 0 < time) :
    0 ≤ times.sum :=
  List.sum_nonneg fun time member => Int.le_of_lt (positive time member)

end Average

/-! ## The sum of the times -/

theorem sumTimes_from (times : List Int) (t : Int) (c : Nat) :
    times.foldl (fun (t, c) time =>
        if time > 0 then (int32 (t + time), c + 1) else (t, c)) (int32 t, c) =
      (int32 (t + (times.filter (0 < ·)).sum),
        c + (times.filter (0 < ·)).length) := by
  induction times generalizing t c with
  | nil =>
      show (int32 t, c) = (int32 (t + 0), c + 0)
      rw [Int.add_zero, Nat.add_zero]
  | cons time times induction =>
      rw [List.foldl_cons]
      dsimp only
      by_cases positive : time > 0
      · have wrapped : int32 (int32 t + time) = int32 (t + time) :=
          Int.bmod_add_bmod
        have kept : (time :: times).filter (0 < ·) =
            time :: times.filter (0 < ·) :=
          List.filter_cons_of_pos (decide_eq_true positive)
        rw [if_pos positive, wrapped, induction, kept, List.sum_cons,
          List.length_cons, Int.add_assoc, Nat.add_assoc, Nat.add_comm 1]
      · have left : (time :: times).filter (0 < ·) =
            times.filter (0 < ·) :=
          List.filter_cons_of_neg (by simpa using positive)
        rw [if_neg positive, induction, left]

/-- Only positive times are counted. -/
theorem sumTimes_eq (times : List Int) :
    sumTimes times = (int32 (times.filter (0 < ·)).sum,
      (times.filter (0 < ·)).length) := by
  have all := sumTimes_from times 0 0
  rw [Int.zero_add, Nat.zero_add] at all
  exact all

theorem sumTimes_perm {times other : List Int} (perm : times.Perm other) :
    sumTimes times = sumTimes other := by
  have same := perm.filter (0 < ·)
  rw [sumTimes_eq, sumTimes_eq, same.sum_eq, same.length_eq]

/-- Entries that were never written do not count. -/
theorem sumTimes_replicate_append (n : Nat) (times : List Int) :
    sumTimes (List.replicate n 0 ++ times) = sumTimes times := by
  rw [sumTimes_eq, sumTimes_eq, List.filter_append, List.filter_replicate,
    if_neg (by decide), List.nil_append]

theorem int32_eq_iff {value : Int} (notNegative : 0 ≤ value) :
    int32 value = value ↔ value ≤ intMax := by
  constructor
  · intro typed
    have bounds := int32_bounds typed
    have most : intMax = 2147483647 := rfl
    omega
  · intro below
    have most : intMax = 2147483647 := rfl
    unfold int32
    apply Int.bmod_eq_of_le
    · omega
    · omega

/-- No time is left out, and the sum does not overflow. -/
theorem sumTimes_counts_iff (times : List Int) :
    sumTimes times = (times.sum, times.length) ↔
      (∀ time ∈ times, 0 < time) ∧ times.sum ≤ intMax := by
  rw [sumTimes_eq, Prod.mk.injEq, List.length_filter_eq_length_iff]
  constructor
  · rintro ⟨sum, all⟩
    have positive : ∀ time ∈ times, 0 < time :=
      fun time member => of_decide_eq_true (all time member)
    rw [List.filter_eq_self.mpr all] at sum
    exact ⟨positive, (int32_eq_iff (sum_pos_times positive)).mp sum⟩
  · rintro ⟨positive, below⟩
    have all : ∀ time ∈ times, decide (0 < time) = true :=
      fun time member => decide_eq_true (positive time member)
    rw [List.filter_eq_self.mpr all]
    exact ⟨(int32_eq_iff (sum_pos_times positive)).mpr below, all⟩

/-! ## What is recorded -/

/-- The time that a call records. -/
def AddStatCall.recorded (cfg : StatCfg) (call : AddStatCall) : Option Int :=
  if call.client.isNone ∨ cfg.lb.lbMode = lbNone then none
  else if call.statRc cfg = 0 then some (call.answerTime cfg)
  else if call.statRc cfg = 5 then some (call.timeoutTime cfg)
  else none

/-- The times of the record; a new one has none. -/
def timesOf : Option TimedStat → RingBuffer Int lbMaxStatTime
  | none => noTimes
  | some s => s.times

theorem times_getAddStat (er : EcmRequest) (prid : Nat)
    (found : Option TimedStat) :
    (getAddStat er prid found).times = timesOf found := by
  unfold getAddStat
  cases found with
  | none =>
      dsimp only
      split
      · rfl
      · rfl
  | some s =>
      dsimp only
      split
      · rfl
      · rfl

theorem times_addFound (s : TimedStat) :
    (addFound cfg call s).times = s.times.push (call.answerTime cfg) := rfl

theorem times_addTimeout (client : StatClient) (s : TimedStat) :
    (addTimeout cfg call client s).times =
      s.times.push (call.timeoutTime cfg) := rfl

theorem timesOf_addStat (cfg : StatCfg) (call : AddStatCall)
    (found : Option TimedStat) (usage : Usagelevel) :
    timesOf (addStat cfg call found usage).1 =
      match call.recorded cfg with
      | some time => (timesOf found).push time
      | none => timesOf found := by
  have received : timesOf (found.map (addReceived call)) = timesOf found := by
    cases found with
    | none => rfl
    | some s => rfl
  unfold addStat AddStatCall.recorded
  cases call.client with
  | none => rfl
  | some client =>
      dsimp only [Option.isNone]
      by_cases off : cfg.lb.lbMode = lbNone
      · rw [if_pos off, if_pos (.inr off)]
      · have on : ¬ (false = true ∨ cfg.lb.lbMode = lbNone) := by
          simpa using off
        rw [if_neg off, if_neg on]
        by_cases found' : call.statRc cfg = 0
        · rw [if_pos found', if_pos found']
          show (addFound cfg call _).times = _
          rw [times_addFound, times_getAddStat]
        · rw [if_neg found', if_neg found']
          by_cases cached : call.statRc cfg = 1 ∨ call.statRc cfg = 2
          · have other : call.statRc cfg ≠ 5 := by omega
            rw [if_pos cached, if_neg other]
            exact received
          · rw [if_neg cached]
            by_cases missing : call.statRc cfg = 4
            · have other : call.statRc cfg ≠ 5 := by omega
              rw [if_pos missing, if_neg other]
              split
              · exact received
              · exact times_getAddStat _ _ _
            · rw [if_neg missing]
              by_cases late : call.statRc cfg = 5
              · rw [if_pos late, if_pos late]
                show (addTimeout cfg call client _).times = _
                rw [times_addTimeout, times_getAddStat]
              · rw [if_neg late, if_neg late]

/-- The calls that `send_reader_stat` makes. -/
def AddStatCall.Sent (call : AddStatCall) : Prop :=
  ∃ tpe before, sendReaderStat tpe before = some call

/-! ## Sequences of answers -/

/-- The record and the usage level behind a sequence of calls. -/
def addStats (cfg : StatCfg) (calls : List AddStatCall)
    (s : Option TimedStat × Usagelevel) : Option TimedStat × Usagelevel :=
  calls.foldl (fun s call => addStat cfg call s.1 s.2) s

/-- The times that the calls record, at most the last `LB_MAX_STAT_TIME`. -/
def recentTimes (cfg : StatCfg) (calls : List AddStatCall) : List Int :=
  (calls.filterMap fun call => call.recorded cfg).rtake lbMaxStatTime

theorem timesOf_addStats (calls : List AddStatCall)
    (s : Option TimedStat × Usagelevel) :
    timesOf (addStats cfg calls s).1 =
      (calls.filterMap fun call => call.recorded cfg).foldl RingBuffer.push
        (timesOf s.1) := by
  unfold addStats
  induction calls generalizing s with
  | nil => rfl
  | cons call calls induction =>
      rw [List.foldl_cons, induction, timesOf_addStat, List.filterMap_cons]
      cases call.recorded cfg with
      | none => rfl
      | some time => rfl

/-- The sum that `calc_stat` makes of the record is that of the times recorded
last. -/
theorem sumTimes_addStats {s : Option TimedStat × Usagelevel}
    (started : timesOf s.1 = noTimes) (calls : List AddStatCall) :
    sumTimes (timesOf (addStats cfg calls s).1).cells =
      sumTimes (recentTimes cfg calls) := by
  rw [timesOf_addStats, started]
  unfold noTimes recentTimes
  rw [sumTimes_perm (RingBuffer.cells_foldl_push_filled _ _ _)]
  exact sumTimes_replicate_append _ _

/-- The call takes a found answer into the record. -/
def AddStatCall.IsFound (cfg : StatCfg) (call : AddStatCall) : Prop :=
  call.client ≠ none ∧ cfg.lb.lbMode ≠ lbNone ∧ call.statRc cfg = 0

theorem addStat_found (found : call.IsFound cfg) (before : Option TimedStat)
    (usage : Usagelevel) :
    ∃ s, (addStat cfg call before usage).1 = some s ∧
      s.stat.timeAvg = if (sumTimes s.times.cells).2 = 0 then undefAvgTime
        else (sumTimes s.times.cells).1.tdiv (sumTimes s.times.cells).2 := by
  obtain ⟨client, on, rc⟩ := found
  obtain ⟨client, same⟩ := Option.ne_none_iff_exists'.mp client
  unfold addStat
  rw [same]
  dsimp only
  rw [if_neg on, if_pos rc]
  exact ⟨_, rfl, rfl⟩

/-- `time_avg` is the average of these times: none is left out, so that it is
not the placeholder, and it lies between the smallest and the largest. -/
structure Averages (times : List Int) (s : TimedStat) : Prop where
  counted : sumTimes s.times.cells = (times.sum, times.length)
  average : s.stat.timeAvg = times.sum.tdiv times.length
  low : ∃ time ∈ times, time ≤ s.stat.timeAvg
  high : ∃ time ∈ times, s.stat.timeAvg ≤ time

/-- Behind a found answer the average is one of the times recorded last exactly
if none of them is zero and their sum does not overflow. -/
theorem addStats_averages_iff (cfg : StatCfg) (calls : List AddStatCall)
    (call : AddStatCall) (s : Option TimedStat × Usagelevel)
    (started : timesOf s.1 = noTimes) (found : call.IsFound cfg) :
    (∃ stat, (addStats cfg (calls ++ [call]) s).1 = some stat ∧
        Averages (recentTimes cfg (calls ++ [call])) stat) ↔
      (∀ time ∈ recentTimes cfg (calls ++ [call]), 0 < time) ∧
        (recentTimes cfg (calls ++ [call])).sum ≤ intMax := by
  have sum := @sumTimes_addStats cfg s started (calls ++ [call])
  have last : addStats cfg (calls ++ [call]) s =
      addStat cfg call (addStats cfg calls s).1 (addStats cfg calls s).2 :=
    List.foldl_concat _ _ _ _
  obtain ⟨stat, after, average⟩ := addStat_found found
    (addStats cfg calls s).1 (addStats cfg calls s).2
  rw [← last] at after
  have some : recentTimes cfg (calls ++ [call]) ≠ [] := by
    obtain ⟨client, on, rc⟩ := found
    have recorded : call.recorded cfg = .some (call.answerTime cfg) := by
      unfold AddStatCall.recorded
      rw [if_neg (by simp [client, on]), if_pos rc]
    unfold recentTimes
    rw [List.filterMap_append, List.filterMap_cons, recorded, List.filterMap_nil,
      List.rtake_concat_succ]
    exact List.concat_ne_nil _ _
  rw [after] at sum
  generalize recentTimes cfg (calls ++ [call]) = times at *
  change sumTimes stat.times.cells = _ at sum
  rw [← sumTimes_counts_iff, ← sum]
  constructor
  · rintro ⟨other, same, averages⟩
    rw [after] at same
    obtain rfl := Option.some.inj same
    exact averages.counted
  · intro counted
    refine ⟨stat, after, ?_⟩
    have number : times.length ≠ 0 := by
      rw [List.length_eq_zero_iff.ne]
      exact some
    have positive := ((sumTimes_counts_iff times).mp (sum ▸ counted)).1
    have tdiv : times.sum.tdiv times.length =
        times.sum / (times.length : Int) :=
      Int.tdiv_eq_ediv_of_nonneg (sum_pos_times positive)
    rw [counted, if_neg number] at average
    refine ⟨counted, average, ?_, ?_⟩
    · rw [average, tdiv]
      exact exists_le_average some
    · rw [average, tdiv]
      exact exists_average_le some

/-! The last of three readers is a fallback reader and answers when the
fallback time-out is just over. -/

def timedCfg : StatCfg := { lb := slowCfg, ctimeout := 5000, ftimeout := 2500 }

def timelyCall : AddStatCall :=
  { rdr := 3, r := { slowRequest with fallback := some 2 }, ecmTime := 2500
    rc := 0, client := some { login := 0, pending := 0 }, clientAlive := true
    ctime := 5000 }

theorem timelyCall_sent : timelyCall.Sent :=
  ⟨{ time := 2, millitm := 500 }, timelyCall, rfl⟩

theorem timelyCall_found : timelyCall.IsFound timedCfg := by
  refine ⟨Option.some_ne_none _, by decide, by decide⟩

theorem addStats_averages_iff_timely :
    (∃ stat, (addStats timedCfg ([] ++ [timelyCall])
          (none, ⟨0, 0, 0⟩)).1 = some stat ∧
        Averages (recentTimes timedCfg ([] ++ [timelyCall])) stat) ↔
      (∀ time ∈ recentTimes timedCfg ([] ++ [timelyCall]), 0 < time) ∧
        (recentTimes timedCfg ([] ++ [timelyCall])).sum ≤ intMax :=
  addStats_averages_iff timedCfg [] timelyCall (none, ⟨0, 0, 0⟩) rfl
    timelyCall_found

/-- The average of the only answer is the placeholder. -/
theorem not_averages_timely :
    ¬ ∀ (cfg : StatCfg) (calls : List AddStatCall) (call : AddStatCall)
        (s : Option TimedStat × Usagelevel),
      timesOf s.1 = noTimes → call.IsFound cfg →
        (∀ other ∈ calls ++ [call], other.Sent) →
          ∃ stat, (addStats cfg (calls ++ [call]) s).1 = some stat ∧
            Averages (recentTimes cfg (calls ++ [call])) stat := by
  intro always
  obtain ⟨stat, after, averages⟩ := always timedCfg [] timelyCall
    (none, ⟨0, 0, 0⟩) rfl timelyCall_found
    fun other only => List.mem_singleton.mp only ▸ timelyCall_sent
  have recent : recentTimes timedCfg ([] ++ [timelyCall]) = [0] := by decide
  have placeholder : (addStats timedCfg ([] ++ [timelyCall])
      (none, ⟨0, 0, 0⟩)).1.map (·.stat.timeAvg) = some undefAvgTime := by
    decide
  obtain ⟨time, member, above⟩ := averages.high
  rw [recent, List.mem_singleton] at member
  rw [after] at placeholder
  have value : stat.stat.timeAvg = 80000 := Option.some.inj placeholder
  omega

end Oscam.Stat
