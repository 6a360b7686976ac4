import Oscam.Stat.Touched
import Oscam.Stat.AverageTime
import Oscam.Lib.Reach

/-!
# The fail factor

`fail_factor` over sequences of `add_stat` and `get_best_reader`.  It is
doubled with each failure, and limited only when the reopen time is asked for.
-/

namespace Oscam.Stat

open StepSystem

/-! ## The reopen time -/

/-- The reopen time for a factor, in whole numbers. -/
def reopenTime (cfg : LbCfg) (factor : Int) : Int :=
  if factor = 0 then cfg.lbReopenSeconds
  else min factor (intMax / cfg.lbReopenSeconds) * cfg.lbReopenSeconds

section ReopenTime

variable {cfg : LbCfg} {factor other : Int} {stat : ReaderStat}

theorem most_mul_le (some : 0 < cfg.lbReopenSeconds) :
    intMax / cfg.lbReopenSeconds * cfg.lbReopenSeconds ≤ intMax :=
  Int.ediv_mul_le intMax (Int.ne_of_gt some)

theorem most_pos (some : 0 < cfg.lbReopenSeconds)
    (fits : cfg.lbReopenSeconds ≤ intMax) :
    1 ≤ intMax / cfg.lbReopenSeconds := by
  rw [Int.le_ediv_iff_mul_le some, Int.one_mul]
  exact fits

/-- A larger factor gives no shorter time. -/
theorem reopenTime_mono (some : 0 < cfg.lbReopenSeconds)
    (fits : cfg.lbReopenSeconds ≤ intMax) (notNegative : 0 ≤ factor)
    (le : factor ≤ other) : reopenTime cfg factor ≤ reopenTime cfg other := by
  have most := most_pos some fits
  unfold reopenTime
  by_cases none : factor = 0
  · rw [if_pos none]
    split
    · exact Int.le_refl _
    · have one : 1 ≤ min other (intMax / cfg.lbReopenSeconds) := by omega
      have product := Int.mul_le_mul_of_nonneg_right one (Int.le_of_lt some)
      rw [Int.one_mul] at product
      exact product
  · rw [if_neg none, if_neg (by omega)]
    apply Int.mul_le_mul_of_nonneg_right
    · omega
    · exact Int.le_of_lt some

theorem reopenTime_bounds (some : 0 < cfg.lbReopenSeconds)
    (fits : cfg.lbReopenSeconds ≤ intMax) (notNegative : 0 ≤ factor) :
    cfg.lbReopenSeconds ≤ reopenTime cfg factor ∧
      reopenTime cfg factor ≤ intMax := by
  constructor
  · have least := reopenTime_mono some fits (Int.le_refl 0) notNegative
    unfold reopenTime at least
    rw [if_pos rfl] at least
    exact least
  · unfold reopenTime
    split
    · exact fits
    · refine Int.le_trans ?_ (most_mul_le some)
      apply Int.mul_le_mul_of_nonneg_right
      · omega
      · exact Int.le_of_lt some

/-- The limit does not change the time. -/
theorem reopenTime_min (some : 0 < cfg.lbReopenSeconds)
    (fits : cfg.lbReopenSeconds ≤ intMax) :
    reopenTime cfg (min factor (intMax / cfg.lbReopenSeconds)) =
      reopenTime cfg factor := by
  have most := most_pos some fits
  unfold reopenTime
  by_cases none : factor = 0
  · rw [if_pos none, if_pos (by omega)]
  · rw [if_neg none, if_neg (by omega), min_assoc, min_self]

theorem getReopenSeconds_eq :
    let limited := { stat with
      failFactor := min stat.failFactor (intMax / cfg.lbReopenSeconds) }
    getReopenSeconds cfg stat =
      (if limited.failFactor = 0 then cfg.lbReopenSeconds
        else int32 (limited.failFactor * cfg.lbReopenSeconds), limited) := by
  have division : intMax.tdiv cfg.lbReopenSeconds =
      intMax / cfg.lbReopenSeconds := Int.tdiv_eq_ediv_of_nonneg (by decide)
  unfold getReopenSeconds
  rw [division]
  dsimp only
  by_cases above : stat.failFactor > intMax / cfg.lbReopenSeconds
  · rw [if_pos above, min_eq_right (Int.le_of_lt above)]
    dsimp only
    split
    · rfl
    · rfl
  · rw [if_neg above, min_eq_left (Int.not_lt.mp above)]
    split
    · rfl
    · rfl

/-- The product does not overflow. -/
theorem getReopenSeconds_seconds (some : 0 < cfg.lbReopenSeconds)
    (fits : cfg.lbReopenSeconds ≤ intMax)
    (notNegative : 0 ≤ stat.failFactor) :
    (getReopenSeconds cfg stat).1 = reopenTime cfg stat.failFactor := by
  have bounds := reopenTime_bounds some fits notNegative
  rw [getReopenSeconds_eq]
  dsimp only
  rw [← reopenTime_min some fits] at bounds ⊢
  unfold reopenTime at bounds ⊢
  split
  · rfl
  · rename_i left
    rw [if_neg left] at bounds
    rw [min_assoc, min_self] at bounds ⊢
    apply (int32_eq_iff _).mpr bounds.2
    exact Int.le_trans (Int.le_of_lt some) bounds.1

end ReopenTime

/-! ## One call -/

/-- A call for the channel of the record; `get_best_reader` changes the record
as `getBestReader_touched` says. -/
inductive StatCall where
  | addStat (call : AddStatCall)
  | getBestReader (touches : List Touch)

/-- The record and the usage level of the reader. -/
abbrev StatState := Option TimedStat × Usagelevel

def StatCall.step (cfg : StatCfg) (s : StatState) : StatCall → StatState
  | .addStat call => Stat.addStat cfg call s.1 s.2
  | .getBestReader touches =>
      (s.1.map fun t => { t with stat := touchAll cfg.lb touches t.stat }, s.2)

/-- The factor of the record; a new one has none. -/
def StatState.failFactor (s : StatState) : Int :=
  match s.1 with
  | none => 0
  | some t => t.stat.failFactor

/-- The call of `add_stat` comes to `inc_fail`. -/
def AddStatCall.incsFail (cfg : StatCfg) (call : AddStatCall)
    (found : Option TimedStat) : Bool :=
  match call.client with
  | none => false
  | some client =>
      if cfg.lb.lbMode = lbNone then false
      else
        let er := call.r.er
        let s := getAddStat er (getPrid cfg.lb er.caid er.prid) found
        if call.statRc cfg = 4 then !isCccamError er.rcEx
        else if call.statRc cfg = 5 then
          !isSudden cfg call s.stat && isLate cfg call client s.stat
        else false

def StatCall.incsFail (cfg : StatCfg) (s : StatState) : StatCall → Bool
  | .addStat call => call.incsFail cfg s.1
  | .getBestReader _ => false

section Calls

variable {cfg : StatCfg} {s : StatState}

theorem failFactor_getAddStat (er : EcmRequest) (prid : Nat)
    (found : Option TimedStat) (usage : Usagelevel) :
    (getAddStat er prid found).stat.failFactor =
      StatState.failFactor (found, usage) := by
  unfold getAddStat
  cases found with
  | none =>
      dsimp only
      split
      · rfl
      · rfl
  | some t =>
      dsimp only
      split
      · rfl
      · rfl

theorem failFactor_addTimeout (call : AddStatCall) (client : StatClient)
    (t : TimedStat) :
    (addTimeout cfg call client t).stat.failFactor =
      if !isSudden cfg call t.stat && isLate cfg call client t.stat then
        (incFail t.stat).failFactor
      else t.stat.failFactor := by
  unfold addTimeout TimedStat.addTime calcStat
  cases isSudden cfg call t.stat with
  | true => rfl
  | false =>
      cases isLate cfg call client t.stat with
      | true => rfl
      | false => rfl

/-- What a call does to the factor: it is increased, or stays, or is cleared
together with the return code. -/
inductive FailChange (cfg : StatCfg) (s : StatState) (incs : Bool)
    (after : TimedStat) : Prop where
  | increased : incs = true →
      after.stat.failFactor =
        (if s.failFactor ≤ 0 then 1 else int32 (s.failFactor * 2)) →
      FailChange cfg s incs after
  | kept : incs = false → after.stat.failFactor = s.failFactor →
      FailChange cfg s incs after
  | cleared : incs = false → after.stat.failFactor = 0 → after.stat.rc = 0 →
      FailChange cfg s incs after

theorem addStat_failChange (call : AddStatCall) :
    ∀ t, (addStat cfg call s.1 s.2).1 = some t →
      FailChange cfg s (call.incsFail cfg s.1) t := by
  obtain ⟨found, usage⟩ := s
  intro t after
  have received (same : found.map (addReceived call) = some t) :
      t.stat.failFactor = StatState.failFactor (found, usage) := by
    cases found with
    | none => cases same
    | some before =>
        obtain rfl := Option.some.inj same
        rfl
  have same (same : found = some t) :
      t.stat.failFactor = StatState.failFactor (found, usage) := by
    rw [same]
    rfl
  have begun := failFactor_getAddStat call.r.er
    (getPrid cfg.lb call.r.er.caid call.r.er.prid) found usage
  unfold addStat at after
  unfold AddStatCall.incsFail
  cases has : call.client with
  | none =>
      rw [has] at after
      exact .kept rfl (same after)
  | some client =>
      rw [has] at after
      dsimp only at after ⊢
      by_cases off : cfg.lb.lbMode = lbNone
      · rw [if_pos off] at after ⊢
        exact .kept rfl (same after)
      · rw [if_neg off] at after ⊢
        generalize getAddStat call.r.er _ found = before at after begun ⊢
        by_cases found' : call.statRc cfg = 0
        · rw [if_pos found'] at after
          rw [if_neg (by omega), if_neg (by omega)]
          obtain rfl := Option.some.inj after
          exact .cleared rfl rfl rfl
        · rw [if_neg found'] at after
          by_cases cached : call.statRc cfg = 1 ∨ call.statRc cfg = 2
          · rw [if_pos cached] at after
            rw [if_neg (by omega), if_neg (by omega)]
            exact .kept rfl (received after)
          · rw [if_neg cached] at after
            by_cases missing : call.statRc cfg = 4
            · rw [if_pos missing] at after ⊢
              by_cases error : isCccamError call.r.er.rcEx = true
              · rw [if_pos error] at after
                exact .kept (by rw [error]; rfl) (received after)
              · rw [if_neg error] at after
                obtain rfl := Option.some.inj after
                apply FailChange.increased
                · simpa using error
                · rw [← begun]
                  rfl
            · rw [if_neg missing] at after ⊢
              by_cases late : call.statRc cfg = 5
              · rw [if_pos late] at after ⊢
                obtain rfl := Option.some.inj after
                have timeout := @failFactor_addTimeout cfg call client before
                by_cases incs : (!isSudden cfg call before.stat &&
                    isLate cfg call client before.stat) = true
                · rw [if_pos incs] at timeout
                  apply FailChange.increased incs
                  rw [timeout, ← begun]
                  rfl
                · rw [if_neg incs] at timeout
                  apply FailChange.kept
                  · simpa using incs
                  · rw [timeout, begun]
              · rw [if_neg late] at after ⊢
                exact .kept rfl (same after)

/-- A change by `get_best_reader`: the reopen time of a record that stays at
"not found" is the same. -/
structure Softened (cfg : LbCfg) (before after : ReaderStat) : Prop where
  notNegative : 0 ≤ after.failFactor
  le : after.failFactor ≤ before.failFactor
  time : after.rc = 4 → before.rc = 4 ∧
    reopenTime cfg after.failFactor = reopenTime cfg before.failFactor

theorem Softened.trans {cfg : LbCfg} {first second third : ReaderStat}
    (earlier : Softened cfg first second) (later : Softened cfg second third) :
    Softened cfg first third := by
  refine ⟨later.notNegative, Int.le_trans later.le earlier.le, ?_⟩
  intro missing
  obtain ⟨between, same⟩ := later.time missing
  obtain ⟨before, first⟩ := earlier.time between
  exact ⟨before, same.trans first⟩

theorem Touch.softens {cfg : LbCfg} (some : 0 < cfg.lbReopenSeconds)
    (fits : cfg.lbReopenSeconds ≤ intMax) {stat : ReaderStat}
    (notNegative : 0 ≤ stat.failFactor) (touch : Touch) :
    Softened cfg stat (touch.apply cfg stat) := by
  cases touch with
  | looked ecmlen =>
      exact ⟨notNegative, Int.le_refl _, fun missing => ⟨missing, rfl⟩⟩
  | reset => exact ⟨Int.le_refl 0, notNegative, fun none => by cases none⟩
  | asked =>
      have most := most_pos some fits
      show Softened cfg stat (getReopenSeconds cfg stat).2
      rw [getReopenSeconds_eq]
      refine ⟨?_, min_le_left _ _, fun missing => ⟨missing, ?_⟩⟩
      · show 0 ≤ min stat.failFactor (intMax / cfg.lbReopenSeconds)
        omega
      · exact reopenTime_min some fits
  | retried time =>
      exact ⟨notNegative, Int.le_refl _, fun missing => ⟨missing, rfl⟩⟩

theorem touchAll_softens {cfg : LbCfg} (some : 0 < cfg.lbReopenSeconds)
    (fits : cfg.lbReopenSeconds ≤ intMax) {stat : ReaderStat}
    (notNegative : 0 ≤ stat.failFactor) (touches : List Touch) :
    Softened cfg stat (touchAll cfg touches stat) := by
  induction touches generalizing stat with
  | nil => exact ⟨notNegative, Int.le_refl _, fun missing => ⟨missing, rfl⟩⟩
  | cons touch touches induction =>
      have first := Touch.softens some fits notNegative touch
      exact first.trans (induction first.notNegative)

/-- If a call comes to `inc_fail`, there is a record behind it. -/
theorem addStat_of_incsFail {call : AddStatCall}
    (incs : call.incsFail cfg s.1 = true) :
    ∃ t, (addStat cfg call s.1 s.2).1 = some t := by
  unfold AddStatCall.incsFail at incs
  unfold addStat
  cases has : call.client with
  | none =>
      rw [has] at incs
      cases incs
  | some client =>
      rw [has] at incs
      dsimp only at incs ⊢
      split at incs
      · cases incs
      · rename_i on
        rw [if_neg on]
        split at incs
        · rename_i missing
          rw [if_neg (by omega), if_neg (by omega), if_pos missing,
            if_neg (by simpa using incs)]
          exact ⟨_, rfl⟩
        · split at incs
          · rename_i other late
            rw [if_neg (by omega), if_neg (by omega), if_neg other, if_pos late]
            exact ⟨_, rfl⟩
          · cases incs

/-! ## Sequences of calls -/

/-- The factor is an `int32_t` that is not negative. -/
def StatState.InBounds (s : StatState) : Prop :=
  0 ≤ s.failFactor ∧ s.failFactor ≤ intMax

/-- The factor is in its bounds and the reopen time, which is computed without
overflow, is between `lb_reopen_seconds` and `INT_MAX`. -/
structure InRange (cfg : LbCfg) (stat : ReaderStat) : Prop where
  factor : 0 ≤ stat.failFactor ∧ stat.failFactor ≤ intMax
  seconds : cfg.lbReopenSeconds ≤ (getReopenSeconds cfg stat).1 ∧
    (getReopenSeconds cfg stat).1 ≤ intMax
  exact : (getReopenSeconds cfg stat).1 = reopenTime cfg stat.failFactor

/-- A call leaves the record in range, doubles the factor without overflow if
it increases it, and the reopen time is no shorter as long as the record is at
"not found". -/
structure Sound (cfg : StatCfg) (s : StatState) (call : StatCall) : Prop where
  inRange : ∀ t, (call.step cfg s).1 = some t → InRange cfg.lb t.stat
  doubled : call.incsFail cfg s = true → 0 < s.failFactor →
    (call.step cfg s).failFactor = 2 * s.failFactor
  grows : ∀ t u, s.1 = some t → (call.step cfg s).1 = some u →
    t.stat.rc = 4 → u.stat.rc = 4 →
      (getReopenSeconds cfg.lb t.stat).1 ≤ (getReopenSeconds cfg.lb u.stat).1

/-- A factor that is increased is at most half of `INT_MAX`. -/
def AtMostHalf (cfg : StatCfg) (s : StatState) (call : StatCall) : Prop :=
  call.incsFail cfg s = true → s.failFactor ≤ intMax / 2

theorem InRange.of {cfg : LbCfg} (some : 0 < cfg.lbReopenSeconds)
    (fits : cfg.lbReopenSeconds ≤ intMax) {stat : ReaderStat}
    (low : 0 ≤ stat.failFactor) (high : stat.failFactor ≤ intMax) :
    InRange cfg stat := by
  have seconds := getReopenSeconds_seconds some fits low
  refine ⟨⟨low, high⟩, ?_, seconds⟩
  rw [seconds]
  exact reopenTime_bounds some fits low

theorem StatState.InBounds.of_sound {call : StatCall}
    (sound : Sound cfg s call) : (call.step cfg s).InBounds := by
  unfold StatState.InBounds StatState.failFactor
  cases after : (call.step cfg s).1 with
  | none => exact ⟨Int.le_refl 0, by decide⟩
  | some t => exact (sound.inRange t after).factor

theorem failFactor_of_some {t : TimedStat} (record : s.1 = some t) :
    s.failFactor = t.stat.failFactor := by
  unfold StatState.failFactor
  rw [record]

theorem int32_double {factor : Int} (low : 0 < factor)
    (half : factor ≤ intMax / 2) : int32 (factor * 2) = 2 * factor := by
  have most : intMax = 2147483647 := rfl
  rw [Int.mul_comm]
  exact (int32_eq_iff (by omega)).mpr (by omega)

section Steps

variable (some : 0 < cfg.lb.lbReopenSeconds)
  (fits : cfg.lb.lbReopenSeconds ≤ intMax)

include some fits

theorem addStat_sound {call : AddStatCall} (begun : s.InBounds)
    (half : AtMostHalf cfg s (.addStat call)) :
    Sound cfg s (.addStat call) := by
  obtain ⟨low, high⟩ := begun
  have most : intMax = 2147483647 := rfl
  have change := @addStat_failChange cfg s call
  have factor (t : TimedStat)
      (after : (addStat cfg call s.1 s.2).1 = .some t) :
      0 ≤ t.stat.failFactor ∧ t.stat.failFactor ≤ intMax ∧
        (t.stat.rc = 4 → s.failFactor ≤ t.stat.failFactor) := by
    rcases change t after with ⟨incs, same⟩ | ⟨_, same⟩ | ⟨_, same, found⟩
    · have bound := half incs
      rw [same]
      by_cases none : s.failFactor ≤ 0
      · rw [if_pos none]
        omega
      · rw [if_neg none, int32_double (by omega) bound]
        omega
    · rw [same]
      exact ⟨low, high, fun _ => Int.le_refl _⟩
    · rw [same, found]
      exact ⟨Int.le_refl 0, by decide, fun missing => by cases missing⟩
  constructor
  · intro t after
    obtain ⟨least, greatest, _⟩ := factor t after
    exact .of some fits least greatest
  · intro incs positive
    obtain ⟨t, after⟩ := addStat_of_incsFail incs
    have value : (StatCall.step cfg s (.addStat call)).failFactor =
        t.stat.failFactor := failFactor_of_some after
    rw [value]
    rcases change t after with ⟨_, same⟩ | ⟨other, _⟩ | ⟨other, _, _⟩
    · rw [same, if_neg (by omega), int32_double positive (half incs)]
    · exact absurd (incs.symm.trans other) (by decide)
    · exact absurd (incs.symm.trans other) (by decide)
  · intro t u before after _ missing
    obtain ⟨least, _, grows⟩ := factor u after
    rw [failFactor_of_some before] at low grows
    rw [getReopenSeconds_seconds some fits low,
      getReopenSeconds_seconds some fits least]
    exact reopenTime_mono some fits low (grows missing)

theorem getBestReader_sound (begun : s.InBounds) (touches : List Touch) :
    Sound cfg s (.getBestReader touches) := by
  obtain ⟨low, high⟩ := begun
  have changed (u : TimedStat)
      (after : (StatCall.step cfg s (.getBestReader touches)).1 = .some u) :
      ∃ t, s.1 = .some t ∧ Softened cfg.lb t.stat u.stat := by
    unfold StatCall.step at after
    cases before : s.1 with
    | none =>
        rw [before] at after
        cases after
    | some t =>
        rw [before] at after
        obtain rfl := Option.some.inj after
        rw [failFactor_of_some before] at low
        exact ⟨t, rfl, touchAll_softens some fits low touches⟩
  constructor
  · intro u after
    obtain ⟨t, before, softened⟩ := changed u after
    rw [failFactor_of_some before] at high
    exact .of some fits softened.notNegative (Int.le_trans softened.le high)
  · exact fun none => by cases none
  · intro t u before after _ missing
    obtain ⟨other, same, softened⟩ := changed u after
    obtain rfl := Option.some.inj (before.symm.trans same)
    rw [failFactor_of_some before] at low
    rw [getReopenSeconds_seconds some fits low,
      getReopenSeconds_seconds some fits softened.notNegative,
      (softened.time missing).2]

/-- A call meets the property exactly if it doubles no factor above the
half. -/
theorem sound_iff (begun : s.InBounds) (call : StatCall) :
    Sound cfg s call ↔ AtMostHalf cfg s call := by
  constructor
  · intro sound incs
    have most : intMax = 2147483647 := rfl
    by_cases none : s.failFactor ≤ 0
    · omega
    · have doubled := sound.doubled incs (by omega)
      have bound := (StatState.InBounds.of_sound sound).2
      omega
  · intro half
    cases call with
    | addStat call => exact addStat_sound some fits begun half
    | getBestReader touches => exact getBestReader_sound some fits begun touches

end Steps

/-- All calls of a sequence meet the property exactly if no factor above the
half is doubled. -/
theorem failFactor_sound_iff (cfg : StatCfg) (s : StatState)
    (some : 0 < cfg.lb.lbReopenSeconds)
    (fits : cfg.lb.lbReopenSeconds ≤ intMax) (begun : s.InBounds)
    (calls : List StatCall) :
    Along (StatCall.step cfg) (Sound cfg) s calls ↔
      Along (StatCall.step cfg) (AtMostHalf cfg) s calls := by
  refine @Along.congr_under StatState StatCall (StatCall.step cfg) (Sound cfg)
    (AtMostHalf cfg) StatState.InBounds ?_ ?_ s begun calls
  · exact fun s call begun => sound_iff some fits begun call
  · exact fun s call _ sound => .of_sound sound

end Calls

/-! A reader that never finds the channel and is not asked for its reopen time
meanwhile. -/

def missingCall : AddStatCall :=
  { rdr := 1, r := slowRequest, ecmTime := 200, rc := 4
    client := some { login := 0, pending := 0 }, clientAlive := true
    ctime := 5000 }

def unknownState : StatState :=
  (none, { lbUsagelevel := 0, ecmcount := 0, time := 0 })

theorem unknownState_inBounds : unknownState.InBounds := by
  constructor
  · exact Int.le_refl 0
  · decide

theorem failFactor_sound_iff_missing :
    Along (StatCall.step timedCfg) (Sound timedCfg) unknownState
        [.addStat missingCall, .getBestReader [.asked]] ↔
      Along (StatCall.step timedCfg) (AtMostHalf timedCfg) unknownState
        [.addStat missingCall, .getBestReader [.asked]] :=
  failFactor_sound_iff timedCfg unknownState (by decide) (by decide)
    unknownState_inBounds _

/-- The 32nd failure makes the factor negative. -/
theorem not_sound_missing :
    ¬ ∀ (cfg : StatCfg) (s : StatState) (calls : List StatCall),
      0 < cfg.lb.lbReopenSeconds → cfg.lb.lbReopenSeconds ≤ intMax →
        s.InBounds → Along (StatCall.step cfg) (Sound cfg) s calls := by
  intro always
  have whole := always timedCfg unknownState
    (List.replicate 31 (.addStat missingCall) ++ [.addStat missingCall])
    (by decide) (by decide) unknownState_inBounds
  obtain ⟨_, sound, _⟩ := Along.append_iff.mp whole
  have bounds := StatState.InBounds.of_sound sound
  have negative : (StatCall.step timedCfg
      ((List.replicate 31 (StatCall.addStat missingCall)).foldl
        (StatCall.step timedCfg) unknownState)
      (.addStat missingCall)).failFactor = -2147483648 := by
    decide +kernel
  have low := bounds.1
  omega

end Oscam.Stat
