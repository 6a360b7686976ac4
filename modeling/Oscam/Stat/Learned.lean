import Oscam.Stat.Budget
import Oscam.Stat.Lookup

/-!
# What is learned of the readers

The variables behind the loop over the matching readers: which of them are
selected, how many of these are local, and which have only timed out.
-/

namespace Oscam.Stat

variable {env : LbEnv} {er : EcmRequest} {prid : Nat} {retrylimit : Int}
  {s t u : LbState} {rdr : ReaderId}

/-! ## What stays -/

/-- Network readers and the records for a request are the same. -/
structure SameFor (env : LbEnv) (er : EcmRequest) (prid : Nat)
    (s t : LbState) : Prop where
  network : ∀ r, (t.readers r).network = (s.readers r).network
  statFor : ∀ r, statFor env er prid t r = statFor env er prid s r

namespace SameFor

theorem refl (s : LbState) : SameFor env er prid s s :=
  ⟨fun _ => rfl, fun _ => rfl⟩

theorem trans (first : SameFor env er prid s t)
    (second : SameFor env er prid t u) : SameFor env er prid s u :=
  ⟨fun r => (second.network r).trans (first.network r),
    fun r => (second.statFor r).trans (first.statFor r)⟩

theorem setReader (s : LbState) {reader : LbReader}
    (network : reader.network = (s.readers rdr).network)
    (lbStat : reader.lbStat = (s.readers rdr).lbStat) :
    SameFor env er prid s (s.setReader rdr reader) := by
  refine ⟨LbState.network_setReader s network, ?_⟩
  intro r
  apply statFor_congr
  unfold LbState.setReader
  dsimp only
  by_cases here : r = rdr
  · rw [here, Function.update_self, lbStat]
  · rw [Function.update_of_ne here]

/-- The record is found again. -/
theorem getStat (s : LbState) (rdr : ReaderId) :
    SameFor env er prid s
      (s.getStat env.cfg rdr er.caid prid er.srvid (int16 er.l)).1 := by
  constructor
  · intro r
    by_cases here : r = rdr
    · rw [here, readers_getStat_self]
    · rw [readers_getStat here]
  · intro r
    by_cases here : r = rdr
    · unfold Stat.statFor
      rw [here, readers_getStat_self]
      exact statIn_getStatNodes ..
    · exact statFor_congr (by rw [readers_getStat here])

end SameFor

/-! ## The value of a reader -/

/-- The entry of a reader, if it can be selected. -/
def valueFor (env : LbEnv) (er : EcmRequest) (prid : Nat) (s : LbState)
    (rdr : ReaderId) : Option StatValue :=
  match statFor env er prid s rdr with
  | some stat =>
      if IsEligible env er (s.readers rdr) stat then
        some (valueOf env s rdr stat)
      else none
  | none => none

/-- A reader that can be selected although it has only timed out. -/
def IsTimedOut (env : LbEnv) (er : EcmRequest) (prid : Nat) (s : LbState)
    (rdr : ReaderId) : Prop :=
  ∃ stat, statFor env er prid s rdr = some stat ∧
    IsEligible env er (s.readers rdr) stat ∧ stat.rc ≥ 5

/-- A reader that is taken while its statistics are read: there are none, or
they are started anew, or there are too few; or it found the channel and readers
are not compared. -/
def IsTaken (env : LbEnv) (er : EcmRequest) (prid : Nat) (retrylimit : Int)
    (s : LbState) (rdr : ReaderId) : Prop :=
  ∀ stat, statFor env er prid s rdr = some stat →
    (stat.ecmCount < 0 ∨
        stat.ecmCount > env.cfg.lbMaxEcmcount ∧ stat.timeAvg > retrylimit) ∨
      stat.rc = 0 ∧
        (stat.ecmCount < env.cfg.lbMinEcmcount ∨ ¬ Comparing env)

/-- A reader whose last result is an answer: the code is 0, and there are enough
ECMs. -/
def Working (env : LbEnv) (er : EcmRequest) (prid : Nat) (s : LbState)
    (rdr : ReaderId) : Prop :=
  ∃ stat, statFor env er prid s rdr = some stat ∧ stat.rc = 0 ∧
    env.cfg.lbMinEcmcount ≤ stat.ecmCount

theorem valueFor_congr (reader : t.readers rdr = s.readers rdr)
    (nulltime : t.nulltime = s.nulltime) :
    valueFor env er prid t rdr = valueFor env er prid s rdr := by
  unfold valueFor statFor valueOf compareValue
  rw [reader, nulltime]

theorem IsTimedOut.congr (reader : t.readers rdr = s.readers rdr) :
    IsTimedOut env er prid t rdr ↔ IsTimedOut env er prid s rdr := by
  unfold IsTimedOut statFor
  rw [reader]

theorem IsTaken.congr (reader : t.readers rdr = s.readers rdr) :
    IsTaken env er prid retrylimit t rdr ↔
      IsTaken env er prid retrylimit s rdr := by
  unfold IsTaken statFor
  rw [reader]

/-! ## One turn -/

theorem learnReader_taken {v : Learning}
    (taken : IsTaken env er prid retrylimit v.s rdr) :
    (learnReader env er prid retrylimit v rdr).result = v.result.append rdr ∧
      (learnReader env er prid retrylimit v rdr).timeoutServices =
        v.timeoutServices := by
  rw [learnReader_eq]
  cases found : statFor env er prid v.s rdr with
  | none => exact ⟨rfl, rfl⟩
  | some stat =>
      dsimp only
      by_cases anew : stat.ecmCount < 0 ∨
          stat.ecmCount > env.cfg.lbMaxEcmcount ∧ stat.timeAvg > retrylimit
      · rw [if_pos anew]
        exact ⟨rfl, rfl⟩
      · obtain ⟨zero, why⟩ := (taken stat found).resolve_left anew
        rw [if_neg anew]
        by_cases few : stat.rc = 0 ∧ stat.ecmCount < env.cfg.lbMinEcmcount
        · rw [if_pos few]
          exact ⟨rfl, rfl⟩
        · have plain := why.resolve_left fun less => few ⟨zero, less⟩
          rw [if_neg few, if_pos (.inl zero)]
          have compares := selectReader_compares env
            (v.looked env er prid rdr) rdr stat
          rcases compares.outcome with ⟨other, _⟩ | ⟨_, result, _⟩
          · exact absurd other plain
          · refine ⟨result, compares.timeoutServices.trans (if_neg ?_)⟩
            omega

/-- The turn of a reader that is not taken: it is selected if it can be. -/
structure Passes (env : LbEnv) (er : EcmRequest) (prid : Nat) (v : Learning)
    (rdr : ReaderId) (after : Learning) : Prop where
  result : after.result = v.result
  newStats : after.newStats = v.newStats
  selected : after.selected =
    v.selected ++ (valueFor env er prid v.s rdr).toList
  nlocalReaders : after.nlocalReaders = v.nlocalReaders +
    if (valueFor env er prid v.s rdr).isSome && env.cfg.preferlocalcards &&
      !(v.s.readers rdr).network then 1 else 0
  timeoutServices : ∀ x, x ∈ after.timeoutServices ↔
    x ∈ v.timeoutServices ∨ x = rdr ∧ IsTimedOut env er prid v.s rdr
  same : SameFor env er prid v.s after.s
  others : ∀ r, r ≠ rdr → after.s.readers r = v.s.readers r
  nulltime : after.s.nulltime = v.s.nulltime

/-- The facts of a reader, read off its statistics. -/
theorem isTimedOut_iff {stat : ReaderStat}
    (found : statFor env er prid s rdr = some stat) :
    IsTimedOut env er prid s rdr ↔
      IsEligible env er (s.readers rdr) stat ∧ stat.rc ≥ 5 := by
  constructor
  · rintro ⟨other, same, late⟩
    rw [found] at same
    obtain rfl := Option.some.inj same
    exact late
  · exact fun late => ⟨stat, found, late⟩

theorem valueFor_of_eligible {stat : ReaderStat}
    (found : statFor env er prid s rdr = some stat)
    (eligible : IsEligible env er (s.readers rdr) stat) :
    valueFor env er prid s rdr = some (valueOf env s rdr stat) := by
  unfold valueFor
  rw [found]
  exact if_pos eligible

theorem valueFor_of_not_eligible {stat : ReaderStat}
    (found : statFor env er prid s rdr = some stat)
    (other : ¬ IsEligible env er (s.readers rdr) stat) :
    valueFor env er prid s rdr = none := by
  unfold valueFor
  rw [found]
  exact if_neg other

/-- A reader that can be selected. -/
theorem selectReader_passes (comparing : Comparing env) {v : Learning}
    {stat : ReaderStat} (found : statFor env er prid v.s rdr = some stat)
    (eligible : IsEligible env er (v.s.readers rdr) stat) :
    Passes env er prid v rdr
      (selectReader env (v.looked env er prid rdr) rdr stat) := by
  have looked := @SameFor.getStat env er prid v.s rdr
  have own := readers_getStat_self env.cfg v.s rdr er.caid prid er.srvid
    (int16 er.l)
  have value := valueFor_of_eligible found eligible
  have compares := selectReader_compares env (v.looked env er prid rdr) rdr
    stat
  obtain ⟨_, result, _, selected⟩ := compares.outcome.resolve_right
    fun other => other.1 comparing
  obtain ⟨last, shown⟩ := compares.shown
  have entry : valueOf env (v.looked env er prid rdr).s rdr stat =
      valueOf env v.s rdr stat := by
    unfold valueOf compareValue Learning.looked
    dsimp only
    rw [own]
    rfl
  refine ⟨result, compares.newStats, ?_, ?_, ?_, ?_, ?_, ?_⟩
  · rw [selected, entry, value]
    rfl
  · have network : ((v.looked env er prid rdr).s.readers rdr).network =
        (v.s.readers rdr).network := looked.network rdr
    rw [compares.nlocalReaders, network, value]
    rfl
  · intro x
    rw [compares.timeoutServices, isTimedOut_iff found]
    by_cases late : stat.rc ≥ 5
    · rw [if_pos late, List.mem_cons, or_comm]
      simp only [eligible, late, and_self, and_true]
      rfl
    · rw [if_neg late]
      simp only [late, and_false, or_false]
      rfl
  · rw [shown]
    exact looked.trans (SameFor.setReader _ rfl rfl)
  · intro r apart
    rw [compares.readers_of_ne apart]
    exact readers_getStat apart
  · rw [shown]
    rfl

/-- A reader that cannot be selected is only looked at. -/
theorem looked_passes {v : Learning} {stat : ReaderStat}
    (found : statFor env er prid v.s rdr = some stat)
    (other : ¬ IsEligible env er (v.s.readers rdr) stat) :
    Passes env er prid v rdr (v.looked env er prid rdr) := by
  have value := valueFor_of_not_eligible found other
  refine ⟨rfl, rfl, ?_, ?_, ?_, SameFor.getStat v.s rdr,
    fun r apart => readers_getStat apart, rfl⟩
  · rw [value]
    exact (List.append_nil _).symm
  · rw [value]
    exact (Int.add_zero _).symm
  · intro x
    rw [isTimedOut_iff found]
    simp only [other, false_and, and_false, or_false]
    rfl

theorem learnReader_passes (comparing : Comparing env) {v : Learning}
    (passed : ¬ IsTaken env er prid retrylimit v.s rdr) :
    Passes env er prid v rdr (learnReader env er prid retrylimit v rdr) := by
  unfold IsTaken at passed
  push Not at passed
  obtain ⟨stat, found, kept, enough⟩ := passed
  have notAnew : ¬ (stat.ecmCount < 0 ∨
      stat.ecmCount > env.cfg.lbMaxEcmcount ∧ stat.timeAvg > retrylimit) := by
    omega
  have notFew : ¬ (stat.rc = 0 ∧ stat.ecmCount < env.cfg.lbMinEcmcount) := by
    rintro ⟨zero, less⟩
    have other := enough zero
    omega
  rw [learnReader_eq, found]
  dsimp only
  rw [if_neg notAnew, if_neg notFew]
  by_cases eligible : IsEligible env er (v.s.readers rdr) stat
  · rw [if_pos eligible]
    exact selectReader_passes comparing found eligible
  · rw [if_neg eligible]
    exact looked_passes found eligible

theorem learnReader_timeoutServices (env : LbEnv) (er : EcmRequest)
    (prid : Nat) (retrylimit : Int) (v : Learning) (rdr : ReaderId) :
    (learnReader env er prid retrylimit v rdr).timeoutServices =
        v.timeoutServices ∨
      (learnReader env er prid retrylimit v rdr).timeoutServices =
        rdr :: v.timeoutServices := by
  rcases learnReader_turn env er prid retrylimit v rdr with
    taken | ⟨stat, compares⟩ | passed
  · exact .inl taken.timeoutServices
  · rw [compares.timeoutServices]
    split
    · exact .inr rfl
    · exact .inl rfl
  · rw [passed]
    exact .inl rfl

/-- The other readers are as they were, unless the reader is taken. -/
theorem learnReader_others {v : Learning}
    (passed : ¬ IsTaken env er prid retrylimit v.s rdr) {r : ReaderId}
    (apart : r ≠ rdr) :
    (learnReader env er prid retrylimit v rdr).s.readers r =
      v.s.readers r := by
  unfold IsTaken at passed
  push Not at passed
  obtain ⟨stat, found, kept, enough⟩ := passed
  have looked : (v.looked env er prid rdr).s.readers r = v.s.readers r :=
    readers_getStat apart
  rw [learnReader_eq, found]
  dsimp only
  rw [if_neg (by omega)]
  split
  · exact looked
  · split
    · rw [(selectReader_compares env _ rdr stat).readers_of_ne apart, looked]
    · exact looked

/-! ## The loop -/

/-- The local readers among the selected ones are counted, and no value is
used up. -/
structure Learning.Counts (v : Learning) : Prop where
  nlocalReaders : v.nlocalReaders =
    (v.selected.filter fun stv => !(v.s.readers stv.rdr).network).length
  values : ∀ stv ∈ v.selected, stv.value ≠ 0

theorem valueFor_rdr {stv : StatValue}
    (value : valueFor env er prid s rdr = some stv) :
    stv.rdr = rdr ∧ stv.value ≠ 0 := by
  unfold valueFor at value
  split at value
  · split at value
    · obtain rfl := Option.some.inj value
      exact ⟨rfl, loadedValue_pos _ _⟩
    · cases value
  · cases value

theorem Passes.counts {v w : Learning}
    (prefer : env.cfg.preferlocalcards = true) (counts : v.Counts)
    (passes : Passes env er prid v rdr w) : w.Counts := by
  have network := passes.same.network
  have number := passes.nlocalReaders
  have selected := passes.selected
  rw [prefer, Bool.and_true] at number
  cases value : valueFor env er prid v.s rdr with
  | none =>
      rw [value] at number selected
      rw [Option.toList_none, List.append_nil] at selected
      constructor
      · rw [number, selected, counts.nlocalReaders]
        simp only [network]
        exact Int.add_zero _
      · rw [selected]
        exact counts.values
  | some stv =>
      obtain ⟨rfl, some⟩ := valueFor_rdr value
      rw [value] at number selected
      rw [Option.toList_some] at selected
      constructor
      · rw [number, selected, List.filter_append, List.length_append,
          counts.nlocalReaders]
        simp only [network]
        rcases kind : (v.s.readers stv.rdr).network with _ | _
        · simp [kind]
        · simp [kind]
      · rw [selected]
        intro other member
        rcases List.mem_append.mp member with old | new
        · exact counts.values other old
        · rw [List.mem_singleton.mp new]
          exact some

section Loop

variable {v : Learning} {rdrs : List ReaderId}

/-- Without a limit the loop goes on. -/
theorem learnReader_unlimited (unlimited : v.nreaders < 0) (rdr : ReaderId) :
    (learnReader env er prid retrylimit v rdr).nreaders < 0 := by
  rcases learnReader_spent env er prid retrylimit v rdr with
    ⟨_, same⟩ | ⟨_, taken⟩
  · rw [same]
    exact unlimited
  · omega

theorem learn_unlimited (unlimited : v.nreaders < 0) :
    (learn env er prid retrylimit rdrs v).nreaders < 0 := by
  induction rdrs generalizing v with
  | nil => exact unlimited
  | cons rdr rdrs induction =>
      rw [learn]
      split
      · exact unlimited
      · exact induction (learnReader_unlimited unlimited rdr)

theorem learn_cons (unlimited : v.nreaders < 0) (rdr : ReaderId) :
    learn env er prid retrylimit (rdr :: rdrs) v =
      learn env er prid retrylimit rdrs
        (learnReader env er prid retrylimit v rdr) := by
  rw [learn, if_neg (by omega)]

/-- Only readers of the loop are among those that have timed out. -/
theorem mem_timeoutServices {x : ReaderId}
    (member : x ∈ (learn env er prid retrylimit rdrs v).timeoutServices) :
    x ∈ v.timeoutServices ∨ x ∈ rdrs := by
  induction rdrs generalizing v with
  | nil => exact .inl member
  | cons rdr rdrs induction =>
      rw [learn] at member
      split at member
      · exact .inl member
      · rcases induction member with old | later
        · rcases learnReader_timeoutServices env er prid retrylimit v rdr with
            same | added
          · rw [same] at old
            exact .inl old
          · rw [added] at old
            rcases List.mem_cons.mp old with rfl | before
            · exact .inr List.mem_cons_self
            · exact .inl before
        · exact .inr (List.mem_cons_of_mem rdr later)

theorem result_learn {x : ReaderId} (nonNull : ∀ rdr ∈ rdrs, rdr ≠ 0)
    (plain : ∃ cells, Plain v.result cells) (member : x ∈ objects v.result) :
    x ∈ objects (learn env er prid retrylimit rdrs v).result := by
  induction rdrs generalizing v with
  | nil => exact member
  | cons rdr rdrs induction =>
      obtain ⟨some, others⟩ := List.forall_mem_cons.mp nonNull
      rw [learn]
      split
      · exact member
      · obtain ⟨cells, plain⟩ := plain
        rcases learnReader_spent env er prid retrylimit v rdr with
          ⟨result, _⟩ | ⟨result, _⟩
        · apply induction others
          · exact ⟨cells, result ▸ plain⟩
          · rw [result]
            exact member
        · apply induction others
          · exact ⟨_, result ▸ plain.append some⟩
          · rw [result, plain.objects_append some]
            exact List.mem_append_left _ member

/-- A reader that is taken, and not behind its turn, is none of those that have
timed out. -/
theorem learn_keepsTaken {x : ReaderId} (nonNull : ∀ rdr ∈ rdrs, rdr ≠ 0)
    (plain : ∃ cells, Plain v.result cells) (taken : x ∈ objects v.result)
    (notLate : x ∉ v.timeoutServices) (passed : x ∉ rdrs) :
    ∃ x ∈ objects (learn env er prid retrylimit rdrs v).result,
      x ∉ (learn env er prid retrylimit rdrs v).timeoutServices := by
  refine ⟨x, result_learn nonNull plain taken, ?_⟩
  intro member
  rcases mem_timeoutServices member with old | later
  · exact notLate old
  · exact passed later

/-- If a reader is to be taken, one is that has not only timed out: it, or one
before it for which all statistics are started anew. -/
theorem learn_taken (nonNull : ∀ rdr ∈ rdrs, rdr ≠ 0) (nodup : rdrs.Nodup)
    (unlimited : v.nreaders < 0) (early : ∀ r ∈ rdrs, r ∉ v.timeoutServices)
    (plain : ∃ cells, Plain v.result cells)
    (taken : ∃ rdr ∈ rdrs, IsTaken env er prid retrylimit v.s rdr) :
    ∃ x ∈ objects (learn env er prid retrylimit rdrs v).result,
      x ∉ (learn env er prid retrylimit rdrs v).timeoutServices := by
  induction rdrs generalizing v with
  | nil =>
      obtain ⟨_, none, _⟩ := taken
      cases none
  | cons head rdrs induction =>
      obtain ⟨some, others⟩ := List.forall_mem_cons.mp nonNull
      obtain ⟨once, nodup⟩ := List.nodup_cons.mp nodup
      obtain ⟨earlyHead, earlyRest⟩ := List.forall_mem_cons.mp early
      rw [learn_cons unlimited]
      by_cases here : IsTaken env er prid retrylimit v.s head
      · obtain ⟨result, same⟩ := learnReader_taken here
        obtain ⟨cells, plain⟩ := plain
        apply learn_keepsTaken others ⟨_, result ▸ plain.append some⟩ _ _ once
        · rw [result, plain.objects_append some]
          exact List.mem_append_right _ List.mem_cons_self
        · rw [same]
          exact earlyHead
      · apply induction others nodup (learnReader_unlimited unlimited head)
        · intro r inside late
          have before := earlyRest r inside
          rcases learnReader_timeoutServices env er prid retrylimit v head with
            same | added
          · rw [same] at late
            exact before late
          · rw [added] at late
            rcases List.mem_cons.mp late with rfl | old
            · exact once inside
            · exact before old
        · obtain ⟨cells, plain⟩ := plain
          rcases learnReader_spent env er prid retrylimit v head with
            ⟨result, _⟩ | ⟨result, _⟩
          · exact ⟨cells, result ▸ plain⟩
          · exact ⟨_, result ▸ plain.append some⟩
        · obtain ⟨x, member, taken⟩ := taken
          have inside : x ∈ rdrs := by
            rcases List.mem_cons.mp member with rfl | rest
            · exact absurd taken here
            · exact rest
          have apart : x ≠ head := by
            rintro rfl
            exact once inside
          exact ⟨x, inside,
            (IsTaken.congr (learnReader_others here apart)).mpr taken⟩

/-- What is learned if no reader is taken. -/
structure PassesAll (env : LbEnv) (er : EcmRequest) (prid : Nat)
    (v : Learning) (rdrs : List ReaderId) (after : Learning) : Prop where
  result : after.result = v.result
  newStats : after.newStats = v.newStats
  selected : after.selected =
    v.selected ++ rdrs.filterMap (valueFor env er prid v.s)
  timeoutServices : ∀ x, x ∈ after.timeoutServices ↔
    x ∈ v.timeoutServices ∨ x ∈ rdrs ∧ IsTimedOut env er prid v.s x
  same : SameFor env er prid v.s after.s
  counts : after.Counts

theorem learn_passes (comparing : Comparing env)
    (prefer : env.cfg.preferlocalcards = true) (nodup : rdrs.Nodup)
    (unlimited : v.nreaders < 0) (counts : v.Counts)
    (passed : ∀ rdr ∈ rdrs, ¬ IsTaken env er prid retrylimit v.s rdr) :
    PassesAll env er prid v rdrs (learn env er prid retrylimit rdrs v) := by
  induction rdrs generalizing v with
  | nil =>
      refine ⟨rfl, rfl, (List.append_nil _).symm, ?_, SameFor.refl _, counts⟩
      intro x
      simp [learn]
  | cons head rdrs induction =>
      obtain ⟨once, nodup⟩ := List.nodup_cons.mp nodup
      obtain ⟨passedHead, passedRest⟩ := List.forall_mem_cons.mp passed
      rw [learn_cons unlimited]
      have turn := learnReader_passes comparing passedHead
      have apart {r : ReaderId} (inside : r ∈ rdrs) : r ≠ head := by
        rintro rfl
        exact once inside
      have rest := induction nodup (learnReader_unlimited unlimited head)
        (turn.counts prefer counts) fun r inside => by
          rw [IsTaken.congr (turn.others r (apart inside))]
          exact passedRest r inside
      refine ⟨rest.result.trans turn.result, rest.newStats.trans turn.newStats,
        ?_, ?_, turn.same.trans rest.same, rest.counts⟩
      · have values : rdrs.filterMap (valueFor env er prid
            (learnReader env er prid retrylimit v head).s) =
            rdrs.filterMap (valueFor env er prid v.s) := by
          apply List.filterMap_congr
          intro r inside
          exact valueFor_congr (turn.others r (apart inside)) turn.nulltime
        rw [rest.selected, turn.selected, values, List.filterMap_cons,
          List.append_assoc]
        cases valueFor env er prid v.s head with
        | none => rfl
        | some stv => rfl
      · intro x
        rw [rest.timeoutServices, turn.timeoutServices, or_assoc,
          List.mem_cons]
        apply or_congr_right
        constructor
        · rintro (⟨rfl, late⟩ | ⟨inside, late⟩)
          · exact ⟨.inl rfl, late⟩
          · rw [IsTimedOut.congr (turn.others x (apart inside))] at late
            exact ⟨.inr inside, late⟩
        · rintro ⟨rfl | inside, late⟩
          · exact .inl ⟨rfl, late⟩
          · apply Or.inr
            rw [IsTimedOut.congr (turn.others x (apart inside))]
            exact ⟨inside, late⟩

end Loop

end Oscam.Stat
