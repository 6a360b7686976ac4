import Oscam.Stat.Lookup

/-!
# What one turn of each loop does

The loops of `get_best_reader` go over the readers to learn of them, over the
selected ones to choose the best, and over all again to reopen or retry them.
What one turn does to the variables is said here once.
-/

namespace Oscam.Stat

variable {env : LbEnv} {er : EcmRequest} {prid : Nat} {retrylimit : Int}
  {s t : LbState} {rdr : ReaderId}

/-! ## The record of a reader -/

/-- The record of a reader for a request. -/
def statFor (env : LbEnv) (er : EcmRequest) (prid : Nat) (s : LbState)
    (rdr : ReaderId) : Option ReaderStat :=
  statIn env.cfg (s.readers rdr).lbStat er.caid prid er.srvid (int16 er.l)

theorem readers_getStat_self (cfg : LbCfg) (s : LbState) (rdr : ReaderId)
    (caid prid srvid : Nat) (ecmlen : Int) :
    (s.getStat cfg rdr caid prid srvid ecmlen).1.readers rdr =
      { s.readers rdr with
        lbStat := (getStatNodes cfg (s.readers rdr).lbStat caid prid srvid
          ecmlen).1 } :=
  Function.update_self ..

theorem readers_getStat {cfg : LbCfg} {caid prid srvid : Nat} {ecmlen : Int}
    {r : ReaderId} (apart : r ≠ rdr) :
    (s.getStat cfg rdr caid prid srvid ecmlen).1.readers r = s.readers r :=
  Function.update_of_ne apart ..

theorem statFor_eq (env : LbEnv) (er : EcmRequest) (prid : Nat) (s : LbState)
    (rdr : ReaderId) :
    ((s.getStat env.cfg rdr er.caid prid er.srvid (int16 er.l)).2.bind
      ((s.getStat env.cfg rdr er.caid prid er.srvid (int16 er.l)).1.stat
        rdr)) = statFor env er prid s rdr := by
  unfold LbState.stat
  rw [readers_getStat_self]
  rfl

theorem statFor_congr (same : (t.readers rdr).lbStat = (s.readers rdr).lbStat) :
    statFor env er prid t rdr = statFor env er prid s rdr := by
  unfold statFor
  rw [same]

/-! ## Comparing a reader -/

/-- The readers are compared by a value. -/
def Comparing (env : LbEnv) : Prop :=
  env.cfg.lbMode = lbFastestReaderFirst ∨
    env.cfg.lbMode = lbOldestReaderFirst ∨ env.cfg.lbMode = lbLowestUsagelevel

/-- The value by which readers are compared. -/
def compareValue (env : LbEnv) (s : LbState) (rdr : ReaderId)
    (stat : ReaderStat) : Int :=
  let reader := s.readers rdr
  let weight := if reader.lbWeight ≤ 0 then 100 else reader.lbWeight
  if env.cfg.lbMode = lbFastestReaderFirst then
    (int32 (stat.timeAvg * 100)).tdiv weight
  else if env.cfg.lbMode = lbOldestReaderFirst then
    let last := if reader.lbLast.time = 0 then s.nulltime else reader.lbLast
    int32 (Timeb.since last s.nulltime)
  else (int32 (reader.lbUsagelevel * 100)).tdiv weight

/-- The entry of a selected reader. -/
def valueOf (env : LbEnv) (s : LbState) (rdr : ReaderId) (stat : ReaderStat) :
    StatValue :=
  { rdr := rdr
    value := loadedValue (s.readers rdr) (compareValue env s rdr stat)
    time := stat.timeAvg }

theorem loadedValue_pos (reader : LbReader) (value : Int) :
    loadedValue reader value ≠ 0 := by
  unfold loadedValue
  dsimp only
  generalize (if reader.pending ≠ 0 then _ else _ : Int) = value
  split
  · decide
  · omega

/-- A reader that can be compared with others: the last answer found the
channel, or it has a service or an ident for it. -/
def IsEligible (env : LbEnv) (er : EcmRequest) (reader : LbReader)
    (stat : ReaderStat) : Prop :=
  stat.rc = 0 ∨ hasSrvid env.cfg reader er = true ∨
    hasIdent reader.ftab er = true

instance (reader : LbReader) (stat : ReaderStat) :
    Decidable (IsEligible env er reader stat) :=
  inferInstanceAs (Decidable (_ ∨ _))

/-- What the turn of a reader that can be compared does: it is selected, or
taken if readers are not compared. -/
structure Compares (env : LbEnv) (v : Learning) (rdr : ReaderId)
    (stat : ReaderStat) (after : Learning) : Prop where
  newStats : after.newStats = v.newStats
  nlocalReaders : after.nlocalReaders = v.nlocalReaders +
    if env.cfg.preferlocalcards && !(v.s.readers rdr).network then 1 else 0
  timeoutServices : after.timeoutServices =
    if stat.rc ≥ 5 then rdr :: v.timeoutServices else v.timeoutServices
  shown : ∃ last, after.s =
    v.s.setReader rdr { v.s.readers rdr with lbLast := last }
  outcome :
    (Comparing env ∧ after.result = v.result ∧ after.nreaders = v.nreaders ∧
        after.selected = v.selected ++ [valueOf env v.s rdr stat]) ∨
      (¬ Comparing env ∧ after.result = v.result.append rdr ∧
        after.nreaders = v.nreaders - 1 ∧ after.selected = v.selected)

/-- What is counted before a reader is compared. -/
structure Counted (env : LbEnv) (v : Learning) (rdr : ReaderId)
    (stat : ReaderStat) (w : Learning) : Prop where
  s : w.s = v.s
  result : w.result = v.result
  nreaders : w.nreaders = v.nreaders
  newStats : w.newStats = v.newStats
  selected : w.selected = v.selected
  nlocalReaders : w.nlocalReaders = v.nlocalReaders +
    if env.cfg.preferlocalcards && !(v.s.readers rdr).network then 1 else 0
  timeoutServices : w.timeoutServices =
    if stat.rc ≥ 5 then rdr :: v.timeoutServices else v.timeoutServices

section Counted

variable {v w : Learning} {stat : ReaderStat} {value : Int}

/-- The entry of a reader that shows when it was asked last. -/
theorem Counted.chooseOldest (counted : Counted env v rdr stat w)
    (comparing : Comparing env) (last start : Timeb)
    (same : value = compareValue env v.s rdr stat) :
    let shown := w.s.setReader rdr { w.s.readers rdr with lbLast := last }
    Compares env v rdr stat
      { w with
        s := shown
        newNulltime := start
        selected := w.selected ++
          [{ rdr := rdr, value := loadedValue (shown.readers rdr) value
             time := stat.timeAvg }] } := by
  dsimp only
  have own : (w.s.setReader rdr { w.s.readers rdr with
      lbLast := last }).readers rdr =
        { v.s.readers rdr with lbLast := last } := by
    rw [counted.s]
    exact Function.update_self ..
  refine ⟨counted.newStats, counted.nlocalReaders, counted.timeoutServices,
    ⟨last, ?_⟩, .inl ⟨comparing, counted.result, counted.nreaders, ?_⟩⟩
  · dsimp only
    rw [counted.s]
  · dsimp only
    rw [own, counted.selected, same]
    rfl

/-- The entry of any other reader. -/
theorem Counted.choose (counted : Counted env v rdr stat w)
    (comparing : Comparing env)
    (same : value = compareValue env v.s rdr stat) :
    Compares env v rdr stat
      { w with selected := w.selected ++
          [{ rdr := rdr, value := loadedValue (w.s.readers rdr) value
             time := stat.timeAvg }] } := by
  have self : w.s.setReader rdr { w.s.readers rdr with
      lbLast := (w.s.readers rdr).lbLast } = w.s := w.s.setReader_self rdr
  have chosen := counted.chooseOldest comparing (w.s.readers rdr).lbLast
    w.newNulltime same
  dsimp only at chosen
  rw [self] at chosen
  exact chosen

/-- Without a comparison the reader is taken. -/
theorem Counted.take (counted : Counted env v rdr stat w)
    (plain : ¬ Comparing env) : Compares env v rdr stat (w.take rdr) := by
  refine ⟨counted.newStats, counted.nlocalReaders, counted.timeoutServices,
    ⟨(v.s.readers rdr).lbLast, ?_⟩, .inr ⟨plain, ?_, ?_, counted.selected⟩⟩
  · exact counted.s.trans (v.s.setReader_self rdr).symm
  · exact congrArg (·.append rdr) counted.result
  · exact congrArg (· - 1) counted.nreaders

end Counted

theorem selectReader_compares (env : LbEnv) (v : Learning) (rdr : ReaderId)
    (stat : ReaderStat) :
    Compares env v rdr stat (selectReader env v rdr stat) := by
  unfold selectReader
  dsimp only
  generalize before : (if stat.rc ≥ 5 then _ else _ : Learning) = w
  have counted : Counted env v rdr stat w := by
    rw [← before]
    generalize isLocal : (env.cfg.preferlocalcards &&
      !(v.s.readers rdr).network) = local_
    by_cases late : stat.rc ≥ 5
    · rw [if_pos late]
      cases local_ with
      | false =>
          refine ⟨rfl, rfl, rfl, rfl, rfl, ?_, (if_pos late).symm⟩
          rw [isLocal]
          exact (Int.add_zero _).symm
      | true =>
          refine ⟨rfl, rfl, rfl, rfl, rfl, ?_, (if_pos late).symm⟩
          rw [isLocal]
          rfl
    · rw [if_neg late]
      cases local_ with
      | false =>
          refine ⟨rfl, rfl, rfl, rfl, rfl, ?_, (if_neg late).symm⟩
          rw [isLocal]
          exact (Int.add_zero _).symm
      | true =>
          refine ⟨rfl, rfl, rfl, rfl, rfl, ?_, (if_neg late).symm⟩
          rw [isLocal]
          rfl
  by_cases fastest : env.cfg.lbMode = lbFastestReaderFirst
  · rw [if_pos fastest]
    apply counted.choose (.inl fastest)
    unfold compareValue
    rw [if_pos fastest]
  · rw [if_neg fastest]
    by_cases oldest : env.cfg.lbMode = lbOldestReaderFirst
    · rw [if_pos oldest, ← counted.s]
      generalize isLast : (if (w.s.readers rdr).lbLast.time = 0 then
        w.s.nulltime else (w.s.readers rdr).lbLast) = last
      have value : int32 (Timeb.since last w.s.nulltime) =
          compareValue env v.s rdr stat := by
        unfold compareValue
        rw [if_neg fastest, if_pos oldest, ← counted.s]
        dsimp only
        rw [isLast]
      by_cases first : w.newNulltime.time = 0 ∨
          Timeb.since last w.newNulltime < 0
      · rw [if_pos first]
        exact counted.chooseOldest (.inr (.inl oldest)) last last value
      · rw [if_neg first]
        exact counted.chooseOldest (.inr (.inl oldest)) last w.newNulltime
          value
    · rw [if_neg oldest]
      by_cases usage : env.cfg.lbMode = lbLowestUsagelevel
      · rw [if_pos usage]
        apply counted.choose (.inr (.inr usage))
        unfold compareValue
        rw [if_neg fastest, if_neg oldest]
      · rw [if_neg usage]
        apply counted.take
        rintro (mode | mode | mode)
        · exact fastest mode
        · exact oldest mode
        · exact usage mode

/-- The other readers are as they were. -/
theorem Compares.readers_of_ne {v after : Learning} {stat : ReaderStat}
    (compares : Compares env v rdr stat after) {r : ReaderId}
    (apart : r ≠ rdr) : after.s.readers r = v.s.readers r := by
  obtain ⟨last, shown⟩ := compares.shown
  rw [shown]
  exact Function.update_of_ne apart ..

/-! ## Learning -/

/-- The variables behind the search for the record of a reader. -/
def Learning.looked (env : LbEnv) (er : EcmRequest) (prid : Nat)
    (v : Learning) (rdr : ReaderId) : Learning :=
  { v with
    s := (v.s.getStat env.cfg rdr er.caid prid er.srvid (int16 er.l)).1 }

/-- A turn of the loop, with the record that is found. -/
theorem learnReader_eq (env : LbEnv) (er : EcmRequest) (prid : Nat)
    (retrylimit : Int) (v : Learning) (rdr : ReaderId) :
    learnReader env er prid retrylimit v rdr =
      match statFor env er prid v.s rdr with
      | none =>
          { (v.looked env er prid rdr).take rdr with newStats := true }
      | some stat =>
          if stat.ecmCount < 0 ∨ stat.ecmCount > env.cfg.lbMaxEcmcount ∧
              stat.timeAvg > retrylimit then
            { v.looked env er prid rdr with
              s := resetStat env.cfg er.caid prid er.srvid (int16 er.l)
                (v.looked env er prid rdr).s }.take rdr
          else if stat.rc = 0 ∧ stat.ecmCount < env.cfg.lbMinEcmcount then
            { (v.looked env er prid rdr).take rdr with newStats := true }
          else if IsEligible env er (v.s.readers rdr) stat then
            selectReader env (v.looked env er prid rdr) rdr stat
          else v.looked env er prid rdr := by
  have own := readers_getStat_self env.cfg v.s rdr er.caid prid er.srvid
    (int16 er.l)
  unfold learnReader
  dsimp only
  rw [statFor_eq]
  cases statFor env er prid v.s rdr with
  | none => rfl
  | some stat =>
      dsimp only
      rw [own]
      rfl

/-- A reader is taken while its statistics are read. -/
structure Takes (v : Learning) (rdr : ReaderId) (after : Learning) : Prop where
  result : after.result = v.result.append rdr
  nreaders : after.nreaders = v.nreaders - 1
  selected : after.selected = v.selected
  timeoutServices : after.timeoutServices = v.timeoutServices

/-- A reader is taken, compared, or passed over. -/
theorem learnReader_turn (env : LbEnv) (er : EcmRequest) (prid : Nat)
    (retrylimit : Int) (v : Learning) (rdr : ReaderId) :
    let after := learnReader env er prid retrylimit v rdr
    Takes v rdr after ∨
      (∃ stat, Compares env (v.looked env er prid rdr) rdr stat after) ∨
      after = v.looked env er prid rdr := by
  dsimp only
  rw [learnReader_eq]
  cases statFor env er prid v.s rdr with
  | none => exact .inl ⟨rfl, rfl, rfl, rfl⟩
  | some stat =>
      dsimp only
      split
      · exact .inl ⟨rfl, rfl, rfl, rfl⟩
      · split
        · exact .inl ⟨rfl, rfl, rfl, rfl⟩
        · split
          · exact .inr (.inl ⟨stat, selectReader_compares env _ rdr stat⟩)
          · exact .inr (.inr rfl)

/-! ## Choosing -/

/-- The values after one of them is used up. -/
def useUp (selected : List StatValue) (place : Nat) : List StatValue :=
  selected.modify place fun stv => { stv with value := 0 }

/-- What every turn of the choice counts. -/
structure Uses (v : Choosing) (best : StatValue) (place : Nat)
    (after : Choosing) : Prop where
  n : after.n = v.n + 1
  bestRdr : after.bestRdr = v.bestRdr.or (some best.rdr)
  bestTime : after.bestTime =
    if v.bestRdr.isNone then best.time else v.bestTime
  selected : after.selected = useUp v.selected place

/-- A primary reader is taken, which counts for the local ones or the best ones
unless it has only timed out. -/
structure TakesPrimary (env : LbEnv) (timeoutServices : List ReaderId)
    (v : Choosing) (best : StatValue) (after : Choosing × Bool) : Prop where
  wanted : v.nlocalReaders ≠ 0 ∨ v.nbestReaders ≠ 0
  further : after.2 = true
  result : after.1.result = v.result.append best.rdr
  fallback : after.1.fallback = v.fallback
  nreaders : after.1.nreaders = v.nreaders - 1
  s : after.1.s = v.s.setReader best.rdr
    { v.s.readers best.rdr with lbLast := env.ftime }
  late : best.rdr ∈ timeoutServices →
    after.1.nlocalReaders = v.nlocalReaders ∧
      after.1.nbestReaders = v.nbestReaders

/-- A fallback is taken or the loop ends, because no primary reader is wanted
any more. -/
structure TakesFallback (v : Choosing) (best : StatValue)
    (after : Choosing) : Prop where
  unwanted : v.nlocalReaders = 0 ∧ v.nbestReaders = 0
  still : after.nlocalReaders = 0 ∧ after.nbestReaders = 0
  nreaders : after.nreaders = v.nreaders
  s : after.s = v.s
  outcome :
    (after.result = v.result.append best.rdr ∧
        after.fallback = v.fallback.or (some v.result.fresh)) ∨
      (after.result = v.result ∧ after.fallback = v.fallback)

theorem counted_late {timeoutServices : List ReaderId} {wanted : Int}
    (late : rdr ∈ timeoutServices) :
    counted timeoutServices rdr wanted = wanted :=
  if_pos (List.contains_iff_mem.mpr late)

theorem takeBest_turn (env : LbEnv) (timeoutServices : List ReaderId)
    (v : Choosing) (best : StatValue) (place : Nat) :
    let after := takeBest env timeoutServices v best place
    Uses v best place after.1 ∧
      (TakesPrimary env timeoutServices v best after ∨
        TakesFallback v best after.1) := by
  dsimp only
  unfold takeBest
  dsimp only
  by_cases more : v.nlocalReaders = 0
  · rw [if_neg (not_not.mpr more)]
    by_cases best_ : v.nbestReaders = 0
    · rw [if_neg (not_not.mpr best_)]
      split
      · exact ⟨⟨rfl, rfl, rfl, rfl⟩, .inr ⟨⟨more, best_⟩, ⟨more, best_⟩, rfl,
          rfl, .inl ⟨rfl, rfl⟩⟩⟩
      · exact ⟨⟨rfl, rfl, rfl, rfl⟩, .inr ⟨⟨more, best_⟩, ⟨more, best_⟩, rfl,
          rfl, .inr ⟨rfl, rfl⟩⟩⟩
    · rw [if_pos best_]
      exact ⟨⟨rfl, rfl, rfl, rfl⟩, .inl ⟨.inr best_, rfl, rfl, rfl, rfl, rfl,
        fun late => ⟨rfl, counted_late late⟩⟩⟩
  · rw [if_pos more]
    exact ⟨⟨rfl, rfl, rfl, rfl⟩, .inl ⟨.inl more, rfl, rfl, rfl, rfl, rfl,
      fun late => ⟨counted_late late, rfl⟩⟩⟩

/-! ## Reopening -/

/-- A reader is reopened only if it is not there yet and there is budget
left. -/
theorem reopenReader_cases (env : LbEnv) (er : EcmRequest) (prid : Nat)
    (v : Reopening) (rdr : ReaderId) :
    let after := reopenReader env er prid v rdr
    (after.result = v.result ∧ after.nreaders = v.nreaders) ∨
      ((rdr ∉ objects v.result ∧ v.nreaders ≠ 0) ∧
        after.result = v.result.append rdr ∧
        after.nreaders = v.nreaders - 1) := by
  dsimp only
  unfold reopenReader
  dsimp only
  split
  · split
    · split
      · rename_i due
        refine .inr ⟨⟨?_, due.2.2⟩, rfl, rfl⟩
        exact fun inside => due.2.1 (List.contains_iff_mem.mpr inside)
      · exact .inl ⟨rfl, rfl⟩
    · exact .inl ⟨rfl, rfl⟩
  · exact .inl ⟨rfl, rfl⟩

/-! ## Retrying -/

/-- The condition on which a reader is retried. -/
def isRetried (env : LbEnv) (er : EcmRequest) (prid : Nat) (s : LbState)
    (rdr : ReaderId) : Bool :=
  let (s, place) := s.getStat env.cfg rdr er.caid prid er.srvid (int16 er.l)
  match place.bind (s.stat rdr) with
  | some stat => stat.rc != 0 && (isDue env stat).1
  | none => false

/-- A reader is moved to the front if it is retried, and only its own records
are changed. -/
theorem retryReader_turn (env : LbEnv) (er : EcmRequest) (prid : Nat)
    (v : Reopening) (rdr : ReaderId) :
    ∃ s, (∀ r, r ≠ rdr → s.readers r = v.s.readers r) ∧
      retryReader env er prid v rdr =
        if isRetried env er prid v.s rdr then
          { s := s
            result := (v.result.remove rdr).1.prepend rdr
            nreaders := v.nreaders + (v.result.remove rdr).2 - 1 }
        else { v with s := s } := by
  have looked (r : ReaderId) (apart : r ≠ rdr) :
      (v.s.getStat env.cfg rdr er.caid prid er.srvid
        (int16 er.l)).1.readers r = v.s.readers r := readers_getStat apart
  unfold retryReader isRetried
  generalize v.s.getStat env.cfg rdr er.caid prid er.srvid (int16 er.l) = found
    at looked ⊢
  obtain ⟨t, place⟩ := found
  dsimp only at looked ⊢
  have changed (place : Nat) (change : ReaderStat → ReaderStat) (r : ReaderId)
      (apart : r ≠ rdr) :
      (t.modifyStat rdr place change).readers r = v.s.readers r :=
    (Function.update_of_ne apart ..).trans (looked r apart)
  cases place with
  | none => exact ⟨t, looked, rfl⟩
  | some place =>
      cases known : t.stat rdr place with
      | none => exact ⟨t, looked, by simp [known]⟩
      | some stat =>
          by_cases failed : stat.rc = 0
          · exact ⟨t, looked, by simp [known, failed]⟩
          · by_cases due : (isDue env stat).1 = true
            · refine ⟨t.modifyStat rdr place fun _ =>
                { (isDue env stat).2 with lastReceived := env.time },
                changed place _, ?_⟩
              simp [known, failed, due]
            · refine ⟨t.modifyStat rdr place fun _ => (isDue env stat).2,
                changed place _, ?_⟩
              simp [known, failed, due]

theorem retryReader_result (env : LbEnv) (er : EcmRequest) (prid : Nat)
    (v : Reopening) (rdr : ReaderId) :
    (retryReader env er prid v rdr).result =
      if isRetried env er prid v.s rdr then
        (v.result.remove rdr).1.prepend rdr
      else v.result := by
  obtain ⟨s, _, turn⟩ := retryReader_turn env er prid v rdr
  rw [turn]
  split
  · rfl
  · rfl

theorem retryReader_spent (env : LbEnv) (er : EcmRequest) (prid : Nat)
    (v : Reopening) (rdr : ReaderId) :
    (retryReader env er prid v rdr).nreaders =
      if isRetried env er prid v.s rdr then
        v.nreaders + (v.result.remove rdr).2 - 1
      else v.nreaders := by
  obtain ⟨s, _, turn⟩ := retryReader_turn env er prid v rdr
  rw [turn]
  split
  · rfl
  · rfl

theorem readers_retryReader {v : Reopening} {r : ReaderId} (apart : r ≠ rdr) :
    (retryReader env er prid v rdr).s.readers r = v.s.readers r := by
  obtain ⟨s, others, turn⟩ := retryReader_turn env er prid v rdr
  rw [turn]
  split
  · exact others r apart
  · exact others r apart

end Oscam.Stat
