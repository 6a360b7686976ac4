import Oscam.Stat.BestValue
import Oscam.Stat.Learned

/-!
# Local cards first

With `preferlocalcards` the budget of the best readers goes to the local ones.
A local reader that has only timed out counts as one of them but does not use
the budget up, and no network reader is compared as long as there is budget for
local ones.
-/

namespace Oscam.Stat

variable {env : LbEnv} {er : EcmRequest} {prid : Nat} {l : LList}
  {cells : List Nat} {rdr x : ReaderId} {timeoutServices : List ReaderId}

/-! ## The whole function -/

/-- The variables in front of the loop over the matching readers. -/
def learnStart (env : LbEnv) (s : LbState) (matching : LList) : Learning :=
  { s := s, result := createBehind matching, selected := []
    timeoutServices := []
    nreaders := if env.cfg.lbMaxReaders = 0 then -1 else env.cfg.lbMaxReaders
    newStats := false, nlocalReaders := 0
    newNulltime := { time := 0, millitm := 0 } }

/-- The variables in front of the loop that chooses the best readers. -/
def chooseStart (env : LbEnv) (er : EcmRequest) (learned : Learning) :
    Choosing :=
  let nbest := getNbestReaders env.cfg er
  let nlocal := learned.nlocalReaders
  { s := learned.s, result := learned.result, selected := learned.selected
    nreaders := learned.nreaders
    nlocalReaders := if nlocal > nbest then nbest else nlocal
    nbestReaders := if nlocal > nbest then 0 else nbest - nlocal
    nfbReaders := env.cfg.lbNfbReaders, bestRdr := none, bestTime := 0
    fallback := none, n := 0 }

theorem chooseReaders_eq (env : LbEnv) (s : LbState) (er : EcmRequest)
    (prid : Nat) (matching : LList) :
    chooseReaders env s er prid matching =
      let learned := learn env er prid (getRetrylimit env.cfg er)
        (objects matching) (learnStart env s matching)
      (learned, chooseBest env learned.timeoutServices
        (learned.selected.length + 1) (chooseStart env er learned)) := rfl

/-- The local reader that is compared as the best one. -/
def bestLocal (env : LbEnv) (er : EcmRequest) (prid : Nat) (s : LbState)
    (rdrs : List ReaderId) : Option StatValue :=
  (bestValue true (fun rdr => (s.readers rdr).network)
    (rdrs.filterMap (valueFor env er prid s)).zipIdx none).map (·.1)

/-- The condition on which a primary reader has not only timed out: one is taken
while the statistics are read; or no local reader can be selected; or one that
can has not only timed out; or the best local time is over the retry limit, and
one is retried that can not be selected after time-outs. -/
def LocalFair (env : LbEnv) (er : EcmRequest) (prid : Nat) (s : LbState)
    (rdrs : List ReaderId) : Prop :=
  (∃ rdr ∈ rdrs, IsTaken env er prid (getRetrylimit env.cfg er) s rdr) ∨
    (∀ rdr ∈ rdrs, valueFor env er prid s rdr ≠ none →
      (s.readers rdr).network = true) ∨
    (∃ rdr ∈ rdrs, valueFor env er prid s rdr ≠ none ∧
      (s.readers rdr).network = false ∧ ¬ IsTimedOut env er prid s rdr) ∨
    (∃ best, bestLocal env er prid s rdrs = some best ∧ best.time ≠ 0 ∧
        best.time > getRetrylimit env.cfg er) ∧
      ∃ rdr ∈ rdrs, isRetried env er prid s rdr = true ∧
        ¬ IsTimedOut env er prid s rdr

theorem reopenReaders_counted {matching : LList} {learned : Learning}
    {chosen : Choosing} (some : chosen.n ≠ 0) (best : chosen.bestRdr ≠ none) :
    (RetriesSlow env er matching learned chosen →
        (reopenReaders env er prid matching learned chosen).result =
          (retry env er prid (objects matching)
            { s := chosen.s, result := chosen.result
              nreaders := chosen.nreaders }).result) ∧
      (¬ RetriesSlow env er matching learned chosen →
        (reopenReaders env er prid matching learned chosen).result =
          chosen.result) := by
  unfold reopenReaders
  simp only [if_neg some, best, false_or]
  constructor
  · intro slow
    rw [if_pos ⟨slow.oldStats, slow.fewer⟩, if_pos slow.slow]
  · intro fast
    split
    · rename_i due
      split
      · rename_i slow
        exact absurd ⟨due.1, due.2, slow⟩ fast
      · rfl
    · rfl

theorem retried_asks_iff {matching : LList} {learned : Learning}
    {chosen : Choosing} (nonNull : ∀ rdr ∈ objects matching, rdr ≠ 0)
    (plain : ∃ cells, Plain chosen.result cells)
    (some : chosen.n ≠ 0 ∧ chosen.bestRdr ≠ none)
    (late : chosen.fallback = none ∧
      ∀ rdr ∈ objects chosen.result, rdr ∈ learned.timeoutServices) :
    (∃ rdr ∈ primaryReaders
        (reopenReaders env er prid matching learned chosen).result
        chosen.fallback, rdr ∉ learned.timeoutServices) ↔
      RetriesSlow env er matching learned chosen ∧
        ∃ rdr ∈ retriedReaders env er prid (objects matching)
            { s := chosen.s, result := chosen.result
              nreaders := chosen.nreaders },
          rdr ∉ learned.timeoutServices := by
  obtain ⟨without, taken⟩ := late
  obtain ⟨slowly, else_⟩ := @reopenReaders_counted env er prid matching learned
    chosen some.1 some.2
  rw [without]
  by_cases slow : RetriesSlow env er matching learned chosen
  · rw [slowly slow, and_iff_right slow]
    have behind : ∃ cells, Plain (retry env er prid (objects matching)
        { s := chosen.s, result := chosen.result
          nreaders := chosen.nreaders }).result cells :=
      plain_retry nonNull plain
    obtain ⟨cells, whole⟩ := behind
    constructor
    · rintro ⟨x, member, notLate⟩
      rw [primaryReaders_none whole] at member
      rcases objects_retry nonNull plain member with retried | before
      · exact ⟨x, retried, notLate⟩
      · exact absurd (taken x before) notLate
    · rintro ⟨x, retried, notLate⟩
      refine ⟨x, ?_, notLate⟩
      exact primaryReaders_retry nonNull plain (fun node none => by cases none)
        (.inr retried)
  · rw [else_ slow]
    apply iff_of_false
    · rintro ⟨x, member, notLate⟩
      obtain ⟨cells, whole⟩ := plain
      rw [primaryReaders_none whole] at member
      exact notLate (taken x member)
    · exact fun both => slow both.1

section Main

variable {s : LbState} {matching : LList}

section Choosing

variable {learned : Learning} {matching : LList}

theorem chooseStart_wanted (wanted : 1 ≤ getNbestReaders env.cfg er) :
    (chooseStart env er learned).nlocalReaders ≠ 0 ∨
      (chooseStart env er learned).nbestReaders ≠ 0 := by
  unfold chooseStart
  dsimp only
  split
  · exact .inl (by omega)
  · by_cases none : learned.nlocalReaders = 0
    · exact .inr (by omega)
    · exact .inl none

/-- Local readers are wanted exactly if some are selected. -/
theorem chooseStart_local (counts : learned.Counts)
    (wanted : 1 ≤ getNbestReaders env.cfg er) :
    (chooseStart env er learned).nlocalReaders = 0 ↔
      ∀ stv ∈ learned.selected,
        (learned.s.readers stv.rdr).network = true := by
  have none : (chooseStart env er learned).nlocalReaders = 0 ↔
      learned.nlocalReaders = 0 := by
    unfold chooseStart
    dsimp only
    split
    · omega
    · exact Iff.rfl
  rw [none, counts.nlocalReaders, Int.natCast_eq_zero, List.length_eq_zero_iff,
    List.filter_eq_nil_iff]
  apply forall_congr'
  intro stv
  apply imp_congr_right
  intro _
  rw [Bool.not_eq_true, Bool.not_eq_false']

theorem chooseStart_built
    (first : Built (objects matching) learned.result
      (learned.selected.map (·.rdr))) :
    Built (objects matching) (chooseStart env er learned).result
      (openReaders (chooseStart env er learned).selected) := by
  refine ⟨first.plain, fun rdr member => first.known rdr ?_⟩
  exact ((openReaders_sublist learned.selected).append_left _).subset member

/-- A selected reader that has not only timed out is open, unless it is a
network reader and local ones are wanted. -/
theorem chooseStart_asks (nonNull : ∀ rdr ∈ objects matching, rdr ≠ 0)
    (first : Built (objects matching) learned.result
      (learned.selected.map (·.rdr)))
    (unlimited : learned.nreaders < 0)
    (wanted : 1 ≤ getNbestReaders env.cfg er) (counts : learned.Counts)
    {stv : StatValue} (member : stv ∈ learned.selected)
    (working : stv.rdr ∉ learned.timeoutServices)
    (eligible : (chooseStart env er learned).nlocalReaders ≠ 0 →
      (learned.s.readers stv.rdr).network = false) :
    let chosen := chooseBest env learned.timeoutServices
      (learned.selected.length + 1) (chooseStart env er learned)
    ∃ x ∈ primaryReaders chosen.result chosen.fallback,
      x ∉ learned.timeoutServices := by
  apply chooseBest_asks nonNull (chooseStart_built first) rfl unlimited
    (chooseStart_wanted wanted)
  · exact ⟨stv, member, counts.values stv member, working, eligible⟩
  · have fewer := (openReaders_sublist learned.selected).length_le
    rw [List.length_map] at fewer
    exact Nat.lt_succ_of_le fewer

end Choosing

/-- A primary reader that is chosen and has not only timed out stays. -/
theorem asks_reopenReaders {matching : LList} {learned : Learning}
    {chosen : Choosing} (nonNull : ∀ rdr ∈ objects matching, rdr ≠ 0)
    (plain : ∃ cells, Plain chosen.result cells) (held : chosen.Held)
    (begun : chosen.Begun)
    (asked : ∃ rdr ∈ primaryReaders chosen.result chosen.fallback,
      rdr ∉ learned.timeoutServices) :
    ∃ rdr ∈ primaryReaders
        (reopenReaders env er prid matching learned chosen).result
        chosen.fallback, rdr ∉ learned.timeoutServices := by
  obtain ⟨x, member, notLate⟩ := asked
  exact ⟨x, primaryReaders_reopenReaders nonNull plain held begun member,
    notLate⟩

/-! ### Which readers are retried -/

theorem isRetried_eq (env : LbEnv) (er : EcmRequest) (prid : Nat)
    (s : LbState) (rdr : ReaderId) :
    isRetried env er prid s rdr =
      match statFor env er prid s rdr with
      | some stat => stat.rc != 0 && (isDue env stat).1
      | none => false := by
  have looked := statFor_eq env er prid s rdr
  unfold isRetried
  dsimp only
  cases found : statFor env er prid s rdr with
  | none => simp only [looked, found]
  | some stat => simp only [looked, found]

theorem isRetried_congr {t : LbState}
    (same : statFor env er prid t rdr = statFor env er prid s rdr) :
    isRetried env er prid t rdr = isRetried env er prid s rdr := by
  rw [isRetried_eq, isRetried_eq, same]

/-- Without a limit all readers that are due are retried. -/
theorem retriedReaders_eq {all rdrs : List ReaderId}
    (nonNull : ∀ rdr ∈ all, rdr ≠ 0) (members : ∀ rdr ∈ rdrs, rdr ∈ all)
    (nodup : rdrs.Nodup) {v : Reopening} (built : Built all v.result [])
    (distinct : (objects v.result).Nodup) (unlimited : v.nreaders < 0) :
    retriedReaders env er prid rdrs v =
      rdrs.filter (isRetried env er prid v.s) := by
  induction rdrs generalizing v with
  | nil => rfl
  | cons rdr rdrs induction =>
      obtain ⟨own, others⟩ := List.forall_mem_cons.mp members
      obtain ⟨once, nodup⟩ := List.nodup_cons.mp nodup
      obtain ⟨next, distinct'⟩ := @retryReader_built env er prid all nonNull
        rdr v built distinct own
      have left : (retryReader env er prid v rdr).nreaders < 0 := by
        rw [retryReader_spent]
        split
        · obtain ⟨⟨cells, plain⟩, _⟩ := built
          have found := remove_found plain rdr
          rw [plain.objects_remove] at found
          have parts := List.length_eq_countP_add_countP (· == rdr)
            (l := objects v.result)
          have single : (objects v.result).countP (· == rdr) ≤ 1 :=
            List.nodup_iff_count_le_one.mp distinct rdr
          have same : (objects v.result).countP (fun x => ¬ (x == rdr) = true) =
              ((objects v.result).filter (· != rdr)).length := by
            rw [← List.countP_eq_length_filter]
            apply List.countP_congr
            intro other _
            simp
          omega
        · exact unlimited
      have rest := induction others nodup next distinct' left
      have still : rdrs.filter (isRetried env er prid
          (retryReader env er prid v rdr).s) =
            rdrs.filter (isRetried env er prid v.s) := by
        apply List.filter_congr
        intro other inside
        have apart : other ≠ rdr := by
          rintro rfl
          exact once inside
        apply isRetried_congr
        apply statFor_congr
        rw [readers_retryReader apart]
      rw [retriedReaders, if_neg (by omega), rest, still, List.filter_cons]

/-! ### What is chosen -/

theorem chooseBest_same {fuel : Nat} {v : Choosing} :
    SameFor env er prid v.s (chooseBest env timeoutServices fuel v).s := by
  apply @chooseBest_keeps env timeoutServices
    (fun w => SameFor env er prid v.s w.s)
  · intro w best place _ _ same
    refine same.trans ?_
    obtain ⟨_, primary | last⟩ := takeBest_turn env timeoutServices w best place
    · rw [primary.s]
      exact SameFor.setReader _ rfl rfl
    · rw [last.s]
      exact SameFor.refl _
  · exact SameFor.refl _

/-- The best time is that of the reader compared first. -/
theorem chooseBest_bestTime {fuel : Nat} {v : Choosing} {best : StatValue}
    {place : Nat} (left : v.nreaders ≠ 0) (begun : v.bestRdr = none)
    (found : bestValue (v.nlocalReaders != 0)
      (fun rdr => (v.s.readers rdr).network) v.selected.zipIdx none =
        some (best, place)) :
    (chooseBest env timeoutServices (fuel + 1) v).bestTime = best.time := by
  have first : (takeBest env timeoutServices v best place).1.bestRdr =
      some best.rdr ∧
        (takeBest env timeoutServices v best place).1.bestTime =
          best.time := by
    obtain ⟨uses, _⟩ := takeBest_turn env timeoutServices v best place
    rw [uses.bestRdr, uses.bestTime, begun]
    exact ⟨rfl, rfl⟩
  rw [chooseBest, if_neg left, found]
  dsimp only
  split
  · have kept := @chooseBest_keeps env timeoutServices
      (fun w => w.bestRdr = some best.rdr ∧ w.bestTime = best.time) fuel
      (takeBest env timeoutServices v best place).1
      (by
        intro w other place _ _ both
        obtain ⟨uses, _⟩ := takeBest_turn env timeoutServices w other place
        rw [uses.bestRdr, uses.bestTime, both.1]
        exact ⟨rfl, both.2⟩) first
    exact kept.2
  · exact first.2

theorem chooseBest_unlimited {fuel : Nat} {v : Choosing}
    (unlimited : v.nreaders < 0) :
    (chooseBest env timeoutServices fuel v).nreaders < 0 := by
  apply @chooseBest_keeps env timeoutServices (fun w => w.nreaders < 0)
  · intro w best place _ _ unlimited
    rcases takeBest_spent env timeoutServices w best place with
      ⟨_, _, taken, _⟩ | ⟨_, _, same, _⟩
    · omega
    · omega
  · exact unlimited

theorem count_objects (formed : LList.WellFormed l cells) :
    l.count = (objects l).length := by
  rw [objects, formed.cells_eq, List.length_map, formed.counted]

/-- A list that misses a matching reader is shorter. -/
theorem count_lt {matching : LList} {all : List Nat}
    (formed : LList.WellFormed matching all)
    (built : Built (objects matching) l []) (distinct : (objects l).Nodup)
    (member : rdr ∈ objects matching) (missed : rdr ∉ objects l) :
    l.count < matching.count := by
  obtain ⟨⟨cells, plain⟩, known⟩ := built
  rw [List.append_nil] at known
  have together : (rdr :: objects l).Subperm (objects matching) := by
    apply List.Nodup.subperm (List.nodup_cons.mpr ⟨missed, distinct⟩)
    intro x inside
    rcases List.mem_cons.mp inside with rfl | inside
    · exact member
    · exact known x inside
  have fewer := together.length_le
  rw [List.length_cons] at fewer
  rw [count_objects plain.toWellFormed, count_objects formed]
  omega

theorem exists_valueFor {rdrs : List ReaderId} {p : ReaderId → Prop} :
    (∃ stv ∈ rdrs.filterMap (valueFor env er prid s), p stv.rdr) ↔
      ∃ rdr ∈ rdrs, valueFor env er prid s rdr ≠ none ∧ p rdr := by
  constructor
  · rintro ⟨stv, member, holds⟩
    obtain ⟨rdr, inside, value⟩ := List.mem_filterMap.mp member
    obtain ⟨rfl, _⟩ := valueFor_rdr value
    exact ⟨_, inside, Option.ne_none_iff_exists'.mpr ⟨stv, value⟩, holds⟩
  · rintro ⟨rdr, inside, some, holds⟩
    obtain ⟨stv, value⟩ := Option.ne_none_iff_exists'.mp some
    refine ⟨stv, List.mem_filterMap.mpr ⟨rdr, inside, value⟩, ?_⟩
    rw [(valueFor_rdr value).1]
    exact holds

/-- The condition in the terms of what was chosen, if no reader was taken and
all local readers that are selected have only timed out. -/
theorem retries_iff {s : LbState} {matching : LList} {learned : Learning}
    {chosen : Choosing}
    (nonNull : ∀ rdr ∈ objects matching, rdr ≠ 0)
    (nodup : (objects matching).Nodup)
    (built : Built (objects matching) chosen.result [])
    (distinct : (objects chosen.result).Nodup)
    (left : chosen.nreaders < 0) (oldStats : learned.newStats = false)
    (fewer : chosen.result.count < matching.count)
    (same : SameFor env er prid s chosen.s)
    (late : ∀ x, x ∈ learned.timeoutServices ↔
      x ∈ objects matching ∧ IsTimedOut env er prid s x)
    {best : StatValue}
    (first : bestLocal env er prid s (objects matching) = some best)
    (time : chosen.bestTime = best.time) :
    (RetriesSlow env er matching learned chosen ∧
        ∃ rdr ∈ retriedReaders env er prid (objects matching)
            { s := chosen.s, result := chosen.result
              nreaders := chosen.nreaders },
          rdr ∉ learned.timeoutServices) ↔
      (∃ best, bestLocal env er prid s (objects matching) = some best ∧
          best.time ≠ 0 ∧ best.time > getRetrylimit env.cfg er) ∧
        ∃ rdr ∈ objects matching, isRetried env er prid s rdr = true ∧
          ¬ IsTimedOut env er prid s rdr := by
  have slow : RetriesSlow env er matching learned chosen ↔
      ∃ best, bestLocal env er prid s (objects matching) = some best ∧
        best.time ≠ 0 ∧ best.time > getRetrylimit env.cfg er := by
    constructor
    · intro slow
      have due := slow.slow
      rw [time] at due
      exact ⟨best, first, due⟩
    · rintro ⟨other, same, due⟩
      rw [first] at same
      obtain rfl := Option.some.inj same
      rw [← time] at due
      exact ⟨oldStats, fewer, due⟩
  rw [slow, @retriedReaders_eq env er prid (objects matching)
    (objects matching) nonNull (fun _ same => same) nodup
    { s := chosen.s, result := chosen.result, nreaders := chosen.nreaders }
    built distinct left]
  apply and_congr_right
  intro _
  apply exists_congr
  intro rdr
  rw [List.mem_filter, isRetried_congr (same.statFor rdr), late, and_assoc]
  apply and_congr_right
  intro inside
  rw [and_iff_right inside]

/-- What is learned and chosen of readers none of which is taken while the
statistics are read. -/
structure Compared (env : LbEnv) (er : EcmRequest) (prid : Nat) (s : LbState)
    (matching : LList) (learned : Learning) (chosen : Choosing) : Prop where
  isChosen : chooseBest env learned.timeoutServices
    (learned.selected.length + 1) (chooseStart env er learned) = chosen
  formed : ∃ all, LList.WellFormed matching all
  nodup : (objects matching).Nodup
  built : Built (objects matching) chosen.result []
  distinct : (objects chosen.result).Nodup
  held : chosen.Held
  begun : chosen.Begun
  first : Built (objects matching) learned.result
    (learned.selected.map (·.rdr))
  left : learned.nreaders < 0
  wanted : 1 ≤ getNbestReaders env.cfg er
  passes : PassesAll env er prid (learnStart env s matching)
    (objects matching) learned

namespace Compared

variable {matching : LList} {learned : Learning} {chosen : Choosing}

theorem nonNull (compared : Compared env er prid s matching learned chosen) :
    ∀ rdr ∈ objects matching, rdr ≠ 0 :=
  let ⟨_, formed⟩ := compared.formed
  objects_nonNull formed

theorem network (compared : Compared env er prid s matching learned chosen)
    (r : ReaderId) :
    (learned.s.readers r).network = (s.readers r).network :=
  compared.passes.same.network r

theorem selected (compared : Compared env er prid s matching learned chosen) :
    learned.selected =
      (objects matching).filterMap (valueFor env er prid s) :=
  compared.passes.selected

theorem mem_timeoutServices
    (compared : Compared env er prid s matching learned chosen)
    (x : ReaderId) : x ∈ learned.timeoutServices ↔
      x ∈ objects matching ∧ IsTimedOut env er prid s x :=
  (compared.passes.timeoutServices x).trans (or_iff_right List.not_mem_nil)

theorem mem_selected (compared : Compared env er prid s matching learned chosen)
    {stv : StatValue} (member : rdr ∈ objects matching)
    (value : valueFor env er prid s rdr = some stv) :
    stv ∈ learned.selected := by
  rw [compared.selected]
  exact List.mem_filterMap.mpr ⟨rdr, member, value⟩

/-- What is chosen stays, and an open reader is chosen. -/
theorem asks (compared : Compared env er prid s matching learned chosen)
    {stv : StatValue} (member : stv ∈ learned.selected)
    (notLate : stv.rdr ∉ learned.timeoutServices)
    (eligible : (chooseStart env er learned).nlocalReaders ≠ 0 →
      (learned.s.readers stv.rdr).network = false) :
    ∃ rdr ∈ primaryReaders
        (reopenReaders env er prid matching learned chosen).result
        chosen.fallback, rdr ∉ learned.timeoutServices := by
  apply asks_reopenReaders compared.nonNull compared.built.plain compared.held
    compared.begun
  rw [← compared.isChosen]
  exact chooseStart_asks compared.nonNull compared.first compared.left
    compared.wanted compared.passes.counts member notLate eligible

/-- A working reader is selected and has not timed out. -/
theorem working (compared : Compared env er prid s matching learned chosen)
    (member : rdr ∈ objects matching) (working : Working env er prid s rdr) :
    rdr ∉ learned.timeoutServices ∧
      ∃ stv ∈ learned.selected, stv.rdr = rdr := by
  obtain ⟨stat, found, zero, _⟩ := working
  constructor
  · rw [compared.mem_timeoutServices]
    rintro ⟨_, other, same, _, late⟩
    rw [found] at same
    obtain rfl := Option.some.inj same
    omega
  · have value := valueFor_of_eligible found (.inl zero)
    exact ⟨_, compared.mem_selected member value, rfl⟩

/-- Without local readers the working one is asked. -/
theorem asks_far (compared : Compared env er prid s matching learned chosen)
    (member : rdr ∈ objects matching) (working : Working env er prid s rdr)
    (far : ∀ rdr ∈ objects matching, valueFor env er prid s rdr ≠ none →
      (s.readers rdr).network = true) :
    ∃ rdr ∈ primaryReaders
        (reopenReaders env er prid matching learned chosen).result
        chosen.fallback, rdr ∉ learned.timeoutServices := by
  obtain ⟨notLate, stv, entry, rfl⟩ := compared.working member working
  apply compared.asks entry notLate
  intro more
  refine absurd ?_ more
  rw [chooseStart_local compared.passes.counts compared.wanted]
  intro stv inside
  rw [compared.selected] at inside
  obtain ⟨x, here, value⟩ := List.mem_filterMap.mp inside
  obtain ⟨rfl, _⟩ := valueFor_rdr value
  rw [compared.network]
  exact far _ here (Option.ne_none_iff_exists'.mpr ⟨stv, value⟩)

/-- A local reader that has not only timed out is asked. -/
theorem asks_local (compared : Compared env er prid s matching learned chosen)
    (fine : ∃ rdr ∈ objects matching, valueFor env er prid s rdr ≠ none ∧
      (s.readers rdr).network = false ∧ ¬ IsTimedOut env er prid s rdr) :
    ∃ rdr ∈ primaryReaders
        (reopenReaders env er prid matching learned chosen).result
        chosen.fallback, rdr ∉ learned.timeoutServices := by
  obtain ⟨x, here, some, near, inTime⟩ := fine
  obtain ⟨stv, value⟩ := Option.ne_none_iff_exists'.mp some
  obtain ⟨rfl, _⟩ := valueFor_rdr value
  apply compared.asks (compared.mem_selected here value)
  · rw [compared.mem_timeoutServices]
    exact fun both => inTime both.2
  · intro _
    rw [compared.network]
    exact near

/-- The best local reader is compared first if local readers are wanted. -/
theorem bestTime (compared : Compared env er prid s matching learned chosen)
    (more : (chooseStart env er learned).nlocalReaders ≠ 0)
    {stv : StatValue} (member : stv ∈ learned.selected)
    (isLocal : (learned.s.readers stv.rdr).network = false) :
    ∃ best, bestLocal env er prid s (objects matching) = some best ∧
      chosen.bestTime = best.time := by
  have network : (fun rdr => (learned.s.readers rdr).network) =
      fun rdr => (s.readers rdr).network := funext compared.network
  have onlyLocal : ((chooseStart env er learned).nlocalReaders != 0) = true :=
    by simpa using more
  obtain ⟨i, inside, same⟩ := List.mem_iff_getElem.mp member
  have entry : (stv, i) ∈ learned.selected.zipIdx := by
    rw [List.mem_zipIdx_iff_getElem?, List.getElem?_eq_getElem inside, same]
  have some : bestValue true (fun rdr => (learned.s.readers rdr).network)
      learned.selected.zipIdx none ≠ none :=
    bestValue_ne_none entry (compared.passes.counts.values stv member)
      (by simpa using isLocal)
  obtain ⟨⟨best, place⟩, found⟩ := Option.ne_none_iff_exists'.mp some
  refine ⟨best, ?_, ?_⟩
  · unfold bestLocal
    rw [← network, ← compared.selected, found]
    rfl
  · rw [← compared.isChosen]
    apply @chooseBest_bestTime env learned.timeoutServices _
      (chooseStart env er learned) best place (Int.ne_of_lt compared.left) rfl
    rw [onlyLocal]
    exact found

/-- If all local readers have only timed out, a reader that has not is asked
exactly if the best of them is slow and one is retried. -/
theorem asks_iff_of_late
    (compared : Compared env er prid s matching learned chosen)
    (member : rdr ∈ objects matching) (working : Working env er prid s rdr)
    (someLocal : ∃ rdr ∈ objects matching,
      valueFor env er prid s rdr ≠ none ∧ (s.readers rdr).network = false)
    (late : ∀ rdr ∈ objects matching, valueFor env er prid s rdr ≠ none →
      (s.readers rdr).network = false → IsTimedOut env er prid s rdr) :
    (∃ rdr ∈ primaryReaders
        (reopenReaders env er prid matching learned chosen).result
        chosen.fallback, rdr ∉ learned.timeoutServices) ↔
      (∃ best, bestLocal env er prid s (objects matching) = some best ∧
          best.time ≠ 0 ∧ best.time > getRetrylimit env.cfg er) ∧
        ∃ rdr ∈ objects matching, isRetried env er prid s rdr = true ∧
          ¬ IsTimedOut env er prid s rdr := by
  have counts := compared.passes.counts
  -- a local reader is selected, so that local ones are wanted
  rw [← exists_valueFor, ← compared.selected] at someLocal
  obtain ⟨stv, inside, isLocal⟩ := someLocal
  rw [← compared.network] at isLocal
  have more : (chooseStart env er learned).nlocalReaders ≠ 0 := by
    rw [Ne, chooseStart_local counts compared.wanted]
    intro none
    exact Bool.false_ne_true (isLocal.symm.trans (none stv inside))
  have localLate : ∀ stv ∈ learned.selected,
      (learned.s.readers stv.rdr).network = false →
        stv.rdr ∈ learned.timeoutServices := by
    intro stv inside near
    rw [compared.selected] at inside
    obtain ⟨x, here, value⟩ := List.mem_filterMap.mp inside
    obtain ⟨rfl, _⟩ := valueFor_rdr value
    rw [compared.network] at near
    rw [compared.mem_timeoutServices]
    exact ⟨here, late _ here (Option.ne_none_iff_exists'.mpr ⟨stv, value⟩)
      near⟩
  have onlyLate : ∀ rdr ∈ objects learned.result,
      rdr ∈ learned.timeoutServices := by
    have empty : objects learned.result = [] := by
      rw [compared.passes.result]
      exact (Plain.createBehind matching).objects_eq
    rw [empty]
    exact fun _ none => by cases none
  have lateChosen := @chooseBest_late env learned.timeoutServices
    (objects matching) compared.nonNull (learned.selected.length + 1)
    (chooseStart env er learned) (chooseStart_built compared.first) rfl more
    onlyLate localLate
  have some := @chooseBest_counted env learned.timeoutServices
    learned.selected.length (chooseStart env er learned) stv
    (Int.ne_of_lt compared.left) inside (counts.values stv inside)
    fun _ => isLocal
  have unlimited := @chooseBest_unlimited env learned.timeoutServices
    (learned.selected.length + 1) (chooseStart env er learned) compared.left
  have same : SameFor env er prid s (chooseBest env learned.timeoutServices
      (learned.selected.length + 1) (chooseStart env er learned)).s :=
    compared.passes.same.trans (@chooseBest_same env er prid
      learned.timeoutServices _ (chooseStart env er learned))
  rw [compared.isChosen] at lateChosen some unlimited same
  obtain ⟨best, found, time⟩ := compared.bestTime more inside isLocal
  obtain ⟨_, formed⟩ := compared.formed
  have notLate := (compared.working member working).1
  have fewer : chosen.result.count < matching.count :=
    count_lt formed compared.built compared.distinct member fun here =>
      notLate (lateChosen.2 rdr here)
  rw [retried_asks_iff compared.nonNull compared.built.plain some lateChosen]
  exact retries_iff compared.nonNull compared.nodup compared.built
    compared.distinct unlimited compared.passes.newStats fewer same
    compared.mem_timeoutServices found time

theorem asks_iff (compared : Compared env er prid s matching learned chosen)
    (member : rdr ∈ objects matching) (working : Working env er prid s rdr)
    (passed : ∀ rdr ∈ objects matching,
      ¬ IsTaken env er prid (getRetrylimit env.cfg er) s rdr) :
    (∃ rdr ∈ primaryReaders
        (reopenReaders env er prid matching learned chosen).result
        chosen.fallback, rdr ∉ learned.timeoutServices) ↔
      LocalFair env er prid s (objects matching) := by
  by_cases far : ∀ rdr ∈ objects matching,
      valueFor env er prid s rdr ≠ none → (s.readers rdr).network = true
  · exact iff_of_true (compared.asks_far member working far) (.inr (.inl far))
  · by_cases fine : ∃ rdr ∈ objects matching,
        valueFor env er prid s rdr ≠ none ∧
          (s.readers rdr).network = false ∧ ¬ IsTimedOut env er prid s rdr
    · exact iff_of_true (compared.asks_local fine) (.inr (.inr (.inl fine)))
    · have untaken : ¬ ∃ rdr ∈ objects matching,
          IsTaken env er prid (getRetrylimit env.cfg er) s rdr := by
        rintro ⟨x, here, taken⟩
        exact passed x here taken
      unfold LocalFair
      rw [or_iff_right untaken, or_iff_right far, or_iff_right fine]
      push Not at far fine
      obtain ⟨x, here, some, near⟩ := far
      rw [ne_eq, Bool.not_eq_true] at near
      exact compared.asks_iff_of_late member working ⟨x, here, some, near⟩ fine

end Compared

/-- A working reader is taken, or readers are compared. -/
theorem Working.comparing (working : Working env er prid s rdr)
    {retrylimit : Int} (passed : ¬ IsTaken env er prid retrylimit s rdr) :
    Comparing env := by
  obtain ⟨stat, found, zero, _⟩ := working
  by_contra plain
  apply passed
  intro other same
  rw [found] at same
  obtain rfl := Option.some.inj same
  exact .inr ⟨zero, .inr plain⟩

theorem chooseReaders_asks_iff {all : List Nat}
    (formed : LList.WellFormed matching all)
    (nodup : (objects matching).Nodup)
    (prefer : env.cfg.preferlocalcards = true)
    (unlimited : env.cfg.lbMaxReaders = 0)
    (wanted : 1 ≤ getNbestReaders env.cfg er)
    (selectable : ∃ rdr ∈ objects matching, Working env er prid s rdr) :
    (∃ rdr ∈ primaryReaders
        (reopenReaders env er prid matching
          (chooseReaders env s er prid matching).1
          (chooseReaders env s er prid matching).2).result
        (chooseReaders env s er prid matching).2.fallback,
      rdr ∉ (chooseReaders env s er prid matching).1.timeoutServices) ↔
      LocalFair env er prid s (objects matching) := by
  have nonNull := objects_nonNull formed
  obtain ⟨chosenBuilt, ⟨_, perm, sub⟩, chosenHeld⟩ :=
    @chooseReaders_built env er prid s matching nonNull
  have distinct : (objects (chooseReaders env s er prid
      matching).2.result).Nodup := perm.nodup_iff.mp (nodup.sublist sub)
  have begun : (chooseReaders env s er prid matching).2.Begun :=
    chooseBest_begun fun other => absurd rfl other
  have start := Plain.createBehind matching
  have empty : objects (createBehind matching) = [] := start.objects_eq
  have negative : (learnStart env s matching).nreaders < 0 := by
    show (if env.cfg.lbMaxReaders = 0 then (-1 : Int) else _) < 0
    rw [if_pos unlimited]
    decide
  have built : Built (objects matching) (createBehind matching) [] := by
    refine ⟨⟨[], start⟩, ?_⟩
    rw [empty]
    exact fun _ none => by cases none
  have first := (@learn_built env er prid (objects matching) nonNull
    (getRetrylimit env.cfg er) (objects matching) (learnStart env s matching)
    built fun _ same => same).1
  by_cases taken : ∃ rdr ∈ objects matching,
      IsTaken env er prid (getRetrylimit env.cfg er) s rdr
  · refine iff_of_true ?_ (.inl taken)
    apply asks_reopenReaders nonNull chosenBuilt.plain chosenHeld begun
    have behind := @learn_taken env er prid (getRetrylimit env.cfg er)
      (learnStart env s matching) (objects matching) nonNull nodup negative
      (fun _ _ none => by cases none) ⟨[], start⟩ taken
    rw [chooseReaders_eq]
    obtain ⟨x, member, notLate⟩ := behind
    obtain ⟨cells, plain⟩ := first.plain
    rw [← primaryReaders_none plain] at member
    refine ⟨x, ?_, notLate⟩
    exact primaryReaders_chooseBest nonNull (chooseStart_built first)
      (fun node none => by cases none) member
  · have passed : ∀ rdr ∈ objects matching,
        ¬ IsTaken env er prid (getRetrylimit env.cfg er) s rdr :=
      fun rdr member here => taken ⟨rdr, member, here⟩
    obtain ⟨rdr, member, working⟩ := selectable
    have comparing := working.comparing (passed rdr member)
    have left := @learn_unlimited env er prid (getRetrylimit env.cfg er)
      (learnStart env s matching) (objects matching) negative
    have passes := @learn_passes env er prid (getRetrylimit env.cfg er)
      (learnStart env s matching) (objects matching) comparing prefer nodup
      negative ⟨rfl, fun _ none => by cases none⟩ passed
    rw [chooseReaders_eq] at chosenBuilt distinct chosenHeld begun ⊢
    have compared : Compared env er prid s matching _ _ :=
      ⟨rfl, ⟨all, formed⟩, nodup, chosenBuilt, distinct, chosenHeld, begun,
        first, left, wanted, passes⟩
    exact compared.asks_iff member working passed

end Main

/-- `timeout_services`, which is filled only if the readers are chosen. -/
def timeoutServicesOf (env : LbEnv) (s : LbState) (r : LbRequest) :
    List ReaderId :=
  if env.cfg.lbMode = lbNone ∨ env.cfg.lbMode = lbLogOnly then []
  else
    match forcedReader env r with
    | some _ => []
    | none =>
        let prid := getPrid env.cfg r.er.caid r.er.prid
        let (s, er) := autoBetatunnel env s r.er prid (objects r.matchingRdr)
        (chooseReaders env s er prid r.matchingRdr).1.timeoutServices

/-- A primary reader behind `get_best_reader` has not only timed out. -/
def WorkingAsked (env : LbEnv) (s : LbState) (r : LbRequest) : Prop :=
  ∃ rdr ∈ primaryReaders (getBestReader env s r).2.matchingRdr
      (getBestReader env s r).2.fallback,
    rdr ∉ timeoutServicesOf env s r

/-- At least one best reader is wanted for the request, and one that matches has
found enough ECMs. -/
def WorkingMatches (env : LbEnv) (s : LbState) (r : LbRequest) : Prop :=
  let prid := getPrid env.cfg r.er.caid r.er.prid
  let (s, er) := autoBetatunnel env s r.er prid (objects r.matchingRdr)
  1 ≤ getNbestReaders env.cfg er ∧
    ∃ rdr ∈ objects r.matchingRdr, Working env er prid s rdr

/-- The condition on which a working reader is asked: the list that is left as
it is has a primary reader; or the request is forced to a reader; or the local
readers leave room for one. -/
def LocalFairFor (env : LbEnv) (s : LbState) (r : LbRequest) : Prop :=
  if env.cfg.lbMode = lbNone ∨ env.cfg.lbMode = lbLogOnly then
    primaryReaders r.matchingRdr r.fallback ≠ []
  else
    match forcedReader env r with
    | some _ => True
    | none =>
        let prid := getPrid env.cfg r.er.caid r.er.prid
        let (s, er) := autoBetatunnel env s r.er prid (objects r.matchingRdr)
        LocalFair env er prid s (objects r.matchingRdr)

/-- The reader that a request is forced to is a primary one. -/
theorem primaryReaders_forced {fallback : Option Nat}
    (formed : LList.WellFormed l cells) (held : Held l fallback)
    (some : rdr ≠ 0) :
    rdr ∈ primaryReaders (l.clear.append rdr) fallback := by
  obtain ⟨single, only⟩ := clear_append_plain (l := l) some
  have before : (Option.some l.clear.fresh != fallback) = true := by
    cases first : fallback with
    | none => rfl
    | some node =>
        have inside := held node first
        rw [formed.cells_eq] at inside
        have apart : l.clear.fresh ≠ node := by
          rw [fresh_clear]
          rintro rfl
          exact formed.fresh_notMem inside
        simpa using apart
  have all : primaries (l.clear.append rdr) fallback = [l.clear.fresh] := by
    unfold primaries
    rw [single.cells_eq, List.takeWhile_cons, if_pos before]
    rfl
  unfold primaryReaders
  rw [all, ← single.cells_eq]
  show rdr ∈ objects (l.clear.append rdr)
  rw [only]
  exact List.mem_cons_self

/-- With a working reader, one is asked exactly if the local readers leave room
for it. -/
theorem getBestReader_workingAsked_iff (env : LbEnv) (s : LbState)
    (r : LbRequest) (prefer : env.cfg.preferlocalcards = true)
    (unlimited : env.cfg.lbMaxReaders = 0)
    (matched : Matched r.matchingRdr r.fallback)
    (nodup : (objects r.matchingRdr).Nodup)
    (working : WorkingMatches env s r) :
    WorkingAsked env s r ↔ LocalFairFor env s r := by
  obtain ⟨⟨cells, formed⟩, held⟩ := matched
  have nonNull := objects_nonNull formed
  unfold WorkingMatches at working
  unfold WorkingAsked timeoutServicesOf LocalFairFor getBestReader
  split
  · constructor
    · rintro ⟨rdr, member, _⟩ empty
      rw [empty] at member
      cases member
    · intro some
      obtain ⟨rdr, member⟩ := List.exists_mem_of_ne_nil _ some
      exact ⟨rdr, member, List.not_mem_nil⟩
  · cases forced : forcedReader env r with
    | some rdr =>
        have other := nonNull rdr (forcedReader_mem forced)
        apply iff_of_true _ trivial
        exact ⟨rdr, primaryReaders_forced formed held other,
          List.not_mem_nil⟩
    | none =>
        dsimp only at working ⊢
        obtain ⟨wanted, selectable⟩ := working
        exact chooseReaders_asks_iff formed nodup prefer unlimited wanted
          selectable

/-! A local reader that has timed out but may have the service, and a network
reader that works, for one best reader. -/

def localEnv : LbEnv :=
  { slowEnv with cfg := { slowCfg with preferlocalcards := true } }

def localState : LbState :=
  { slowState with
    readers := fun rdr =>
      if rdr = 1 then
        { knownReader 5 2000 [{ caid := 0x0D05, prids := [] }] with
          network := false }
      else knownReader 0 300 []
    active := [1, 2] }

def localRequest : LbRequest :=
  { slowRequest with matchingRdr := (LList.create.append 1).append 2 }

theorem localRequest_matched :
    Matched localRequest.matchingRdr localRequest.fallback := by
  have one : (1 : Nat) ≠ 0 := by decide
  have two : (2 : Nat) ≠ 0 := by decide
  constructor
  · exact ⟨_, (LList.WellFormed.create.append one).append two⟩
  · intro node none
    cases none

theorem localRequest_working :
    WorkingMatches localEnv localState localRequest := by
  refine ⟨by decide, 2, by decide, knownStat 0 300, ?_, rfl, by decide⟩
  decide +kernel

theorem getBestReader_workingAsked_iff_local :
    WorkingAsked localEnv localState localRequest ↔
      LocalFairFor localEnv localState localRequest :=
  getBestReader_workingAsked_iff localEnv localState localRequest rfl rfl
    localRequest_matched (by decide) localRequest_working

/-- Only the local reader is asked. -/
theorem not_workingAsked_local :
    ¬ ∀ (env : LbEnv) (s : LbState) (r : LbRequest),
      env.cfg.preferlocalcards = true → env.cfg.lbMaxReaders = 0 →
        Matched r.matchingRdr r.fallback →
          (objects r.matchingRdr).Nodup → WorkingMatches env s r →
            env.cfg.lbMode ≠ lbNone → env.cfg.lbMode ≠ lbLogOnly →
              WorkingAsked env s r := by
  intro always
  obtain ⟨rdr, member, notLate⟩ := always localEnv localState localRequest rfl
    rfl localRequest_matched (by decide) localRequest_working (by decide)
    (by decide)
  have only : primaryReaders
      (getBestReader localEnv localState localRequest).2.matchingRdr
      (getBestReader localEnv localState localRequest).2.fallback = [1] := by
    decide +kernel
  have late : timeoutServicesOf localEnv localState localRequest = [1] := by
    decide +kernel
  rw [only] at member
  rw [late] at notLate
  exact notLate member

end Oscam.Stat
