import Oscam.Stat.ResultList
import Oscam.Stat.Turns
import Mathlib.Data.List.Perm.Subperm

/-!
# No reader twice

The list that `get_best_reader` returns has readers of the original list only,
each of them at most once: a reader is taken either while learning or as one
of the selected, the last valid ones are only reopened if they are not there
yet, and a retried reader is taken out before it is put in front.
-/

namespace Oscam.Stat

variable {env : LbEnv} {er : EcmRequest} {prid : Nat} {all : List ReaderId}

/-! ## What one turn of each loop does to the list -/

/-- A reader is taken, selected or passed over. -/
theorem learnReader_cases (env : LbEnv) (er : EcmRequest) (prid : Nat)
    (retrylimit : Int) (v : Learning) (rdr : ReaderId) :
    let after := learnReader env er prid retrylimit v rdr
    (after.result = v.result ∧ after.selected = v.selected) ∨
    (after.result = v.result.append rdr ∧ after.selected = v.selected) ∨
    (after.result = v.result ∧ ∃ value time, after.selected = v.selected ++
      [{ rdr := rdr, value := value, time := time }]) := by
  dsimp only
  rcases learnReader_turn env er prid retrylimit v rdr with
    taken | ⟨stat, compares⟩ | passed
  · exact Or.inr (Or.inl ⟨taken.result, taken.selected⟩)
  · rcases compares.outcome with
      ⟨_, result, _, selected⟩ | ⟨_, result, _, selected⟩
    · exact Or.inr (Or.inr ⟨result, _, _, selected⟩)
    · exact Or.inr (Or.inl ⟨result, selected⟩)
  · rw [passed]
    exact Or.inl ⟨rfl, rfl⟩

/-- The readers of the values that are not used up. -/
def openReaders (selected : List StatValue) : List ReaderId :=
  (selected.filter (·.value != 0)).map (·.rdr)

theorem bestValue_eq {localOnly : Bool} {network : ReaderId → Bool}
    {entries : List (StatValue × Nat)} {start : Option (StatValue × Nat)}
    {stv : StatValue} {place : Nat}
    (found : bestValue localOnly network entries start = some (stv, place)) :
    start = some (stv, place) ∨
      (stv, place) ∈ entries ∧ stv.value ≠ 0 := by
  induction entries generalizing start with
  | nil => exact Or.inl found
  | cons entry entries induction =>
      obtain ⟨other, index⟩ := entry
      obtain ⟨better, eq⟩ : ∃ better : Bool,
          bestValue localOnly network ((other, index) :: entries) start =
            if localOnly && network other.rdr then
              bestValue localOnly network entries start
            else if other.value != 0 && better then
              bestValue localOnly network entries (some (other, index))
            else bestValue localOnly network entries start := ⟨_, rfl⟩
      rw [eq] at found
      have later : ∀ from_, bestValue localOnly network entries from_ =
          some (stv, place) → from_ = some (stv, place) ∨
            (stv, place) ∈ (other, index) :: entries ∧ stv.value ≠ 0 := by
        intro from_ rest
        rcases induction rest with before | ⟨member, some⟩
        · exact Or.inl before
        · exact Or.inr ⟨List.mem_cons_of_mem _ member, some⟩
      split at found
      · exact later start found
      · split at found
        · rename_i best
          rw [Bool.and_eq_true, bne_iff_ne] at best
          rcases later _ found with same | inside
          · cases same
            exact Or.inr ⟨List.mem_cons_self, best.1⟩
          · exact Or.inr inside
        · exact later start found

/-- One of the open values is used up. -/
theorem openReaders_perm {selected : List StatValue} {place : Nat}
    {stv : StatValue} (here : selected[place]? = some stv)
    (value : stv.value ≠ 0) :
    (openReaders selected).Perm
      (stv.rdr :: openReaders (useUp selected place)) := by
  induction selected generalizing place with
  | nil => cases here
  | cons head selected induction =>
      cases place with
      | zero =>
          cases here
          simp [openReaders, useUp, value]
      | succ place =>
          have rest := induction here
          by_cases used : head.value = 0
          · simp only [openReaders, useUp, List.modify_succ_cons] at rest ⊢
            simpa [used] using rest
          · simp only [openReaders, useUp, List.modify_succ_cons] at rest ⊢
            simp only [ne_eq, used, not_false_eq_true, bne_iff_ne,
              List.filter_cons_of_pos, List.map_cons]
            exact (rest.cons head.rdr).trans (List.Perm.swap _ _ _)

/-- The best reader is taken, as the first fallback or otherwise, or the loop
ends. -/
theorem takeBest_cases (env : LbEnv) (timeoutServices : List ReaderId)
    (v : Choosing) (best : StatValue) (place : Nat) :
    let after := (takeBest env timeoutServices v best place).1
    after.selected = useUp v.selected place ∧
      (after.result = v.result.append best.rdr ∧
          (after.fallback = v.fallback ∨
            after.fallback = v.fallback.or (some v.result.fresh)) ∨
        after.result = v.result ∧ after.fallback = v.fallback) := by
  dsimp only
  obtain ⟨uses, primary | last⟩ := takeBest_turn env timeoutServices v best place
  · exact ⟨uses.selected, Or.inl ⟨primary.result, Or.inl primary.fallback⟩⟩
  · refine ⟨uses.selected, ?_⟩
    rcases last.outcome with ⟨result, first⟩ | same
    · exact Or.inl ⟨result, Or.inr first⟩
    · exact Or.inr same

/-! ## What the loops build -/

/-- A list of some of the readers, with others waiting to be taken. -/
structure Built (all : List ReaderId) (result : LList)
    (waiting : List ReaderId) : Prop where
  plain : ∃ cells, Plain result cells
  known : ∀ rdr ∈ objects result ++ waiting, rdr ∈ all

section Loops

variable (nonNull : ∀ rdr ∈ all, rdr ≠ 0)

include nonNull

variable {result : LList} {waiting : List ReaderId} {rdr : ReaderId}

theorem Built.append (built : Built all result waiting) (member : rdr ∈ all) :
    Built all (result.append rdr) waiting ∧
      objects (result.append rdr) = objects result ++ [rdr] := by
  obtain ⟨⟨cells, plain⟩, known⟩ := built
  have eq := plain.objects_append (nonNull rdr member)
  refine ⟨⟨⟨_, plain.append (nonNull rdr member)⟩, ?_⟩, eq⟩
  intro other inside
  rw [eq, List.append_assoc, List.singleton_append] at inside
  rcases List.mem_append.mp inside with old | new
  · exact known other (List.mem_append_left _ old)
  · rcases List.mem_cons.mp new with rfl | rest
    · exact member
    · exact known other (List.mem_append_right _ rest)

/-- A retried reader is taken out and put in front. -/
theorem Built.retried (built : Built all result waiting)
    (member : rdr ∈ all) :
    Built all ((result.remove rdr).1.prepend rdr) waiting ∧
      objects ((result.remove rdr).1.prepend rdr) =
        rdr :: (objects result).filter (· != rdr) := by
  obtain ⟨⟨cells, plain⟩, known⟩ := built
  obtain ⟨removed, _, _⟩ := plain.remove rdr
  have eq := removed.objects_prepend (nonNull rdr member)
  rw [plain.objects_remove] at eq
  refine ⟨⟨⟨_, removed.prepend (nonNull rdr member)⟩, ?_⟩, eq⟩
  intro other inside
  rw [eq, List.cons_append] at inside
  rcases List.mem_cons.mp inside with rfl | rest
  · exact member
  · rcases List.mem_append.mp rest with old | later
    · exact known other
        (List.mem_append_left _ (List.mem_filter.mp old).1)
    · exact known other (List.mem_append_right _ later)

/-! ### Learning -/

theorem learnReader_built {retrylimit : Int} {v : Learning}
    (built : Built all v.result (v.selected.map (·.rdr)))
    (member : rdr ∈ all) :
    let after := learnReader env er prid retrylimit v rdr
    Built all after.result (after.selected.map (·.rdr)) ∧
      ((objects after.result ++ after.selected.map (·.rdr)).Subperm
        (rdr :: (objects v.result ++ v.selected.map (·.rdr)))) := by
  dsimp only
  rcases learnReader_cases env er prid retrylimit v rdr with
    ⟨result, selected⟩ | ⟨result, selected⟩ | ⟨result, value, time, selected⟩
  · rw [result, selected]
    exact ⟨built, (List.sublist_cons_self _ _).subperm⟩
  · obtain ⟨appended, eq⟩ := built.append nonNull member
    rw [result, selected, eq, List.append_assoc, List.singleton_append]
    exact ⟨appended, List.perm_middle.subperm⟩
  · rw [result, selected, List.map_append, List.map_singleton]
    constructor
    · refine ⟨built.plain, ?_⟩
      intro other inside
      rw [← List.append_assoc] at inside
      rcases List.mem_append.mp inside with old | new
      · exact built.known other old
      · rw [List.mem_singleton.mp new]
        exact member
    · rw [← List.append_assoc]
      exact (List.perm_append_singleton _ _).subperm

theorem learn_built {retrylimit : Int} {rdrs : List ReaderId} {v : Learning}
    (built : Built all v.result (v.selected.map (·.rdr)))
    (members : ∀ rdr ∈ rdrs, rdr ∈ all) :
    let after := learn env er prid retrylimit rdrs v
    Built all after.result (after.selected.map (·.rdr)) ∧
      ((objects after.result ++ after.selected.map (·.rdr)).Subperm
        (rdrs ++ (objects v.result ++ v.selected.map (·.rdr)))) := by
  induction rdrs generalizing v with
  | nil => exact ⟨built, List.Subperm.refl _⟩
  | cons rdr rdrs induction =>
      dsimp only
      rw [learn]
      split
      · exact ⟨built, (List.sublist_append_right _ _).subperm⟩
      · obtain ⟨next, taken⟩ := @learnReader_built env er prid all nonNull rdr
          retrylimit v built (members rdr (by simp))
        obtain ⟨after, rest⟩ := induction next
          fun other member => members other (by simp [member])
        refine ⟨after, rest.trans ?_⟩
        exact ((List.subperm_append_left rdrs).mpr taken).trans
          List.perm_middle.subperm

/-! ### Choosing -/

/-- The first fallback is one of the nodes chosen. -/
def Choosing.Held (v : Choosing) : Prop :=
  ∀ node, v.fallback = some node → node ∈ v.result.cells

theorem takeBest_built {timeoutServices : List ReaderId} {v : Choosing}
    {best : StatValue} {place : Nat} (value : best.value ≠ 0)
    (here : v.selected[place]? = some best)
    (built : Built all v.result (openReaders v.selected)) (held : v.Held) :
    let after := (takeBest env timeoutServices v best place).1
    Built all after.result (openReaders after.selected) ∧
      ((objects after.result ++ openReaders after.selected).Subperm
        (objects v.result ++ openReaders v.selected)) ∧ after.Held := by
  obtain ⟨selected, taken⟩ :=
    takeBest_cases env timeoutServices v best place
  have perm := openReaders_perm here value
  have member : best.rdr ∈ all := by
    apply built.known
    apply List.mem_append_right
    exact perm.symm.subset List.mem_cons_self
  have rest : Built all v.result (openReaders (useUp v.selected place)) := by
    refine ⟨built.plain, ?_⟩
    intro other inside
    apply built.known
    rcases List.mem_append.mp inside with old | later
    · exact List.mem_append_left _ old
    · exact List.mem_append_right _
        (perm.symm.subset (List.mem_cons_of_mem _ later))
  dsimp only
  rw [selected]
  rcases taken with ⟨result, fallback⟩ | ⟨result, fallback⟩
  · obtain ⟨appended, eq⟩ := rest.append nonNull member
    obtain ⟨⟨cells, plain⟩, _⟩ := built
    have cellsEq : (v.result.append best.rdr).cells =
        v.result.cells ++ [v.result.fresh] := by
      rw [(plain.append (nonNull best.rdr member)).cells_eq, plain.cells_eq]
    rw [result]
    refine ⟨appended, ?_, ?_⟩
    · rw [eq, List.append_assoc, List.singleton_append]
      exact ((List.perm_append_left_iff _).mpr perm.symm).subperm
    · intro node found
      rw [result, cellsEq]
      have before : v.fallback = some node ∨ node = v.result.fresh := by
        rcases fallback with same | first
        · rw [same] at found
          exact Or.inl found
        · rw [first] at found
          cases old : v.fallback with
          | none =>
              rw [old] at found
              cases found
              exact Or.inr rfl
          | some other =>
              rw [old] at found
              exact Or.inl found
      rcases before with old | rfl
      · exact List.mem_append_left _ (held node old)
      · simp
  · rw [result]
    refine ⟨rest, ?_, ?_⟩
    · exact ((List.subperm_append_left _).mpr
        (List.sublist_cons_self _ _).subperm).trans
          ((List.perm_append_left_iff _).mpr perm.symm).subperm
    · intro node found
      rw [fallback] at found
      rw [result]
      exact held node found

theorem chooseBest_built {timeoutServices : List ReaderId} {fuel : Nat}
    {v : Choosing} (built : Built all v.result (openReaders v.selected))
    (held : v.Held) :
    let after := chooseBest env timeoutServices fuel v
    Built all after.result (openReaders after.selected) ∧
      ((objects after.result ++ openReaders after.selected).Subperm
        (objects v.result ++ openReaders v.selected)) ∧ after.Held := by
  induction fuel generalizing v with
  | zero => exact ⟨built, List.Subperm.refl _, held⟩
  | succ fuel induction =>
      dsimp only
      rw [chooseBest]
      split
      · exact ⟨built, List.Subperm.refl _, held⟩
      · split
        · exact ⟨built, List.Subperm.refl _, held⟩
        · rename_i best place found
          rcases bestValue_eq found with none | ⟨member, value⟩
          · cases none
          · have here : v.selected[place]? = some best :=
              List.mem_zipIdx_iff_getElem?.mp member
            obtain ⟨next, taken, keeps⟩ := @takeBest_built env all nonNull
              timeoutServices v best place value here built held
            dsimp only
            split
            · obtain ⟨after, rest, last⟩ := induction next keeps
              exact ⟨after, rest.trans taken, last⟩
            · exact ⟨next, taken, keeps⟩

/-! ### Reopening -/

theorem reopenReader_built {v : Reopening} (built : Built all v.result [])
    (nodup : (objects v.result).Nodup) (member : rdr ∈ all) :
    let after := reopenReader env er prid v rdr
    Built all after.result [] ∧ (objects after.result).Nodup := by
  dsimp only
  rcases reopenReader_cases env er prid v rdr with
    ⟨same, _⟩ | ⟨⟨other, _⟩, result, _⟩
  · rw [same]
    exact ⟨built, nodup⟩
  · obtain ⟨appended, eq⟩ := built.append nonNull member
    rw [result, eq]
    rw [← List.concat_eq_append]
    exact ⟨appended, nodup.concat other⟩

theorem reopen_built {rdrs : List ReaderId} {v : Reopening}
    (built : Built all v.result []) (nodup : (objects v.result).Nodup)
    (members : ∀ rdr ∈ rdrs, rdr ∈ all) :
    let after := rdrs.foldl (reopenReader env er prid) v
    Built all after.result [] ∧ (objects after.result).Nodup := by
  induction rdrs generalizing v with
  | nil => exact ⟨built, nodup⟩
  | cons rdr rdrs induction =>
      obtain ⟨next, distinct⟩ := @reopenReader_built env er prid all nonNull
        rdr v built nodup (members rdr List.mem_cons_self)
      exact induction next distinct
        fun other member => members other (List.mem_cons_of_mem _ member)

theorem retryReader_built {v : Reopening} (built : Built all v.result [])
    (nodup : (objects v.result).Nodup) (member : rdr ∈ all) :
    let after := retryReader env er prid v rdr
    Built all after.result [] ∧ (objects after.result).Nodup := by
  dsimp only
  rw [retryReader_result]
  split
  · obtain ⟨retried, eq⟩ := built.retried nonNull member
    refine ⟨retried, ?_⟩
    rw [eq, List.nodup_cons]
    constructor
    · intro inside
      have other := (List.mem_filter.mp inside).2
      simp at other
    · exact nodup.filter _
  · exact ⟨built, nodup⟩

theorem retry_built {rdrs : List ReaderId} {v : Reopening}
    (built : Built all v.result []) (nodup : (objects v.result).Nodup)
    (members : ∀ rdr ∈ rdrs, rdr ∈ all) :
    let after := retry env er prid rdrs v
    Built all after.result [] ∧ (objects after.result).Nodup := by
  induction rdrs generalizing v with
  | nil => exact ⟨built, nodup⟩
  | cons rdr rdrs induction =>
      dsimp only
      rw [retry]
      split
      · exact ⟨built, nodup⟩
      · obtain ⟨next, distinct⟩ := @retryReader_built env er prid all nonNull
          rdr v built nodup (members rdr List.mem_cons_self)
        exact induction next distinct
          fun other member => members other (List.mem_cons_of_mem _ member)

end Loops

/-! ## The whole function -/

section Phases

variable {s : LbState} {matching : LList}

theorem objects_nonNull {cells : List Nat}
    (formed : LList.WellFormed matching cells) :
    ∀ rdr ∈ objects matching, rdr ≠ 0 := by
  intro rdr member
  rw [objects, formed.cells_eq] at member
  obtain ⟨cell, inside, rfl⟩ := List.mem_map.mp member
  exact formed.objects cell inside

theorem openReaders_sublist (selected : List StatValue) :
    (openReaders selected).Sublist (selected.map (·.rdr)) :=
  List.filter_sublist.map _

/-- The readers chosen are some of the matching ones, and each of them is
chosen at most as often as it is there. -/
theorem chooseReaders_built
    (nonNull : ∀ rdr ∈ objects matching, rdr ≠ 0) :
    let chosen := (chooseReaders env s er prid matching).2
    Built (objects matching) chosen.result [] ∧
      (objects chosen.result).Subperm (objects matching) ∧ chosen.Held := by
  have start := Plain.createBehind matching
  have empty : objects (createBehind matching) = [] := start.objects_eq
  have built : Built (objects matching) (createBehind matching) [] := by
    refine ⟨⟨[], start⟩, ?_⟩
    rw [empty]
    exact fun _ none => by cases none
  dsimp only [chooseReaders]
  obtain ⟨first, learned⟩ := @learn_built env er prid (objects matching)
    nonNull (getRetrylimit env.cfg er) (objects matching)
    { s := s, result := createBehind matching, selected := []
      timeoutServices := []
      nreaders := if env.cfg.lbMaxReaders = 0 then -1
        else env.cfg.lbMaxReaders
      newStats := false, nlocalReaders := 0
      newNulltime := { time := 0, millitm := 0 } } built fun _ same => same
  dsimp only at first learned
  generalize learn env er prid _ _ _ = v at first learned ⊢
  rw [empty, List.map_nil, List.append_nil, List.append_nil] at learned
  have sub := openReaders_sublist v.selected
  obtain ⟨second, chosen, held⟩ := @chooseBest_built env (objects matching)
    nonNull v.timeoutServices (v.selected.length + 1)
    { s := v.s, result := v.result, selected := v.selected
      nreaders := v.nreaders
      nlocalReaders :=
        if v.nlocalReaders > getNbestReaders env.cfg er then
          getNbestReaders env.cfg er
        else v.nlocalReaders
      nbestReaders :=
        if v.nlocalReaders > getNbestReaders env.cfg er then 0
        else getNbestReaders env.cfg er - v.nlocalReaders
      nfbReaders := env.cfg.lbNfbReaders, bestRdr := none, bestTime := 0
      fallback := none, n := 0 }
    ⟨first.plain, fun rdr member => first.known rdr
      ((sub.append_left _).subset member)⟩
    fun _ none => by cases none
  refine ⟨⟨second.plain, ?_⟩, ?_, held⟩
  · intro rdr member
    apply second.known
    rw [List.append_nil] at member
    exact List.mem_append_left _ member
  · exact (List.sublist_append_left _ _).subperm.trans
      (chosen.trans ((sub.append_left _).subperm.trans learned))

/-- The phases that reopen readers add readers that are not there yet, or
move some to the front. -/
theorem reopenReaders_built {learned : Learning} {chosen : Choosing}
    (nonNull : ∀ rdr ∈ objects matching, rdr ≠ 0)
    (built : Built (objects matching) chosen.result [])
    (nodup : (objects chosen.result).Nodup) :
    let after := reopenReaders env er prid matching learned chosen
    Built (objects matching) after.result [] ∧
      (objects after.result).Nodup := by
  dsimp only [reopenReaders]
  split
  · generalize reopened : (if chosen.n = 0 then _ else _ : Reopening) = v
    have open_ : Built (objects matching) v.result [] ∧
        (objects v.result).Nodup := by
      rw [← reopened]
      split
      · exact reopen_built nonNull built nodup fun _ same => same
      · exact ⟨built, nodup⟩
    split
    · exact retry_built nonNull open_.1 open_.2 fun _ same => same
    · exact open_
  · exact ⟨built, nodup⟩

end Phases

/-- `ll_clear` and `ll_append` leave one node, with an address not used
before. -/
theorem clear_append_plain {l : LList} {rdr : ReaderId} (some : rdr ≠ 0) :
    Plain (l.clear.append rdr) [l.clear.fresh] ∧
      objects (l.clear.append rdr) = [rdr] := by
  have cleared : Plain l.clear [] := by
    constructor
    · constructor
      · exact LList.Chained.clear l
      · rfl
      · exact fun _ none => by cases none
    · exact fun _ none => by cases none
  constructor
  · exact cleared.append some
  · rw [cleared.objects_append some, cleared.objects_eq]
    rfl

theorem forcedReader_mem {r : LbRequest} {rdr : ReaderId}
    (forced : forcedReader env r = some rdr) :
    rdr ∈ objects r.matchingRdr := by
  unfold forcedReader at forced
  split at forced
  · split at forced
    · exact List.mem_of_find?_eq_some forced
    · cases forced
  · cases forced

/-- No reader comes into the list that was not there, and none twice. -/
theorem getBestReader_distinct (env : LbEnv) (s : LbState) (r : LbRequest)
    (formed : ∃ cells, LList.WellFormed r.matchingRdr cells)
    (nodup : (objects r.matchingRdr).Nodup) :
    let after := objects (getBestReader env s r).2.matchingRdr
    after.Nodup ∧ ∀ rdr ∈ after, rdr ∈ objects r.matchingRdr := by
  obtain ⟨cells, formed⟩ := formed
  have nonNull := objects_nonNull formed
  dsimp only
  unfold getBestReader
  split
  · exact ⟨nodup, fun _ same => same⟩
  · split
    · rename_i rdr forced
      have member := forcedReader_mem forced
      dsimp only
      rw [(clear_append_plain (nonNull rdr member)).2]
      constructor
      · exact List.nodup_singleton rdr
      · intro other only
        rw [List.mem_singleton.mp only]
        exact member
    · dsimp only
      generalize autoBetatunnel env s r.er _ _ = tunnel
      obtain ⟨s, er⟩ := tunnel
      dsimp only
      obtain ⟨built, ⟨taken, perm, sub⟩, _⟩ := @chooseReaders_built env er
        (getPrid env.cfg r.er.caid r.er.prid) s r.matchingRdr nonNull
      obtain ⟨after, distinct⟩ := reopenReaders_built nonNull built
        (perm.nodup_iff.mp (nodup.sublist sub))
      refine ⟨distinct, ?_⟩
      intro rdr member
      apply after.known
      rw [List.append_nil]
      exact member

/-! A slow reader, one that failed but may have the service, and one that
failed. -/

def slowCfg : LbCfg :=
  { lbMode := lbFastestReaderFirst, lbNbestReaders := 1
    lbNbestReadersTab := [], lbNfbReaders := 1, lbMinEcmcount := 5
    lbMaxEcmcount := 500, lbReopenSeconds := 900, lbRetrylimit := 800
    lbRetrylimittab := [], lbNoproviderforcaid := [], lbReopenMode := true
    lbMaxReaders := 0, lbAutoBetatunnel := false, preferlocalcards := false
    ccForwardOriginCard := false, sidtab := [] }

def slowEnv : LbEnv :=
  { cfg := slowCfg, time := 5000, ftime := { time := 5000, millitm := 0 }
    md5 := fun _ => 0 }

def knownStat (rc timeAvg : Int) : ReaderStat :=
  { rc := rc, caid := 0x0D05, prid := 0, srvid := 1, ecmlen := 0x40
    lastReceived := 4990, ecmCount := 10, timeAvg := timeAvg
    failFactor := 1 }

def knownReader (rc timeAvg : Int) (ftab : List Cccam.Filter) : LbReader :=
  { hasClient := true, sidtabok := 0, pending := 0, ftab := ftab
    network := true, available := true, lbWeight := 100, lbUsagelevel := 0
    lbLast := { time := 0, millitm := 0 }
    lbStat := [{ stat := knownStat rc timeAvg, flag := 0 }] }

def slowState : LbState :=
  { readers := fun rdr =>
      if rdr = 1 then knownReader 0 900 []
      else if rdr = 2 then
        knownReader 4 2000 [{ caid := 0x0D05, prids := [] }]
      else knownReader 4 2000 []
    active := [1, 2, 3], nulltime := { time := 0, millitm := 0 } }

/-- The matching readers 1 to 3. -/
def slowRequest : LbRequest :=
  { er := { EcmRequest.zero with caid := 0x0D05, srvid := 1, l := 0x40 }
    matchingRdr := ((LList.create.append 1).append 2).append 3
    fallback := none, originCard := none }

theorem slowRequest_formed :
    LList.WellFormed slowRequest.matchingRdr [0, 1, 2] := by
  have one : (1 : Nat) ≠ 0 := by decide
  have two : (2 : Nat) ≠ 0 := by decide
  have three : (3 : Nat) ≠ 0 := by decide
  exact ((LList.WellFormed.create.append one).append two).append three

theorem getBestReader_distinct_slow :
    let after :=
      objects (getBestReader slowEnv slowState slowRequest).2.matchingRdr
    after.Nodup ∧ ∀ rdr ∈ after, rdr ∈ objects slowRequest.matchingRdr :=
  getBestReader_distinct slowEnv slowState slowRequest
    ⟨_, slowRequest_formed⟩ (by decide)

/-- Both readers that failed are retried. -/
example :
    objects (getBestReader slowEnv slowState slowRequest).2.matchingRdr =
      [3, 2, 1] := by
  decide +kernel

end Oscam.Stat
