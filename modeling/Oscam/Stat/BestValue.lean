import Oscam.Stat.PrimaryReaders

/-!
# The best values

The loop that chooses the best readers takes the best value that is left.  As
long as there is budget for local readers, no network reader is compared, and a
reader that has only timed out does not use the budget up.
-/

namespace Oscam.Stat

variable {env : LbEnv} {rdr : ReaderId} {timeoutServices : List ReaderId}

/-! ## The best value -/

section BestValue

variable {localOnly : Bool} {network : ReaderId → Bool}
  {entries : List (StatValue × Nat)} {start : Option (StatValue × Nat)}
  {stv : StatValue} {place : Nat}

/-- One entry in the comparison. -/
theorem bestValue_cons (localOnly : Bool) (network : ReaderId → Bool)
    (entries : List (StatValue × Nat)) (start : Option (StatValue × Nat))
    (stv : StatValue) (place : Nat) :
    ∃ better : Bool, (start = none → better = true) ∧
      bestValue localOnly network ((stv, place) :: entries) start =
        if localOnly && network stv.rdr then
          bestValue localOnly network entries start
        else if stv.value != 0 && better then
          bestValue localOnly network entries (some (stv, place))
        else bestValue localOnly network entries start := by
  refine ⟨_, ?_, rfl⟩
  rintro rfl
  rfl

theorem bestValue_local
    (found : bestValue true network entries start = some (stv, place))
    (first : ∀ entry, start = some entry → network entry.1.rdr = false) :
    network stv.rdr = false := by
  induction entries generalizing start with
  | nil => exact first (stv, place) found
  | cons entry entries induction =>
      obtain ⟨other, index⟩ := entry
      obtain ⟨better, _, eq⟩ :=
        bestValue_cons true network entries start other index
      rw [eq] at found
      split at found
      · exact induction found first
      · rename_i isLocal
        split at found
        · apply induction found
          rintro _ ⟨⟩
          simpa using isLocal
        · exact induction found first

theorem bestValue_some (entry : StatValue × Nat) :
    bestValue localOnly network entries (some entry) ≠ none := by
  induction entries generalizing entry with
  | nil => exact Option.some_ne_none entry
  | cons head entries induction =>
      obtain ⟨other, index⟩ := head
      obtain ⟨better, _, eq⟩ :=
        bestValue_cons localOnly network entries (some entry) other index
      rw [eq]
      split
      · exact induction entry
      · split
        · exact induction _
        · exact induction entry

/-- There is a best value if one can be taken. -/
theorem bestValue_ne_none (member : (stv, place) ∈ entries)
    (value : stv.value ≠ 0)
    (eligible : (localOnly && network stv.rdr) = false) :
    bestValue localOnly network entries start ≠ none := by
  induction entries generalizing start with
  | nil => cases member
  | cons head entries induction =>
      cases start with
      | some entry => exact bestValue_some entry
      | none =>
          obtain ⟨other, index⟩ := head
          obtain ⟨better, begun, eq⟩ :=
            bestValue_cons localOnly network entries none other index
          rw [eq, begun rfl, Bool.and_true]
          rcases List.mem_cons.mp member with same | rest
          · obtain ⟨rfl, rfl⟩ := Prod.mk.inj same
            rw [if_neg (by simp [eligible]), if_pos (by simpa using value)]
            exact bestValue_some _
          · split
            · exact induction rest
            · split
              · exact bestValue_some _
              · exact induction rest

end BestValue

/-- The other values are as they were. -/
theorem mem_useUp_of_ne {selected : List StatValue} {place : Nat}
    {best stv : StatValue} (here : selected[place]? = some best)
    (member : stv ∈ selected) (apart : stv.rdr ≠ best.rdr) :
    stv ∈ useUp selected place := by
  obtain ⟨i, inside, rfl⟩ := List.mem_iff_getElem.mp member
  have other : place ≠ i := by
    rintro rfl
    rw [List.getElem?_eq_getElem inside] at here
    exact apart (congrArg StatValue.rdr (Option.some.inj here))
  unfold useUp
  apply List.mem_of_getElem? (i := i)
  rw [List.getElem?_modify, List.getElem?_eq_getElem inside]
  exact congrArg some (if_neg other)

/-- No reader is new among the values. -/
theorem mem_of_mem_useUp {selected : List StatValue} {place : Nat}
    {stv : StatValue} (member : stv ∈ useUp selected place) :
    ∃ other ∈ selected, other.rdr = stv.rdr := by
  unfold useUp at member
  obtain ⟨i, inside, rfl⟩ := List.mem_iff_getElem.mp member
  rw [List.length_modify] at inside
  refine ⟨selected[i], List.getElem_mem inside, ?_⟩
  rw [List.getElem_modify]
  split
  · rfl
  · rfl

/-! ## The budget of the local readers -/

/-- While primary readers are wanted one is taken. -/
theorem takeBest_primary (env : LbEnv) (timeoutServices : List ReaderId)
    {v : Choosing} (best : StatValue) (place : Nat)
    (wanted : v.nlocalReaders ≠ 0 ∨ v.nbestReaders ≠ 0) :
    Uses v best place (takeBest env timeoutServices v best place).1 ∧
      TakesPrimary env timeoutServices v best
        (takeBest env timeoutServices v best place) := by
  obtain ⟨uses, primary | last⟩ :=
    takeBest_turn env timeoutServices v best place
  · exact ⟨uses, primary⟩
  · obtain ⟨noLocal, noBest⟩ := last.unwanted
    rcases wanted with more | more
    · exact absurd noLocal more
    · exact absurd noBest more

/-- The readers stay network readers or local ones. -/
theorem TakesPrimary.network {v : Choosing} {best : StatValue}
    {after : Choosing × Bool}
    (primary : TakesPrimary env timeoutServices v best after) (r : ReaderId) :
    (after.1.s.readers r).network = (v.s.readers r).network := by
  rw [primary.s]
  apply LbState.network_setReader
  rfl

/-- A reader that is open to be taken and has not only timed out. -/
def Open (timeoutServices : List ReaderId) (v : Choosing) (stv : StatValue) :
    Prop :=
  stv ∈ v.selected ∧ stv.value ≠ 0 ∧ stv.rdr ∉ timeoutServices ∧
    (v.nlocalReaders ≠ 0 → (v.s.readers stv.rdr).network = false)

/-- If one is open and a primary reader is wanted, one is taken. -/
theorem chooseBest_asks {all : List ReaderId}
    (nonNull : ∀ rdr ∈ all, rdr ≠ 0) {fuel : Nat} {v : Choosing}
    (built : Built all v.result (openReaders v.selected))
    (without : v.fallback = none) (unlimited : v.nreaders < 0)
    (wanted : v.nlocalReaders ≠ 0 ∨ v.nbestReaders ≠ 0)
    (isOpen : ∃ stv, Open timeoutServices v stv)
    (enough : (openReaders v.selected).length < fuel) :
    ∃ x ∈ primaryReaders (chooseBest env timeoutServices fuel v).result
        (chooseBest env timeoutServices fuel v).fallback,
      x ∉ timeoutServices := by
  induction fuel generalizing v with
  | zero => exact absurd enough (Nat.not_lt_zero _)
  | succ fuel induction =>
      obtain ⟨stv, member, value, working, eligible⟩ := isOpen
      have held : v.Held := by
        intro node first
        rw [without] at first
        cases first
      rw [chooseBest, if_neg (by omega)]
      split
      · rename_i none
        obtain ⟨i, inside, same⟩ := List.mem_iff_getElem.mp member
        have entry : (stv, i) ∈ v.selected.zipIdx := by
          rw [List.mem_zipIdx_iff_getElem?, List.getElem?_eq_getElem inside,
            same]
        refine absurd none (bestValue_ne_none entry value ?_)
        by_cases more : v.nlocalReaders ≠ 0
        · simp [eligible more]
        · simp [not_not.mp more]
      · rename_i best place found
        obtain ⟨here, some⟩ := bestValue_open found
        obtain ⟨uses, turn⟩ :=
          takeBest_primary env timeoutServices best place wanted
        obtain ⟨next, _, keeps⟩ := @takeBest_built env all nonNull
          timeoutServices v best place some here built held
        have known : best.rdr ∈ all := by
          apply built.known
          apply List.mem_append_right
          exact (openReaders_perm here some).symm.subset List.mem_cons_self
        obtain ⟨cells, plain⟩ := built.plain
        dsimp only
        rw [turn.further, if_pos rfl]
        by_cases late : best.rdr ∈ timeoutServices
        · -- the budget is not used up and another reader is open
          obtain ⟨nlocal, nbest⟩ := turn.late late
          have apart : stv.rdr ≠ best.rdr := by
            intro same
            rw [same] at working
            exact working late
          have fewer := (openReaders_perm here some).length_eq
          apply induction next (turn.fallback.trans without)
          · rw [turn.nreaders]
            omega
          · rw [nlocal, nbest]
            exact wanted
          · refine ⟨stv, ?_, value, working, ?_⟩
            · rw [uses.selected]
              exact mem_useUp_of_ne here member apart
            · rw [nlocal, turn.network]
              exact eligible
          · rw [uses.selected]
            rw [List.length_cons] at fewer
            omega
        · refine ⟨best.rdr, ?_, late⟩
          apply primaryReaders_chooseBest nonNull next keeps
          rw [turn.result, turn.fallback, without]
          exact mem_primaryReaders_append plain (nonNull _ known)

/-- If all local readers have only timed out, only they are taken. -/
theorem chooseBest_late {all : List ReaderId}
    (nonNull : ∀ rdr ∈ all, rdr ≠ 0) {fuel : Nat} {v : Choosing}
    (built : Built all v.result (openReaders v.selected))
    (without : v.fallback = none) (more : v.nlocalReaders ≠ 0)
    (taken : ∀ rdr ∈ objects v.result, rdr ∈ timeoutServices)
    (late : ∀ stv ∈ v.selected, (v.s.readers stv.rdr).network = false →
      stv.rdr ∈ timeoutServices) :
    (chooseBest env timeoutServices fuel v).fallback = none ∧
      ∀ rdr ∈ objects (chooseBest env timeoutServices fuel v).result,
        rdr ∈ timeoutServices := by
  let P (v : Choosing) : Prop :=
    Built all v.result (openReaders v.selected) ∧ v.fallback = none ∧
      v.nlocalReaders ≠ 0 ∧
      (∀ rdr ∈ objects v.result, rdr ∈ timeoutServices) ∧
      ∀ stv ∈ v.selected, (v.s.readers stv.rdr).network = false →
        stv.rdr ∈ timeoutServices
  have kept : P (chooseBest env timeoutServices fuel v) := by
    apply chooseBest_keeps _ ⟨built, without, more, taken, late⟩
    rintro v best place _ found ⟨built, without, more, taken, late⟩
    obtain ⟨here, some⟩ := bestValue_open found
    have held : v.Held := by
      intro node first
      rw [without] at first
      cases first
    obtain ⟨next, _, _⟩ := @takeBest_built env all nonNull
      timeoutServices v best place some here built held
    have onlyLocal : (v.nlocalReaders != 0) = true := by simpa using more
    rw [onlyLocal] at found
    have isLocal := bestValue_local found fun _ none => by cases none
    have hasLate := late best (List.mem_of_getElem? here) isLocal
    obtain ⟨uses, turn⟩ :=
      takeBest_primary env timeoutServices best place (.inl more)
    have known : best.rdr ∈ all := by
      apply built.known
      apply List.mem_append_right
      exact (openReaders_perm here some).symm.subset List.mem_cons_self
    obtain ⟨cells, plain⟩ := built.plain
    refine ⟨next, turn.fallback.trans without, ?_, ?_, ?_⟩
    · rw [(turn.late hasLate).1]
      exact more
    · rw [turn.result, plain.objects_append (nonNull _ known)]
      intro rdr member
      rcases List.mem_append.mp member with old | new
      · exact taken rdr old
      · rw [List.mem_singleton.mp new]
        exact hasLate
    · rw [uses.selected]
      intro stv member network
      obtain ⟨other, inside, same⟩ := mem_of_mem_useUp member
      rw [turn.network, ← same] at network
      rw [← same]
      exact late other inside network
  exact ⟨kept.2.1, kept.2.2.2.1⟩

/-- One of the values is taken if there is one. -/
theorem chooseBest_counted {fuel : Nat} {v : Choosing} {stv : StatValue}
    (left : v.nreaders ≠ 0) (member : stv ∈ v.selected)
    (value : stv.value ≠ 0)
    (eligible : v.nlocalReaders ≠ 0 → (v.s.readers stv.rdr).network = false) :
    (chooseBest env timeoutServices (fuel + 1) v).n ≠ 0 ∧
      (chooseBest env timeoutServices (fuel + 1) v).bestRdr ≠ none := by
  rw [chooseBest, if_neg left]
  split
  · rename_i none
    obtain ⟨i, inside, same⟩ := List.mem_iff_getElem.mp member
    have entry : (stv, i) ∈ v.selected.zipIdx := by
      rw [List.mem_zipIdx_iff_getElem?, List.getElem?_eq_getElem inside, same]
    refine absurd none (bestValue_ne_none entry value ?_)
    by_cases more : v.nlocalReaders ≠ 0
    · simp [eligible more]
    · simp [not_not.mp more]
  · rename_i best place found
    have turn := takeBest_counted env timeoutServices v best place
    dsimp only
    split
    · exact chooseBest_keeps (P := fun v => v.n ≠ 0 ∧ v.bestRdr ≠ none)
        (fun v best place _ _ _ =>
          takeBest_counted env timeoutServices v best place) turn
    · exact turn

end Oscam.Stat
