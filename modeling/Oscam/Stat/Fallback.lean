import Oscam.Stat.Distinct

/-!
# The first fallback

`er->fallback` after `get_best_reader`: a node of the new list, unless the
reader of the first fallback is retried, or the request is forced to one
reader.
-/

namespace Oscam.Stat

variable {env : LbEnv} {er : EcmRequest} {prid : Nat}

/-! ## The list of `get_cw` -/

/-- One of the active readers in `get_cw`. -/
def matchReader (matching fallback : ReaderId → Bool)
    (v : LList × Option Nat) (rdr : ReaderId) : LList × Option Nat :=
  if matching rdr then
    if fallback rdr then (v.1.append rdr, v.2.or (some v.1.fresh))
    else (v.1.prepend rdr, v.2)
  else v

/-- The loop of `get_cw` over the active readers: the matching ones, with
those that are fallbacks behind the others, and the node of the first
fallback. -/
def matchReaders (matching fallback : ReaderId → Bool)
    (readers : List ReaderId) : LList × Option Nat :=
  readers.foldl (matchReader matching fallback) (LList.create, none)

/-- The first fallback is a node of the list. -/
def Held (l : LList) (fallback : Option Nat) : Prop :=
  ∀ node, fallback = some node → node ∈ l.cells

/-- A list of readers with its first fallback, as `get_cw` makes it. -/
structure Matched (l : LList) (fallback : Option Nat) : Prop where
  formed : ∃ cells, LList.WellFormed l cells
  held : Held l fallback

theorem matchReader_matched {matching fallback : ReaderId → Bool}
    {v : LList × Option Nat} {rdr : ReaderId} (some : rdr ≠ 0)
    (matched : Matched v.1 v.2) :
    Matched (matchReader matching fallback v rdr).1
      (matchReader matching fallback v rdr).2 := by
  obtain ⟨⟨cells, formed⟩, held⟩ := matched
  unfold matchReader
  split
  · split
    · have appended := formed.append some
      refine ⟨⟨_, appended⟩, ?_⟩
      intro node first
      rw [appended.cells_eq]
      cases before : v.2 with
      | none =>
          rw [before] at first
          cases first
          simp
      | some other =>
          rw [before] at first
          cases first
          rw [← formed.cells_eq]
          exact List.mem_append_left _ (held node before)
    · have prepended := formed.prepend some
      refine ⟨⟨_, prepended⟩, ?_⟩
      intro node first
      rw [prepended.cells_eq, ← formed.cells_eq]
      exact List.mem_cons_of_mem _ (held node first)
  · exact ⟨⟨cells, formed⟩, held⟩

theorem matchReaders_matched {matching fallback : ReaderId → Bool}
    {readers : List ReaderId} (nonNull : ∀ rdr ∈ readers, rdr ≠ 0) :
    Matched (matchReaders matching fallback readers).1
      (matchReaders matching fallback readers).2 := by
  have start : Matched LList.create none := by
    constructor
    · exact ⟨[], LList.WellFormed.create⟩
    · intro node none
      cases none
  have loop : ∀ v : LList × Option Nat, Matched v.1 v.2 →
      Matched (readers.foldl (matchReader matching fallback) v).1
        (readers.foldl (matchReader matching fallback) v).2 := by
    induction readers with
    | nil => exact fun v matched => matched
    | cons rdr readers induction =>
        intro v matched
        apply induction
        · exact fun other member => nonNull other (by simp [member])
        · exact matchReader_matched (nonNull rdr (by simp)) matched
  exact loop _ start

/-! ## When the first fallback stays -/

section Retry

variable {v : Reopening} {cells : List Nat} {rdr : ReaderId} {node : Nat}

/-- A retried reader has a new node in front, and no other one. -/
theorem retryReader_retried (plain : Plain v.result cells) (some : rdr ≠ 0)
    (retried : isRetried env er prid v.s rdr = true) :
    let after := (retryReader env er prid v rdr).result
    Plain after
        (v.result.fresh :: cells.filter fun cell => v.result.obj cell != rdr) ∧
      after.obj = Function.update v.result.obj v.result.fresh rdr ∧
      after.fresh = v.result.fresh + 1 := by
  dsimp only
  rw [retryReader_result, if_pos retried]
  obtain ⟨removed, still, fresh⟩ := plain.remove rdr
  have prepended := removed.prepend some
  rw [fresh] at prepended
  refine ⟨prepended, ?_, ?_⟩
  · rw [LList.obj_prepend some, still, fresh]
  · rw [LList.prepend_eq some, ← fresh]
    rfl

end Retry

/-! ## The whole function -/

/-- A fallback is chosen only after a reader was counted. -/
def Choosing.Begun (v : Choosing) : Prop :=
  v.fallback ≠ none → v.n ≠ 0 ∧ v.bestRdr ≠ none

theorem takeBest_counted (env : LbEnv) (timeoutServices : List ReaderId)
    (v : Choosing) (best : StatValue) (place : Nat) :
    (takeBest env timeoutServices v best place).1.n ≠ 0 ∧
      (takeBest env timeoutServices v best place).1.bestRdr ≠ none := by
  obtain ⟨uses, _⟩ := takeBest_turn env timeoutServices v best place
  rw [uses.n, uses.bestRdr]
  refine ⟨Nat.succ_ne_zero _, ?_⟩
  cases v.bestRdr with
  | none => exact Option.some_ne_none _
  | some rdr => exact Option.some_ne_none rdr

theorem chooseBest_begun {timeoutServices : List ReaderId} {fuel : Nat}
    {v : Choosing} (begun : v.Begun) :
    (chooseBest env timeoutServices fuel v).Begun := by
  induction fuel generalizing v with
  | zero => exact begun
  | succ fuel induction =>
      rw [chooseBest]
      split
      · exact begun
      · split
        · exact begun
        · rename_i best place found
          dsimp only
          have next : (takeBest env timeoutServices v best place).1.Begun :=
            fun _ => takeBest_counted env timeoutServices v best place
          split
          · exact induction next
          · exact next

section Phases

variable {matching : LList} {learned : Learning} {chosen : Choosing}

end Phases

theorem fresh_clear (l : LList) : l.clear.fresh = l.fresh := by
  have flags : ∀ (cells : List Nat) (l : LList),
      (cells.foldl (fun l cell => l.setFlag cell (l.flag cell + 1)) l).fresh =
        l.fresh := by
    intro cells
    induction cells with
    | nil => exact fun l => rfl
    | cons cell cells induction =>
        intro l
        exact induction (l.setFlag cell (l.flag cell + 1))
  exact flags l.cells l

end Oscam.Stat
