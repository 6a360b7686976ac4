import Oscam.Stat.Budget

/-!
# The readers in front

The primary readers of a list are those in front of its first fallback.  A
reader that has become one stays one to the end of `get_best_reader`, and the
readers that are retried become primary ones.
-/

namespace Oscam.Stat

variable {env : LbEnv} {er : EcmRequest} {prid : Nat} {l : LList}
  {cells : List Nat} {rdr x : ReaderId} {timeoutServices : List ReaderId}

/-! ## Readers in front -/

/-- The primary readers of a list. -/
def primaryReaders (l : LList) (fallback : Option Nat) : List ReaderId :=
  (primaries l fallback).map l.obj

theorem mem_takeWhile_append {p : Nat → Bool} {front : List Nat} {cell : Nat}
    (member : cell ∈ front.takeWhile p) (behind : List Nat) :
    cell ∈ (front ++ behind).takeWhile p := by
  induction front with
  | nil => cases member
  | cons head front induction =>
      rw [List.cons_append, List.takeWhile_cons]
      rw [List.takeWhile_cons] at member
      split
      · rename_i first
        rw [if_pos first] at member
        rcases List.mem_cons.mp member with rfl | rest
        · exact List.mem_cons_self
        · exact List.mem_cons_of_mem _ (induction rest)
      · rename_i first
        rw [if_neg first] at member
        cases member

theorem mem_takeWhile_filter {p q : Nat → Bool} {cells : List Nat} {cell : Nat}
    (member : cell ∈ cells.takeWhile p) (stays : q cell = true) :
    cell ∈ (cells.filter q).takeWhile p := by
  induction cells with
  | nil => cases member
  | cons head cells induction =>
      rw [List.takeWhile_cons] at member
      split at member
      · rename_i first
        rw [List.filter_cons]
        rcases List.mem_cons.mp member with rfl | rest
        · rw [if_pos stays, List.takeWhile_cons, if_pos first]
          exact List.mem_cons_self
        · split
          · rw [List.takeWhile_cons, if_pos first]
            exact List.mem_cons_of_mem _ (induction rest)
          · exact induction rest
      · cases member

theorem mem_primaries (plain : Plain l cells) {fallback : Option Nat}
    {cell : Nat} (member : cell ∈ primaries l fallback) : cell ∈ cells := by
  have inside := (List.takeWhile_sublist _).subset member
  rwa [plain.cells_eq] at inside

/-- A primary reader stays one when another reader is appended, also as the
first fallback. -/
theorem primaryReaders_append (plain : Plain l cells) (some : rdr ≠ 0)
    {fallback fallback' : Option Nat}
    (kept : fallback' = fallback ∨ fallback' = fallback.or (.some l.fresh))
    (member : x ∈ primaryReaders l fallback) :
    x ∈ primaryReaders (l.append rdr) fallback' := by
  obtain ⟨cell, inside, rfl⟩ := List.mem_map.mp member
  have old := mem_primaries plain inside
  have apart : cell ≠ l.fresh := by
    rintro rfl
    exact plain.fresh_notMem old
  have obj : (l.append rdr).obj cell = l.obj cell := by
    rw [LList.obj_append some, Function.update_of_ne apart]
  have same : cell ∈ primaries (l.append rdr) fallback := by
    unfold primaries at inside ⊢
    rw [(plain.append some).cells_eq, ← plain.cells_eq]
    exact mem_takeWhile_append inside _
  have still : cell ∈ primaries (l.append rdr) fallback' := by
    rcases kept with equal | first
    · rw [equal]
      exact same
    · cases fallback with
      | none =>
          have new : fallback' = .some l.fresh := first
          rw [new, primaries_append_first plain some]
          exact old
      | some node =>
          have equal : fallback' = .some node := first
          rw [equal]
          exact same
  exact List.mem_map.mpr ⟨cell, still, obj⟩

/-- A reader that is appended before there is a fallback is a primary one. -/
theorem mem_primaryReaders_append (plain : Plain l cells) (some : rdr ≠ 0) :
    rdr ∈ primaryReaders (l.append rdr) none := by
  unfold primaryReaders
  rw [primaries_none (plain.append some), List.map_append, List.map_singleton,
    LList.obj_append some, Function.update_self]
  exact List.mem_append_right _ List.mem_cons_self

/-! ## Retrying -/

/-- A retried reader is put in front, and the primary readers stay primary
ones. -/
theorem primaryReaders_retryReader {v : Reopening}
    (plain : Plain v.result cells) (some : rdr ≠ 0) {fallback : Option Nat}
    (old : ∀ node, fallback = .some node → node < v.result.fresh) :
    (isRetried env er prid v.s rdr = true →
        rdr ∈ primaryReaders (retryReader env er prid v rdr).result fallback) ∧
      ∀ x ∈ primaryReaders v.result fallback,
        x ∈ primaryReaders (retryReader env er prid v rdr).result fallback := by
  by_cases retried : isRetried env er prid v.s rdr = true
  · obtain ⟨next, obj, fresh⟩ := retryReader_retried plain some retried
    have before : (Option.some v.result.fresh != fallback) = true := by
      cases first : fallback with
      | none => rfl
      | some node =>
          have bound := old node first
          have apart : v.result.fresh ≠ node := by omega
          simpa using apart
    have new : rdr ∈
        primaryReaders (retryReader env er prid v rdr).result fallback := by
      unfold primaryReaders primaries
      rw [next.cells_eq, List.takeWhile_cons, if_pos before, List.map_cons,
        obj, Function.update_self]
      exact List.mem_cons_self
    refine ⟨fun _ => new, ?_⟩
    intro x member
    obtain ⟨cell, inside, rfl⟩ := List.mem_map.mp member
    have here := mem_primaries plain inside
    have apart : cell ≠ v.result.fresh := by
      rintro rfl
      exact plain.fresh_notMem here
    by_cases same : v.result.obj cell = rdr
    · rw [same]
      exact new
    · have stays : (v.result.obj cell != rdr) = true := by simpa using same
      unfold primaries at inside
      rw [plain.cells_eq] at inside
      unfold primaryReaders primaries
      rw [next.cells_eq, List.takeWhile_cons, if_pos before]
      apply List.mem_map.mpr
      refine ⟨cell, List.mem_cons_of_mem _ ?_, ?_⟩
      · exact mem_takeWhile_filter inside stays
      · rw [obj, Function.update_of_ne apart]
  · have same : (retryReader env er prid v rdr).result = v.result := by
      rw [retryReader_result, if_neg retried]
    rw [same]
    exact ⟨fun other => absurd other retried, fun _ member => member⟩

theorem fresh_le_retryReader {v : Reopening} (plain : Plain v.result cells)
    (some : rdr ≠ 0) :
    v.result.fresh ≤ (retryReader env er prid v rdr).result.fresh ∧
      ∃ cells, Plain (retryReader env er prid v rdr).result cells := by
  by_cases retried : isRetried env er prid v.s rdr = true
  · obtain ⟨next, _, fresh⟩ := retryReader_retried plain some retried
    exact ⟨by omega, _, next⟩
  · rw [retryReader_result, if_neg retried]
    exact ⟨Nat.le_refl _, _, plain⟩

theorem primaryReaders_retry {rdrs : List ReaderId} {v : Reopening}
    (nonNull : ∀ rdr ∈ rdrs, rdr ≠ 0) (plain : ∃ cells, Plain v.result cells)
    {fallback : Option Nat}
    (old : ∀ node, fallback = some node → node < v.result.fresh)
    (member : x ∈ primaryReaders v.result fallback ∨
      x ∈ retriedReaders env er prid rdrs v) :
    x ∈ primaryReaders (retry env er prid rdrs v).result fallback := by
  induction rdrs generalizing v with
  | nil =>
      rcases member with here | none
      · exact here
      · cases none
  | cons rdr rdrs induction =>
      obtain ⟨some, others⟩ := List.forall_mem_cons.mp nonNull
      rw [retry]
      rw [retriedReaders] at member
      by_cases spent : v.nreaders = 0
      · rw [if_pos spent] at member ⊢
        rcases member with here | none
        · exact here
        · cases none
      · rw [if_neg spent] at member ⊢
        obtain ⟨cells, plain⟩ := plain
        obtain ⟨new, stay⟩ := @primaryReaders_retryReader env er prid _ rdr v
          plain some _ old
        obtain ⟨below, next⟩ := fresh_le_retryReader plain some
        apply induction others next
        · exact fun node first => Nat.lt_of_lt_of_le (old node first) below
        · rcases member with here | retried
          · exact .inl (stay x here)
          · split at retried
            · rename_i due
              rcases List.mem_cons.mp retried with rfl | later
              · exact .inl (new due)
              · exact .inr later
            · exact .inr retried

/-- The list behind the loop has the retried readers and those of before. -/
theorem objects_retry {rdrs : List ReaderId} {v : Reopening}
    (nonNull : ∀ rdr ∈ rdrs, rdr ≠ 0) (plain : ∃ cells, Plain v.result cells)
    (member : x ∈ objects (retry env er prid rdrs v).result) :
    x ∈ retriedReaders env er prid rdrs v ∨ x ∈ objects v.result := by
  induction rdrs generalizing v with
  | nil => exact .inr member
  | cons rdr rdrs induction =>
      obtain ⟨some, others⟩ := List.forall_mem_cons.mp nonNull
      rw [retry] at member
      rw [retriedReaders]
      by_cases spent : v.nreaders = 0
      · rw [if_pos spent] at member
        exact .inr member
      · rw [if_neg spent] at member ⊢
        obtain ⟨cells, plain⟩ := plain
        obtain ⟨_, next⟩ := fresh_le_retryReader plain some
        have later := induction others next member
        by_cases due : isRetried env er prid v.s rdr = true
        · rw [if_pos due]
          rcases later with retried | here
          · exact .inl (List.mem_cons_of_mem rdr retried)
          · obtain ⟨removed, _, _⟩ := plain.remove rdr
            rw [retryReader_result, if_pos due, removed.objects_prepend some,
              plain.objects_remove] at here
            rcases List.mem_cons.mp here with rfl | before
            · exact .inl List.mem_cons_self
            · exact .inr (List.mem_filter.mp before).1
        · rw [if_neg due]
          rw [retryReader_result, if_neg due] at later
          exact later

theorem plain_retry {rdrs : List ReaderId} {v : Reopening}
    (nonNull : ∀ rdr ∈ rdrs, rdr ≠ 0) (plain : ∃ cells, Plain v.result cells) :
    ∃ cells, Plain (retry env er prid rdrs v).result cells := by
  induction rdrs generalizing v with
  | nil => exact plain
  | cons rdr rdrs induction =>
      obtain ⟨some, others⟩ := List.forall_mem_cons.mp nonNull
      rw [retry]
      split
      · exact plain
      · obtain ⟨cells, plain⟩ := plain
        exact induction others (fresh_le_retryReader plain some).2

theorem objects_reopen {rdrs : List ReaderId} {v : Reopening}
    (nonNull : ∀ rdr ∈ rdrs, rdr ≠ 0) (plain : ∃ cells, Plain v.result cells)
    (member : x ∈ objects v.result) :
    let after := rdrs.foldl (reopenReader env er prid) v
    x ∈ objects after.result ∧ ∃ cells, Plain after.result cells := by
  induction rdrs generalizing v with
  | nil => exact ⟨member, plain⟩
  | cons rdr rdrs induction =>
      obtain ⟨some, others⟩ := List.forall_mem_cons.mp nonNull
      dsimp only
      rw [List.foldl_cons]
      rcases reopenReader_cases env er prid v rdr with
        ⟨same, _⟩ | ⟨_, result, _⟩
      · apply induction others
        · rw [same]
          exact plain
        · rw [same]
          exact member
      · obtain ⟨cells, plain⟩ := plain
        apply induction others
        · rw [result]
          exact ⟨_, plain.append some⟩
        · rw [result, plain.objects_append some]
          exact List.mem_append_left _ member

theorem primaryReaders_none (plain : Plain l cells) :
    primaryReaders l none = objects l := by
  unfold primaryReaders
  rw [primaries_none plain, plain.objects_eq]

/-- The phases that reopen readers leave the primary readers in front. -/
theorem primaryReaders_reopenReaders {matching : LList} {learned : Learning}
    {chosen : Choosing} (nonNull : ∀ rdr ∈ objects matching, rdr ≠ 0)
    (plain : ∃ cells, Plain chosen.result cells) (held : chosen.Held)
    (begun : chosen.Begun)
    (member : x ∈ primaryReaders chosen.result chosen.fallback) :
    x ∈ primaryReaders
      (reopenReaders env er prid matching learned chosen).result
      chosen.fallback := by
  have old : ∀ node, chosen.fallback = some node →
      node < chosen.result.fresh := by
    obtain ⟨cells, plain⟩ := plain
    intro node first
    exact plain.allocated node (plain.cells_eq ▸ held node first)
  dsimp only [reopenReaders]
  split
  · by_cases unused : chosen.n = 0
    · -- nothing was chosen: there is no fallback
      have without : chosen.fallback = none := by
        by_contra other
        exact (begun other).1 unused
      rw [without] at member ⊢
      obtain ⟨cells, whole⟩ := plain
      rw [primaryReaders_none whole] at member
      have kept := @objects_reopen env er prid x (objects matching)
        { s := chosen.s, result := chosen.result, nreaders := chosen.nreaders }
        nonNull ⟨cells, whole⟩ member
      rw [if_pos unused]
      obtain ⟨inside, cells', plain'⟩ := kept
      rw [← primaryReaders_none plain'] at inside
      split
      · apply primaryReaders_retry nonNull ⟨_, plain'⟩ _ (.inl inside)
        exact fun node none => by cases none
      · exact inside
    · rw [if_neg unused]
      split
      · exact primaryReaders_retry nonNull plain old (.inl member)
      · exact member
  · exact member

/-! ## Choosing -/

/-- What every turn of the loop keeps holds at its end. -/
theorem chooseBest_keeps {P : Choosing → Prop} {fuel : Nat} {v : Choosing}
    (turn : ∀ v best place, v.nreaders ≠ 0 →
      bestValue (v.nlocalReaders != 0) (fun rdr => (v.s.readers rdr).network)
        v.selected.zipIdx none = some (best, place) →
      P v → P (takeBest env timeoutServices v best place).1)
    (start : P v) : P (chooseBest env timeoutServices fuel v) := by
  induction fuel generalizing v with
  | zero => exact start
  | succ fuel induction =>
      rw [chooseBest]
      split
      · exact start
      · rename_i left
        split
        · exact start
        · rename_i best place found
          have next := turn v best place left found start
          dsimp only
          split
          · exact induction next
          · exact next

theorem bestValue_open {v : Choosing} {localOnly : Bool}
    {network : ReaderId → Bool} {best : StatValue} {place : Nat}
    (found : bestValue localOnly network v.selected.zipIdx none =
      some (best, place)) :
    v.selected[place]? = some best ∧ best.value ≠ 0 := by
  rcases bestValue_eq found with none | ⟨member, value⟩
  · cases none
  · exact ⟨List.mem_zipIdx_iff_getElem?.mp member, value⟩

/-- A primary reader stays one to the end of the loop. -/
theorem primaryReaders_chooseBest {all : List ReaderId}
    (nonNull : ∀ rdr ∈ all, rdr ≠ 0) {fuel : Nat} {v : Choosing}
    (built : Built all v.result (openReaders v.selected)) (held : v.Held)
    (member : x ∈ primaryReaders v.result v.fallback) :
    x ∈ primaryReaders (chooseBest env timeoutServices fuel v).result
      (chooseBest env timeoutServices fuel v).fallback := by
  let P (v : Choosing) : Prop :=
    Built all v.result (openReaders v.selected) ∧ v.Held ∧
      x ∈ primaryReaders v.result v.fallback
  have all : P (chooseBest env timeoutServices fuel v) := by
    apply chooseBest_keeps _ ⟨built, held, member⟩
    rintro v best place _ found ⟨built, held, member⟩
    obtain ⟨here, value⟩ := bestValue_open found
    obtain ⟨next, _, keeps⟩ := @takeBest_built env all nonNull
      timeoutServices v best place value here built held
    refine ⟨next, keeps, ?_⟩
    have known : best.rdr ∈ all := by
      apply built.known
      apply List.mem_append_right
      exact (openReaders_perm here value).symm.subset List.mem_cons_self
    obtain ⟨cells, plain⟩ := built.plain
    rcases (takeBest_cases env timeoutServices v best place).2 with
      ⟨result, fallback⟩ | ⟨result, fallback⟩
    · rw [result]
      exact primaryReaders_append plain (nonNull _ known) fallback member
    · rw [result, fallback]
      exact member
  exact all.2.2

end Oscam.Stat
