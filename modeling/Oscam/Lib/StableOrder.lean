import Mathlib.Data.List.Count
import Mathlib.Data.List.Flatten
import Mathlib.Data.List.Range

/-!
# Stable orders

Items are put in the order of their keys, those with the same key in the order
in which they came: for each key in turn, all items that have it.
-/

namespace StableOrder

variable {α : Type} {key : α → Nat} {items sorted : List α} {k bound : Nat}

/-- The items with the keys below `k`, key by key. -/
def buckets (key : α → Nat) (items : List α) (k : Nat) : List α :=
  (List.range k).flatMap fun t => items.filter fun item => key item = t

/-- A list has the same items in the order of their keys, and those with one
key in the order in which they came. -/
structure Stable (key : α → Nat) (sorted items : List α) : Prop where
  order : sorted.Pairwise fun a b => key a ≤ key b
  kept : ∀ t, sorted.filter (fun item => key item = t) =
    items.filter fun item => key item = t

theorem Stable.mem_iff (stable : Stable key sorted items) {item : α} :
    item ∈ sorted ↔ item ∈ items := by
  have bucket := congrArg (item ∈ ·) (stable.kept (key item))
  simpa using bucket

/-- Every item is there as often as it was. -/
theorem Stable.perm [DecidableEq α] (stable : Stable key sorted items) :
    sorted.Perm items := by
  rw [List.perm_iff_count]
  intro item
  have bucket := congrArg (List.count item) (stable.kept (key item))
  rwa [List.count_filter (by simp), List.count_filter (by simp)] at bucket

/-! ## Key by key -/

@[simp] theorem buckets_zero (key : α → Nat) (items : List α) :
    buckets key items 0 = [] := rfl

theorem buckets_succ (key : α → Nat) (items : List α) (k : Nat) :
    buckets key items (k + 1) =
      buckets key items k ++ items.filter fun item => key item = k := by
  unfold buckets
  rw [List.range_succ, List.flatMap_append, List.flatMap_singleton]

theorem mem_buckets {item : α} :
    item ∈ buckets key items k ↔ item ∈ items ∧ key item < k := by
  unfold buckets
  simp only [List.mem_flatMap, List.mem_range, List.mem_filter,
    decide_eq_true_eq]
  constructor
  · rintro ⟨t, below, member, rfl⟩
    exact ⟨member, below⟩
  · rintro ⟨member, below⟩
    exact ⟨key item, below, member, rfl⟩

theorem buckets_prefix (key : α → Nat) (items : List α) (more : k ≤ bound) :
    buckets key items k <+: buckets key items bound := by
  obtain ⟨rest, rfl⟩ := Nat.le.dest more
  induction rest with
  | zero => exact List.prefix_rfl
  | succ rest induction =>
      rw [← Nat.add_assoc, buckets_succ]
      exact (induction (Nat.le_add_right k rest)).trans
        (List.prefix_append _ _)

/-- Keys that no item has add nothing. -/
theorem buckets_gap (more : k ≤ bound)
    (none : ∀ item ∈ items, key item < k ∨ bound ≤ key item) :
    buckets key items bound = buckets key items k := by
  obtain ⟨rest, rfl⟩ := Nat.le.dest more
  induction rest with
  | zero => rfl
  | succ rest induction =>
      have empty : (items.filter fun item => key item = k + rest) = [] := by
        rw [List.filter_eq_nil_iff]
        intro item member here
        have found := none item member
        have key := of_decide_eq_true here
        omega
      rw [← Nat.add_assoc, buckets_succ, empty, List.append_nil]
      refine induction (Nat.le_add_right k rest) fun item member => ?_
      have found := none item member
      omega

theorem buckets_filter (key : α → Nat) (items : List α) (k t : Nat) :
    (buckets key items k).filter (fun item => key item = t) =
      if t < k then items.filter fun item => key item = t else [] := by
  induction k with
  | zero => simp
  | succ k induction =>
      rw [buckets_succ, List.filter_append, induction, List.filter_filter]
      by_cases here : t = k
      · subst here
        simp
      · have none : (items.filter fun item =>
            decide (key item = t) && decide (key item = k)) = [] := by
          rw [List.filter_eq_nil_iff]
          intro item _ both
          have keys := (Bool.and_eq_true _ _).mp both
          exact here ((of_decide_eq_true keys.1).symm.trans
            (of_decide_eq_true keys.2))
        rw [none, List.append_nil]
        by_cases below : t < k
        · rw [if_pos below, if_pos (by omega)]
        · rw [if_neg below, if_neg (by omega)]

theorem pairwise_buckets (key : α → Nat) (items : List α) (k : Nat) :
    (buckets key items k).Pairwise fun a b => key a ≤ key b := by
  induction k with
  | zero => exact .nil
  | succ k induction =>
      rw [buckets_succ, List.pairwise_append]
      have bucket : ∀ item ∈ items.filter (fun item => key item = k),
          key item = k := fun item member =>
        of_decide_eq_true (List.mem_filter.mp member).2
      refine ⟨induction, ?_, ?_⟩
      · refine List.Pairwise.imp_of_mem (R := fun _ _ => True) ?_
          (List.pairwise_of_forall fun _ _ => trivial)
        intro a b first second _
        rw [bucket a first, bucket b second]
      · intro a first b second
        rw [bucket b second]
        exact Nat.le_of_lt (mem_buckets.mp first).2

/-- All keys below a bound, one after the other, give a stable order. -/
theorem stable_buckets (below : ∀ item ∈ items, key item < bound) :
    Stable key (buckets key items bound) items where
  order := pairwise_buckets key items bound
  kept t := by
    rw [buckets_filter]
    by_cases inside : t < bound
    · rw [if_pos inside]
    · rw [if_neg inside]
      refine (List.filter_eq_nil_iff.mpr ?_).symm
      intro item member here
      have key := of_decide_eq_true here
      have limit := below item member
      omega

end StableOrder
