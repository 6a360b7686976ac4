import Mathlib.Data.List.FinRange
import Mathlib.Data.List.Nodup
import Mathlib.Data.List.Pairwise

/-!
# Entries in the order of their keys

The entries of a table are listed by a number, those with the same number in
the order of the table, and those without one not at all.
-/

namespace KeyOrder

variable {n bound bound' : Nat} {key key' : Fin n → Option Nat} {a b : Fin n}

/-- The entries with a number below a bound. -/
def listed (key : Fin n → Option Nat) (bound : Nat) : List (Fin n) :=
  (List.range bound).flatMap fun j =>
    (List.finRange n).filter fun a => key a = some j

/-- An entry comes before another one. -/
def Before (key : Fin n → Option Nat) (a b : Fin n) : Prop :=
  ∃ i j, key a = some i ∧ key b = some j ∧ (i < j ∨ i = j ∧ a < b)

/-- All numbers are below the bound. -/
def Bounded (key : Fin n → Option Nat) (bound : Nat) : Prop :=
  ∀ a j, key a = some j → j < bound

theorem mem_listed : a ∈ listed key bound ↔ ∃ j < bound, key a = some j := by
  unfold listed
  simp only [List.mem_flatMap, List.mem_range, List.mem_filter,
    List.mem_finRange, true_and, decide_eq_true_eq]

theorem Bounded.mem_listed (bounded : Bounded key bound) :
    a ∈ listed key bound ↔ (key a).isSome := by
  rw [KeyOrder.mem_listed, Option.isSome_iff_exists]
  constructor
  · rintro ⟨j, _, found⟩
    exact ⟨j, found⟩
  · rintro ⟨j, found⟩
    exact ⟨j, bounded a j found, found⟩

theorem before_asymm (before : Before key a b) : ¬ Before key b a := by
  rintro ⟨i, j, first, second, order⟩
  obtain ⟨i', j', first', second', order'⟩ := before
  rw [first'] at second
  rw [second'] at first
  cases first
  cases second
  omega

/-- The list is in order. -/
theorem pairwise_listed (key : Fin n → Option Nat) (bound : Nat) :
    (listed key bound).Pairwise (Before key) := by
  unfold listed
  rw [List.pairwise_flatMap]
  constructor
  · intro j _
    have indexes : ((List.finRange n).filter fun a => key a = some j).Pairwise
        (· < ·) :=
      (List.pairwise_lt_finRange n).filter _
    refine indexes.imp_of_mem ?_
    intro a b first second less
    have first := of_decide_eq_true (List.mem_filter.mp first).2
    have second := of_decide_eq_true (List.mem_filter.mp second).2
    exact ⟨j, j, first, second, Or.inr ⟨rfl, less⟩⟩
  · refine List.pairwise_lt_range.imp ?_
    intro i j less a first b second
    have first := of_decide_eq_true (List.mem_filter.mp first).2
    have second := of_decide_eq_true (List.mem_filter.mp second).2
    exact ⟨i, j, first, second, Or.inl less⟩

theorem nodup_listed (key : Fin n → Option Nat) (bound : Nat) :
    (listed key bound).Nodup := by
  refine (pairwise_listed key bound).imp ?_
  rintro a b before rfl
  exact before_asymm before before

/-- Two ways of numbering list the same entries in the same order if and only
if each entry has a number in both or in none, and they compare in the same
way. -/
theorem listed_eq_iff (bounded : Bounded key bound)
    (bounded' : Bounded key' bound') :
    listed key bound = listed key' bound' ↔
      (∀ a, (key a).isSome ↔ (key' a).isSome) ∧
        ∀ a b, Before key a b ↔ Before key' a b := by
  constructor
  · intro same
    have members (a : Fin n) : (key a).isSome ↔ (key' a).isSome := by
      rw [← bounded.mem_listed, ← bounded'.mem_listed, same]
    refine ⟨members, ?_⟩
    have both : (listed key bound).Pairwise fun a b =>
        (Before key a b ∧ Before key' a b) ∨
          (Before key b a ∧ Before key' b a) := by
      have other := pairwise_listed key' bound'
      rw [← same] at other
      exact ((pairwise_listed key bound).and other).imp Or.inl
    have symmetric : Std.Symm fun a b : Fin n =>
        (Before key a b ∧ Before key' a b) ∨
          (Before key b a ∧ Before key' b a) := ⟨fun _ _ => Or.symm⟩
    have together (a b : Fin n) (first : (key a).isSome)
        (second : (key b).isSome) (different : a ≠ b) :=
      both.forall (bounded.mem_listed.mpr first) (bounded.mem_listed.mpr second)
        different
    intro a b
    constructor
    · intro before
      obtain ⟨i, j, first, second, order⟩ := before
      have different : a ≠ b := by
        rintro rfl
        rw [first] at second
        cases second
        omega
      rcases together a b (first ▸ rfl) (second ▸ rfl) different with
        here | there
      · exact here.2
      · exact absurd there.1 (before_asymm ⟨i, j, first, second, order⟩)
    · intro before
      obtain ⟨i, j, first, second, order⟩ := before
      have different : a ≠ b := by
        rintro rfl
        rw [first] at second
        cases second
        omega
      rcases together a b ((members a).mpr (first ▸ rfl))
          ((members b).mpr (second ▸ rfl)) different with here | there
      · exact here.1
      · exact absurd there.2 (before_asymm ⟨i, j, first, second, order⟩)
  · rintro ⟨members, order⟩
    have inOrder := pairwise_listed key bound
    refine List.Perm.eq_of_pairwise ?_ inOrder ?_ ?_
    · intro a b _ _ before after
      exact absurd after (before_asymm before)
    · exact (pairwise_listed key' bound').imp fun before =>
        (order _ _).mpr before
    · rw [List.perm_ext_iff_of_nodup (nodup_listed key bound)
        (nodup_listed key' bound')]
      intro a
      rw [bounded.mem_listed, bounded'.mem_listed, members]

end KeyOrder
