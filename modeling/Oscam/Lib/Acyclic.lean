import Mathlib.Data.Set.Finite.List
import Mathlib.Logic.Relation
import Mathlib.Order.WellFounded

/-!
# Relations without cycles

A relation that has no cycles and leads only into a finite set is well
founded, so that a recursion may follow it.
-/

namespace Relation

variable {α : Type*} {r : α → α → Prop}

/-- A relation along which a number falls has no cycles. -/
theorem acyclic_of_rank (rank : α → Nat)
    (falls : ∀ a b, r a b → rank b < rank a) (a : α) :
    ¬ TransGen r a a := by
  have less (b : α) (path : TransGen r a b) : rank b < rank a := by
    induction path with
    | single step => exact falls _ _ step
    | tail _path step induction => exact (falls _ _ step).trans induction
  intro cycle
  exact Nat.lt_irrefl _ (less a cycle)

/-- The places of a chain are connected. -/
theorem transGen_of_chain {chain : Nat → α}
    (steps : ∀ n, r (chain n) (chain (n + 1))) (n k : Nat) :
    TransGen r (chain n) (chain (n + k + 1)) := by
  induction k with
  | zero => exact .single (steps n)
  | succ k induction => exact induction.tail (steps (n + k + 1))

theorem wellFounded_of_acyclic (acyclic : ∀ a, ¬ TransGen r a a)
    {targets : Set α} (finite : targets.Finite)
    (inside : ∀ a b, r a b → b ∈ targets) :
    WellFounded fun b a => r a b := by
  rw [wellFounded_iff_isEmpty_descending_chain]
  refine ⟨fun ⟨chain, steps⟩ => ?_⟩
  have apart (n k : Nat) : chain (n + 1) ≠ chain (n + k + 1 + 1) := by
    intro same
    have path := transGen_of_chain steps (n + 1) k
    have place : n + 1 + k + 1 = n + k + 1 + 1 := by omega
    rw [place, ← same] at path
    exact acyclic _ path
  have injective : Function.Injective fun n => chain (n + 1) := by
    intro n m same
    by_contra different
    rcases Nat.lt_or_gt_of_ne different with less | less
    · obtain ⟨k, rfl⟩ := Nat.exists_eq_add_of_lt less
      exact apart n k same
    · obtain ⟨k, rfl⟩ := Nat.exists_eq_add_of_lt less
      exact apart m k same.symm
  exact Set.infinite_of_injective_forall_mem injective
    (fun n => inside _ _ (steps n)) finite

end Relation
