import Mathlib.Data.List.Basic
import Mathlib.Logic.Function.Iterate

/-!
# Renaming along a list

A name is compared with the names of a list, one after the other, and wherever
it is met it is replaced by the next name.  The result depends on how long a
chain of names the list has in its order.
-/

namespace Renaming

variable {α : Type}

/-- The first names that a name would be replaced by. -/
def chain (next : α → α) (x : α) (k : Nat) : List α :=
  (List.range k).map (next^[·] x)

theorem chain_succ (next : α → α) (x : α) (k : Nat) :
    chain next x (k + 1) = x :: chain next (next x) k := by
  unfold chain
  rw [List.range_succ_eq_map, List.map_cons, List.map_map]
  rfl

/-- The list has so many names of the chain in its order, and no more. -/
def Meets (next : α → α) (names : List α) (x : α) (k : Nat) : Prop :=
  (chain next x k).Sublist names ∧ ¬ (chain next x (k + 1)).Sublist names

variable [DecidableEq α] {next : α → α} {names : List α} {x : α} {k : Nat}

def rename (next : α → α) (names : List α) (x : α) : α :=
  names.foldl (fun x name => if name = x then next x else x) x

/-- How often a name is met. -/
def met (next : α → α) : List α → α → Nat
  | [], _ => 0
  | name :: names, x =>
      if name = x then met next names (next x) + 1 else met next names x

theorem rename_eq (next : α → α) (names : List α) (x : α) :
    rename next names x = next^[met next names x] x := by
  unfold rename
  induction names generalizing x with
  | nil => rfl
  | cons name names induction =>
      rw [List.foldl_cons, met]
      by_cases same : name = x
      · rw [if_pos same, if_pos same, induction, Function.iterate_succ_apply]
      · rw [if_neg same, if_neg same, induction]

/-- Taking the first place for every name finds the longest chain. -/
theorem chain_sublist_iff :
    (chain next x k).Sublist names ↔ k ≤ met next names x := by
  induction names generalizing x k with
  | nil =>
      rw [List.sublist_nil, met, Nat.le_zero]
      unfold chain
      rw [List.map_eq_nil_iff, List.range_eq_nil]
  | cons name names induction =>
      cases k with
      | zero => exact iff_of_true (List.nil_sublist _) (Nat.zero_le _)
      | succ k =>
          rw [chain_succ, met]
          by_cases same : name = x
          · subst same
            rw [if_pos rfl, List.cons_sublist_cons, induction,
              Nat.succ_le_succ_iff]
          · have other : x ≠ name := fun equal => same equal.symm
            rw [if_neg same, List.cons_sublist_cons', ← chain_succ, induction]
            simp [other]

theorem meets_iff : Meets next names x k ↔ k = met next names x := by
  unfold Meets
  rw [chain_sublist_iff, chain_sublist_iff]
  omega

end Renaming
