import Mathlib.Data.List.Basic

/-!
# Lists of rules

A list of rules is gone through in its order.  A rule that refuses ends the
pass, and otherwise one rule that accepts is enough.
-/

/-- The answer of a pass through a list of rules that starts with `rc`. -/
def verdict {ι : Type} (refuses accepts : ι → Bool) : List ι → Bool → Bool
  | [], rc => rc
  | rule :: rules, rc =>
      if refuses rule then false
      else verdict refuses accepts rules (rc || accepts rule)

/-- The order of the rules does not matter: no rule may refuse, and unless the
pass started with a positive answer one must accept. -/
theorem verdict_iff {ι : Type} {refuses accepts : ι → Bool}
    {rules : List ι} {rc : Bool} :
    verdict refuses accepts rules rc = true ↔
      (∀ rule ∈ rules, refuses rule = false) ∧
        (rc = true ∨ ∃ rule ∈ rules, accepts rule = true) := by
  induction rules generalizing rc with
  | nil => simp [verdict]
  | cons rule rules induction =>
      rw [verdict]
      by_cases refused : refuses rule = true
      · simp [refused]
      · have kept : refuses rule = false := by simpa using refused
        rw [if_neg refused, induction]
        simp [kept, or_assoc]
