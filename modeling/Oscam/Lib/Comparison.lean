import Mathlib.Data.Set.Basic
import Mathlib.Order.Basic

/-!
# Comparing by differences

A comparison of records that subtracts one field after the other in machine
integers, and what a sorting function makes of a comparison.  A comparison with
differences that wrap is the lexicographic one where the first difference keeps
its sign.
-/

namespace Comparison

/-! ## Sorting -/

variable {α : Type}

/-- What a sorting function may rely on, for some records. -/
structure Preorder (cmp : α → α → Int) (records : Set α) : Prop where
  antisymm : ∀ a ∈ records, ∀ b ∈ records, (cmp b a).sign = -(cmp a b).sign
  trans : ∀ a ∈ records, ∀ b ∈ records, ∀ c ∈ records,
    cmp a b ≤ 0 → cmp b c ≤ 0 → cmp a c ≤ 0

theorem Preorder.mono {cmp : α → α → Int} {few many : Set α}
    (order : Preorder cmp many) (inside : few ⊆ many) : Preorder cmp few where
  antisymm a inA b inB := order.antisymm a (inside inA) b (inside inB)
  trans a inA b inB c inC := order.trans a (inside inA) b (inside inB) c
    (inside inC)

/-- What `qsort` may make of a list.  It promises an order only for a
comparison that is one. -/
structure Sorts (cmp : α → α → Int) (before after : List α) : Prop where
  perm : after.Perm before
  sorted : Preorder cmp {a | a ∈ before} → after.Pairwise fun a b => cmp a b ≤ 0

/-- Two records in order stay where they are. -/
theorem Sorts.pair {cmp : α → α → Int} {a b : α} (order : cmp a b ≤ 0) :
    Sorts cmp [a, b] [a, b] where
  perm := List.Perm.refl _
  sorted _ := List.pairwise_pair.mpr order

/-! ## Differences that wrap -/

/-- The first difference that is not zero. -/
def differ (m : Nat) : List Int → List Int → Int
  | x :: xs, y :: ys =>
      let res := (x - y).bmod m
      if res ≠ 0 then res else differ m xs ys
  | _, _ => 0

/-- The first difference keeps its sign. -/
def Kept (m : Nat) : List Int → List Int → Prop
  | x :: xs, y :: ys =>
      if x = y then Kept m xs ys else ((x - y).bmod m).sign = (x - y).sign
  | _, _ => True

/-- The lexicographic order. -/
abbrev Before (xs ys : List Int) : Prop := List.Lex (· < ·) xs ys

theorem before_cons_iff {x y : Int} {xs ys : List Int} :
    Before (x :: xs) (y :: ys) ↔ x < y ∨ x = y ∧ Before xs ys :=
  List.cons_lex_cons_iff

/-- What comes between two lists, one of them or none. -/
theorem before_cases {xs ys zs : List Int} (length : xs.length = ys.length)
    (before : Before xs zs) : Before xs ys ∨ Before ys zs := by
  induction xs generalizing ys zs with
  | nil =>
      obtain rfl := List.length_eq_zero_iff.mp length.symm
      exact .inr before
  | cons x xs induction => cases ys with
    | nil => exact absurd length (Nat.succ_ne_zero _)
    | cons y ys => cases zs with
      | nil => exact absurd before List.not_lex_nil
      | cons z zs =>
          rw [before_cons_iff] at before
          rw [before_cons_iff, before_cons_iff]
          rcases lt_trichotomy x y with below | same | above
          · exact .inl (.inl below)
          · rcases before with below | ⟨equal, before⟩
            · exact .inr (.inl (same ▸ below))
            · rcases induction (Nat.succ.inj length) before with left | right
              · exact .inl (.inr ⟨same, left⟩)
              · exact .inr (.inr ⟨same ▸ equal, right⟩)
          · refine .inr (.inl ?_)
            rcases before with below | ⟨equal, _⟩
            · exact above.trans below
            · exact equal ▸ above

variable {m : Nat}

theorem differ_cons_self (m : Nat) (x : Int) (xs ys : List Int) :
    differ m (x :: xs) (x :: ys) = differ m xs ys := by
  have zero : (x - x).bmod m = 0 := by
    rw [Int.sub_self, Int.zero_bmod]
  exact if_neg (not_not.mpr zero)

theorem differ_cons_of_ne {x y : Int} (res : (x - y).bmod m ≠ 0)
    (xs ys : List Int) :
    differ m (x :: xs) (y :: ys) = (x - y).bmod m := if_pos res

/-- The comparison the other way round, which wraps as well. -/
theorem differ_swap (m : Nat) (xs ys : List Int) :
    differ m ys xs = (-differ m xs ys).bmod m := by
  induction xs generalizing ys with
  | nil => cases ys with
    | nil => exact (Int.zero_bmod).symm
    | cons y ys => exact (Int.zero_bmod).symm
  | cons x xs induction => cases ys with
    | nil => exact (Int.zero_bmod).symm
    | cons y ys =>
        have turned : (y - x).bmod m = (-(x - y).bmod m).bmod m := by
          have neg : (0 - (x - y).bmod m).bmod m = (0 - (x - y)).bmod m :=
            Int.sub_bmod_bmod
          rw [Int.zero_sub, Int.zero_sub, Int.neg_sub] at neg
          exact neg.symm
        by_cases zero : (x - y).bmod m = 0
        · have zero' : (y - x).bmod m = 0 := by
            rw [turned, zero, Int.neg_zero, Int.zero_bmod]
          have left : differ m (y :: ys) (x :: xs) = differ m ys xs :=
            if_neg (not_not.mpr zero')
          have right : differ m (x :: xs) (y :: ys) = differ m xs ys :=
            if_neg (not_not.mpr zero)
          rw [left, right, induction]
        · have nonzero : (y - x).bmod m ≠ 0 := by
            intro zero'
            have back : (x - y).bmod m = (-(y - x).bmod m).bmod m := by
              have neg : (0 - (y - x).bmod m).bmod m = (0 - (y - x)).bmod m :=
                Int.sub_bmod_bmod
              rw [Int.zero_sub, Int.zero_sub, Int.neg_sub] at neg
              exact neg.symm
            rw [zero', Int.neg_zero, Int.zero_bmod] at back
            exact zero back
          rw [differ_cons_of_ne nonzero, differ_cons_of_ne zero, turned]

/-- Where the first difference keeps its sign, the comparison is the
lexicographic one. -/
theorem differ_lex {xs ys : List Int} (length : xs.length = ys.length)
    (kept : Kept m xs ys) :
    (differ m xs ys < 0 ↔ Before xs ys) ∧
      (0 < differ m xs ys ↔ Before ys xs) := by
  induction xs generalizing ys with
  | nil =>
      obtain rfl := List.length_eq_zero_iff.mp length.symm
      exact ⟨iff_of_false (lt_irrefl 0) List.not_lex_nil,
        iff_of_false (lt_irrefl 0) List.not_lex_nil⟩
  | cons x xs induction => cases ys with
    | nil => exact absurd length (Nat.succ_ne_zero _)
    | cons y ys =>
        rw [before_cons_iff, before_cons_iff]
        by_cases same : x = y
        · subst same
          rw [Kept, if_pos rfl] at kept
          obtain ⟨less, more⟩ := induction (Nat.succ.inj length) kept
          rw [differ_cons_self, less, more]
          simp
        · rw [Kept, if_neg same] at kept
          have nonzero : (x - y).bmod m ≠ 0 := by
            intro zero
            rw [zero, Int.sign_zero] at kept
            have := Int.sign_eq_zero_iff_zero.mp kept.symm
            omega
          rw [differ_cons_of_ne nonzero]
          have less : (x - y).bmod m < 0 ↔ x < y := by
            rw [← Int.sign_eq_neg_one_iff_neg, kept,
              Int.sign_eq_neg_one_iff_neg]
            omega
          have more : 0 < (x - y).bmod m ↔ y < x := by
            rw [← Int.sign_eq_one_iff_pos, kept, Int.sign_eq_one_iff_pos]
            omega
          rw [less, more]
          have other : y ≠ x := fun h => same h.symm
          simp [same, other]

/-- All fields but the last are too small for a difference that wraps to
zero. -/
def Narrow (m : Nat) : List Int → List Int → Prop
  | x :: x' :: xs, y :: ys => ((x - y).bmod m = 0 → x = y) ∧ Narrow m (x' :: xs) ys
  | _, _ => True

/-- A comparison that never contradicts the lexicographic one. -/
theorem kept_of_differ {xs ys : List Int} (length : xs.length = ys.length)
    (narrow : Narrow m xs ys)
    (less : Before xs ys → differ m xs ys < 0)
    (more : Before ys xs → 0 < differ m xs ys) : Kept m xs ys := by
  induction xs generalizing ys with
  | nil =>
      obtain rfl := List.length_eq_zero_iff.mp length.symm
      trivial
  | cons x xs induction => cases ys with
    | nil => trivial
    | cons y ys =>
        unfold Kept
        by_cases same : x = y
        · subst same
          rw [if_pos rfl]
          rw [differ_cons_self] at less more
          have rest : Narrow m xs ys := by
            cases xs with
            | nil => trivial
            | cons x' xs => exact narrow.2
          exact induction (Nat.succ.inj length) rest
            (fun below => less (before_cons_iff.mpr (.inr ⟨rfl, below⟩)))
            fun below => more (before_cons_iff.mpr (.inr ⟨rfl, below⟩))
        · rw [if_neg same]
          have first : differ m (x :: xs) (y :: ys) = (x - y).bmod m := by
            by_cases zero : (x - y).bmod m = 0
            · have last : xs = [] := by
                cases xs with
                | nil => rfl
                | cons x' xs => exact absurd (narrow.1 zero) same
              subst last
              have behind : differ m [x] (y :: ys) = differ m [] ys :=
                if_neg (not_not.mpr zero)
              rw [behind, zero]
              cases ys with
              | nil => rfl
              | cons _ _ => rfl
            · exact differ_cons_of_ne zero xs ys
          rw [first] at less more
          rcases lt_or_gt_of_ne same with below | above
          · have negative := less (before_cons_iff.mpr (.inl below))
            rw [Int.sign_eq_neg_one_of_neg negative,
              Int.sign_eq_neg_one_of_neg (by omega)]
          · have positive := more (before_cons_iff.mpr (.inl above))
            rw [Int.sign_eq_one_of_pos positive,
              Int.sign_eq_one_of_pos (by omega)]

/-! ## Sorting by keys -/

variable {key : α → List Int} {records : Set α}

/-- The comparison of two keys. -/
def byKey (m : Nat) (key : α → List Int) (a b : α) : Int :=
  differ m (key a) (key b)

theorem byKey_le_iff {a b : α} (length : (key a).length = (key b).length)
    (kept : Kept m (key a) (key b)) :
    byKey m key a b ≤ 0 ↔ ¬ Before (key b) (key a) := by
  rw [← not_lt]
  exact not_congr (differ_lex length kept).2

theorem preorder_of_kept
    (length : ∀ a ∈ records, ∀ b ∈ records, (key a).length = (key b).length)
    (kept : ∀ a ∈ records, ∀ b ∈ records, Kept m (key a) (key b)) :
    Preorder (byKey m key) records where
  antisymm a inA b inB := by
    obtain ⟨less, more⟩ := differ_lex (length a inA b inB) (kept a inA b inB)
    obtain ⟨less', more'⟩ := differ_lex (length b inB a inA) (kept b inB a inA)
    rcases lt_trichotomy (byKey m key a b) 0 with below | zero | above
    · have turned : 0 < byKey m key b a := more'.mpr (less.mp below)
      rw [Int.sign_eq_one_of_pos turned, Int.sign_eq_neg_one_of_neg below]
      rfl
    · have notLess : ¬ Before (key a) (key b) := fun h => absurd (less.mpr h) (by
        rw [byKey] at zero
        omega)
      have notMore : ¬ Before (key b) (key a) := fun h => absurd (more.mpr h) (by
        rw [byKey] at zero
        omega)
      have low := mt less'.mp notMore
      have high := mt more'.mp notLess
      have turned : byKey m key b a = 0 := by
        unfold byKey
        omega
      rw [turned, zero]
      rfl
    · have turned : byKey m key b a < 0 := less'.mpr (more.mp above)
      rw [Int.sign_eq_neg_one_of_neg turned, Int.sign_eq_one_of_pos above]
  trans a inA b inB c inC := by
    rw [byKey_le_iff (length a inA b inB) (kept a inA b inB),
      byKey_le_iff (length b inB c inC) (kept b inB c inC),
      byKey_le_iff (length a inA c inC) (kept a inA c inC)]
    intro first second both
    rcases before_cases (length c inC b inB) both with below | below
    · exact second below
    · exact first below

/-- Every list of the records comes out of the sorting in the lexicographic
order of the keys. -/
def Orders (cmp : α → α → Int) (key : α → List Int) (records : Set α) : Prop :=
  ∀ before after, (∀ a ∈ before, a ∈ records) → Sorts cmp before after →
    after.Pairwise fun a b => ¬ Before (key b) (key a)

theorem orders_of_kept
    (length : ∀ a ∈ records, ∀ b ∈ records, (key a).length = (key b).length)
    (kept : ∀ a ∈ records, ∀ b ∈ records, Kept m (key a) (key b)) :
    Orders (byKey m key) key records := by
  intro before after inside sorts
  have order := (preorder_of_kept length kept).mono inside
  apply (sorts.sorted order).imp_of_mem
  intro a b inA inB below
  have a_mem := inside a (sorts.perm.mem_iff.mp inA)
  have b_mem := inside b (sorts.perm.mem_iff.mp inB)
  exact (byKey_le_iff (length a a_mem b b_mem) (kept a a_mem b b_mem)).mp below

/-- The order of two records is enough to see their first difference. -/
theorem kept_of_orders
    (length : ∀ a ∈ records, ∀ b ∈ records, (key a).length = (key b).length)
    (narrow : ∀ a ∈ records, ∀ b ∈ records, Narrow m (key a) (key b))
    (preorder : Preorder (byKey m key) records)
    (orders : Orders (byKey m key) key records) {a b : α} (inA : a ∈ records)
    (inB : b ∈ records) : Kept m (key a) (key b) := by
  have separated {a b : α} (inA : a ∈ records) (inB : b ∈ records)
      (below : Before (key a) (key b)) : ¬ byKey m key b a ≤ 0 := by
    intro turned
    have pair := orders [b, a] [b, a]
      (List.forall_mem_cons.mpr ⟨inB, List.forall_mem_singleton.mpr inA⟩)
      (Sorts.pair turned)
    exact List.pairwise_pair.mp pair below
  apply kept_of_differ (length a inA b inB) (narrow a inA b inB)
  · intro below
    have positive : 0 < byKey m key b a := not_le.mp (separated inA inB below)
    have signs := preorder.antisymm b inB a inA
    rw [Int.sign_eq_one_of_pos positive] at signs
    exact Int.sign_eq_neg_one_iff_neg.mp signs
  · intro above
    exact not_le.mp (separated inB inA above)

end Comparison
