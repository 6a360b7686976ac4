import Mathlib.Algebra.Ring.Nat
import Mathlib.Data.List.Forall2

/-!
# Texts with separators

What is between the separators of a text, and what of it is in the text.
-/

namespace Separated

variable {α : Type} {separator : α}

/-! ## Putting fields together -/

theorem mem_intercalate {c : α} {fields : List (List α)}
    (member : c ∈ [separator].intercalate fields) :
    c = separator ∨ ∃ field ∈ fields, c ∈ field := by
  induction fields with
  | nil => exact absurd member List.not_mem_nil
  | cons field fields induction =>
      by_cases last : fields = []
      · subst last
        rw [List.intercalate_singleton] at member
        exact Or.inr ⟨field, List.mem_cons_self, member⟩
      · rw [List.intercalate_cons_of_ne_nil last] at member
        rcases List.mem_append.mp member with front | later
        · rcases List.mem_append.mp front with inside | between
          · exact Or.inr ⟨field, List.mem_cons_self, inside⟩
          · exact Or.inl (List.mem_singleton.mp between)
        · rcases induction later with between | ⟨other, listed, inside⟩
          · exact Or.inl between
          · exact Or.inr ⟨other, List.mem_cons_of_mem _ listed, inside⟩

theorem not_mem_intercalate {c : α} {fields : List (List α)}
    (other : c ≠ separator) (plain : ∀ field ∈ fields, c ∉ field) :
    c ∉ [separator].intercalate fields := by
  intro member
  rcases mem_intercalate member with same | ⟨field, listed, inside⟩
  · exact other same
  · exact plain field listed inside

theorem length_intercalate_le {most : Nat} {fields : List (List α)}
    (short : ∀ field ∈ fields, field.length ≤ most) :
    ([separator].intercalate fields).length ≤ fields.length * (most + 1) := by
  induction fields with
  | nil => exact Nat.zero_le _
  | cons field fields induction =>
      have first := short field List.mem_cons_self
      have rest := induction fun field member =>
        short field (List.mem_cons_of_mem _ member)
      rw [List.length_cons, Nat.add_mul]
      by_cases last : fields = []
      · subst last
        rw [List.intercalate_singleton]
        omega
      · rw [List.intercalate_cons_of_ne_nil last, List.length_append,
          List.length_append, List.length_singleton]
        omega

/-- A field goes behind the others. -/
theorem intercalate_append_singleton (fields : List (List α))
    (last : List α) :
    [separator].intercalate (fields ++ [last]) =
      [separator].intercalate fields ++
        (if fields = [] then [] else [separator]) ++ last := by
  induction fields with
  | nil => simp
  | cons field fields induction =>
      have some : fields ++ [last] ≠ [] := by simp
      rw [List.cons_append, List.intercalate_cons_of_ne_nil some, induction,
        if_neg (List.cons_ne_nil _ _)]
      by_cases none : fields = []
      · subst none
        simp
      · rw [if_neg none, List.intercalate_cons_of_ne_nil none]
        simp only [List.append_assoc]

/-- Fields behind others, with one more separator. -/
theorem intercalate_append {front back : List (List α)} (some : front ≠ [])
    (others : back ≠ []) :
    [separator].intercalate (front ++ back) =
      [separator].intercalate front ++
        separator :: [separator].intercalate back := by
  induction front with
  | nil => exact absurd rfl some
  | cons field front induction =>
      rw [List.cons_append, List.intercalate_cons_of_ne_nil (by simp [others])]
      by_cases last : front = []
      · subst last
        simp
      · rw [induction last, List.intercalate_cons_of_ne_nil last]
        simp

/-- Every field but the last is followed by a separator. -/
theorem length_intercalate (separator : α) {fields : List (List α)}
    (some : fields ≠ []) :
    ([separator].intercalate fields).length + 1 =
      (fields.map fun field => field.length + 1).sum := by
  induction fields with
  | nil => exact absurd rfl some
  | cons field fields induction =>
      rw [List.map_cons, List.sum_cons]
      by_cases last : fields = []
      · subst last
        rw [List.intercalate_singleton]
        rfl
      · rw [List.intercalate_cons_of_ne_nil last, List.length_append,
          List.length_append, List.length_singleton, ← induction last]
        omega

theorem length_intercalate_le_sum (separator : α) (fields : List (List α)) :
    ([separator].intercalate fields).length ≤
      (fields.map fun field => field.length + 1).sum := by
  by_cases some : fields = []
  · subst some
    exact Nat.zero_le _
  · have total := length_intercalate separator some
    omega

/-- Behind a field that is not the last there is a separator. -/
theorem intercalate_concat {front : List (List α)} {token : List α}
    (listed : token ∈ front) (last : List α) :
    ∃ before behind, [separator].intercalate (front ++ [last]) =
      before ++ token ++ separator :: behind := by
  induction front with
  | nil => exact absurd listed List.not_mem_nil
  | cons field front induction =>
      have some : front ++ [last] ≠ [] := by simp
      rw [List.cons_append, List.intercalate_cons_of_ne_nil some]
      rcases List.mem_cons.mp listed with rfl | later
      · exact ⟨[], [separator].intercalate (front ++ [last]), by simp⟩
      · obtain ⟨before, behind, split⟩ := induction later
        exact ⟨field ++ [separator] ++ before, behind, by
          rw [split]
          simp only [List.append_assoc]⟩

/-! ## Between two lists -/

theorem modify_middle (front back : List α) (x : α)
    (change : α → α) :
    (front ++ x :: back).modify front.length change =
      front ++ change x :: back := by
  induction front with
  | nil => rfl
  | cons first front induction =>
      rw [List.cons_append, List.length_cons, List.modify_succ_cons,
        induction, List.cons_append]

/-- What holds wherever a list is split holds so for the list without its last
element and for this element. -/
theorem forall_split_append_singleton {P : List α → α → Prop} {xs : List α}
    {x : α} :
    (∀ front y back, xs ++ [x] = front ++ y :: back → P front y) ↔
      (∀ front y back, xs = front ++ y :: back → P front y) ∧ P xs x := by
  constructor
  · intro all
    refine ⟨fun front y back split => ?_, all xs x [] rfl⟩
    exact all front y (back ++ [x]) (by simp [split])
  · rintro ⟨all, last⟩ front y back split
    rcases List.eq_nil_or_concat back with rfl | ⟨back', final, rfl⟩
    · obtain ⟨rfl, one⟩ := List.append_inj' split rfl
      cases one
      exact last
    · rw [List.concat_eq_append, ← List.cons_append, ← List.append_assoc]
        at split
      exact all front y back' (List.append_inj' split rfl).1

/-- What is first in a list stays first when others come behind it. -/
theorem forall_head_of_append {P : α → Prop} {front back : List α}
    (all : ∀ x ∈ (front ++ back).head?, P x) : ∀ x ∈ front.head?, P x := by
  intro x there
  apply all x
  rw [List.head?_append, Option.mem_def.mp there]
  rfl

/-! ## Taking a text apart -/

theorem not_mem_of_mem_splitOn [BEq α] [LawfulBEq α] {txt token : List α}
    (listed : token ∈ txt.splitOn separator) : separator ∉ token := by
  induction txt generalizing token with
  | nil =>
      rw [List.splitOn_nil] at listed
      rw [List.mem_singleton.mp listed]
      exact List.not_mem_nil
  | cons c txt induction =>
      rw [List.splitOn_cons_eq_if_modifyHead] at listed
      split at listed
      · rcases List.mem_cons.mp listed with rfl | later
        · exact List.not_mem_nil
        · exact induction later
      · rename_i other
        obtain ⟨first, rest, split⟩ :=
          List.exists_cons_of_ne_nil (List.splitOn_ne_nil separator txt)
        rw [split, List.modifyHead_cons] at listed
        rcases List.mem_cons.mp listed with rfl | later
        · intro member
          rcases List.mem_cons.mp member with same | inside
          · exact other (by simp [same])
          · exact induction (split ▸ List.mem_cons_self) inside
        · exact induction (split ▸ List.mem_cons_of_mem _ later)

/-- What stands in a token stands in the text. -/
theorem mem_of_mem_splitOn [BEq α] {txt token : List α}
    (listed : token ∈ txt.splitOn separator) : ∀ c ∈ token, c ∈ txt := by
  induction txt generalizing token with
  | nil =>
      rw [List.splitOn_nil] at listed
      rw [List.mem_singleton.mp listed]
      exact fun _ member => member
  | cons c txt induction =>
      rw [List.splitOn_cons_eq_if_modifyHead] at listed
      intro x member
      split at listed
      · rcases List.mem_cons.mp listed with rfl | later
        · cases member
        · exact List.mem_cons_of_mem _ (induction later x member)
      · obtain ⟨first, rest, split⟩ :=
          List.exists_cons_of_ne_nil (List.splitOn_ne_nil separator txt)
        rw [split, List.modifyHead_cons] at listed
        rcases List.mem_cons.mp listed with rfl | later
        · rcases List.mem_cons.mp member with rfl | inside
          · exact List.mem_cons_self
          · exact List.mem_cons_of_mem _
              (induction (split ▸ List.mem_cons_self) x inside)
        · exact List.mem_cons_of_mem _
            (induction (split ▸ List.mem_cons_of_mem _ later) x member)

/-! ## Reading every field -/

/-- The results of a traversal stand behind one another as the inputs do. -/
theorem forall₂_of_mapM {β : Type} {f : α → Option β} {xs : List α}
    {ys : List β} (done : xs.mapM f = some ys) :
    List.Forall₂ (fun x y => f x = some y) xs ys := by
  induction xs generalizing ys with
  | nil =>
      rw [List.mapM_nil] at done
      cases done
      exact .nil
  | cons x xs induction =>
      rw [List.mapM_cons] at done
      obtain ⟨y, first, rest⟩ := Option.bind_eq_some_iff.mp done
      obtain ⟨others, later, made⟩ := Option.bind_eq_some_iff.mp rest
      cases made
      exact .cons first (induction later)

theorem forall_of_mapM {β : Type} {f : α → Option β} {xs : List α}
    {ys : List β} {P : β → Prop} (done : xs.mapM f = some ys)
    (each : ∀ x y, f x = some y → P y) : ∀ y ∈ ys, P y := by
  have results := forall₂_of_mapM done
  clear done
  induction results with
  | nil => exact fun _ member => absurd member List.not_mem_nil
  | cons read _ induction =>
      intro y member
      rcases List.mem_cons.mp member with rfl | later
      · exact each _ y read
      · exact induction y later

theorem mapM_eq_self_iff {β : Type} {f : α → Option β} {g : β → α}
    {ys : List β} :
    (ys.map g).mapM f = some ys ↔ ∀ y ∈ ys, f (g y) = some y := by
  constructor
  · intro done
    have each := forall₂_of_mapM done
    rw [List.forall₂_map_left_iff, List.forall₂_same] at each
    exact each
  · intro each
    induction ys with
    | nil => rfl
    | cons y ys induction =>
        rw [List.map_cons, List.mapM_cons, each y List.mem_cons_self,
          induction fun other member => each other
            (List.mem_cons_of_mem _ member)]
        rfl

end Separated
