import Oscam.LList.Cells

/-!
# Iterators of a list

An iterator caches its node and the node in front of it.  Where both are right,
taking out its node takes out nothing else.
-/

namespace Oscam.LList

variable {l : LList} {cells front back kept : List Nat} {cell obj : Nat}
  {it : LlIter}

/-- The iterator is at no node, or it knows the node in front of its own. -/
def Exact (cells : List Nat) (it : LlIter) : Prop :=
  it.cur = none ∨ ∃ front cell back, cells = front ++ cell :: back ∧
    it = { cur := some cell, prv := front.getLast? }

/-- The iterator is at no node, or at a node of the list that it may take for
the first one. -/
def Loose (cells : List Nat) (it : LlIter) : Prop :=
  it.cur = none ∨ ∃ front cell back kept, cells = front ++ cell :: back ∧
    (kept = [] ∨ kept = front) ∧
      it = { cur := some cell, prv := kept.getLast? }

theorem Exact.loose (exact : Exact cells it) : Loose cells it := by
  rcases exact with free | ⟨front, cell, back, split, rfl⟩
  · exact Or.inl free
  · exact Or.inr ⟨front, cell, back, front, split, Or.inr rfl, rfl⟩

theorem exact_iterCreate (cells : List Nat) : Exact cells iterCreate :=
  Or.inl rfl

/-- An iterator that has passed the nodes `front`. -/
def passed (front : List Nat) : LlIter :=
  { cur := front.getLast?, prv := front.dropLast.getLast? }

theorem passed_concat (front : List Nat) (cell : Nat) :
    passed (front ++ [cell]) =
      { cur := some cell, prv := front.getLast? } := by
  simp [passed]

/-! ## Going on -/

theorem iterNext_data (l : LList) (it : LlIter) :
    (l.iterNext it).2 = match (l.iterNext it).1.cur with
      | some cur => l.obj cur
      | none => 0 := rfl

theorem iterNext_passed (chained : Chained l (front ++ cell :: back)) :
    l.iterNext (passed front) = (passed (front ++ [cell]), l.obj cell) := by
  obtain ⟨head, rest⟩ := Leads.split_iff.mp chained.linked
  rcases List.eq_nil_or_concat front with rfl | ⟨before, last, rfl⟩
  · have first : l.initial = some cell := head
    simp [iterNext, passed, first]
  · rw [List.concat_eq_append] at *
    obtain ⟨_, succ⟩ := Leads.concat_iff.mp head
    rw [passed_concat, passed_concat]
    simp [iterNext, succ]

theorem iterNext_passed_end (chained : Chained l front) :
    (l.iterNext (passed front)).2 = 0 := by
  rcases List.eq_nil_or_concat front with rfl | ⟨before, last, rfl⟩
  · have none : l.initial = none := chained.linked
    simp [iterNext, passed, none]
  · rw [List.concat_eq_append] at *
    obtain ⟨_, succ⟩ := Leads.concat_iff.mp chained.linked
    rw [passed_concat]
    simp [iterNext, succ]

/-- Wherever an iterator comes, it knows the node in front of its own. -/
theorem exact_iterNext (chained : Chained l cells) (loose : Loose cells it) :
    Exact cells (l.iterNext it).1 := by
  rcases loose with free | ⟨front, cell, back, kept, rfl, _, rfl⟩
  · by_cases start : it.prv = none
    · cases cells with
      | nil =>
          have none : l.initial = none := chained.linked
          left
          simp [iterNext, free, start, none]
      | cons cell back =>
          have first : l.initial = some cell := chained.linked.1
          right
          refine ⟨[], cell, back, rfl, ?_⟩
          simp [iterNext, free, start, first]
    · left
      simp [iterNext, free, start]
  · obtain ⟨_, rest⟩ := Leads.split_iff.mp chained.linked
    cases back with
    | nil =>
        have ends : l.next cell = none := rest
        left
        simp [iterNext, ends]
    | cons succ back =>
        have follows : l.next cell = some succ := rest.1
        right
        refine ⟨front ++ [cell], succ, back, by simp, ?_⟩
        simp [iterNext, follows]

theorem exact_walk (chained : Chained l cells) (prv fuel : Nat)
    (exact : Exact cells it) : Exact cells (l.walk prv fuel it) := by
  induction fuel generalizing it with
  | zero => exact exact
  | succ fuel induction =>
      have next := exact_iterNext chained exact.loose
      rw [walk]
      dsimp only
      split
      · exact next
      · exact induction next

theorem exact_walkTo (chained : Chained l cells) (prv : Option Nat) :
    Exact cells (l.walkTo prv) := by
  cases prv with
  | none => exact exact_iterCreate cells
  | some prv => exact exact_walk chained prv _ (exact_iterCreate cells)

/-- The loop of `ll_iter_remove` stops behind the nodes in front. -/
theorem walk_passed {last fuel : Nat} {done rest : List Nat}
    (chained : Chained l (done ++ (rest ++ last :: back)))
    (objects : ∀ cell ∈ rest, l.obj cell ≠ 0)
    (enough : rest.length < fuel) :
    l.walk last fuel (passed done) = passed (done ++ rest ++ [last]) := by
  induction rest generalizing done fuel with
  | nil =>
      cases fuel with
      | zero => cases enough
      | succ fuel =>
          rw [walk, iterNext_passed chained, passed_concat]
          simp [passed_concat]
  | cons cell rest induction =>
      cases fuel with
      | zero => cases enough
      | succ fuel =>
          have other : cell ≠ last := by
            rintro rfl
            have nodup := List.nodup_append.mp chained.nodup
            simp at nodup
          have further : Chained l
              ((done ++ [cell]) ++ (rest ++ last :: back)) := by
            simpa using chained
          have tail := induction further
            (fun inside member => objects inside (by simp [member]))
            (Nat.lt_of_succ_lt_succ enough)
          have here : (passed (done ++ [cell])).cur = some cell := by
            rw [passed_concat]
          rw [walk, iterNext_passed (by simpa using chained)]
          simp only [objects cell (by simp), here, false_or,
            Option.some.injEq, other, if_false]
          rw [tail]
          simp

theorem walkTo_passed (chained : Chained l (front ++ back))
    (objects : ∀ cell ∈ front, l.obj cell ≠ 0) :
    l.walkTo front.getLast? = passed front := by
  rcases List.eq_nil_or_concat front with rfl | ⟨before, last, rfl⟩
  · rfl
  · rw [List.concat_eq_append] at *
    have size := chained.linked.length_le chained.allocated
    simp only [List.length_append, List.length_singleton] at size
    rw [List.append_assoc, List.singleton_append] at chained
    have walked := @walk_passed l back last (l.fresh + 1) [] before chained
      (fun cell member => objects cell (by simp [member])) (by omega)
    rw [List.getLast?_concat]
    exact walked

/-! ## Taking out -/

theorem iterRemove_flagged (flagged : l.flag cell ≠ 0) (prv : Option Nat) :
    l.iterRemove { cur := some cell, prv := prv } =
      (l.setFlag cell (l.flag cell + 1), { cur := some cell, prv := prv },
        0) := by
  simp only [iterRemove, if_pos flagged]

theorem iterRemove_free (free : l.flag cell = 0) (prv : Option Nat) :
    l.iterRemove { cur := some cell, prv := prv } =
      let removed := (l.setFlag cell 1).unlink prv cell
      (removed, removed.walkTo prv, l.obj cell) := by
  simp only [iterRemove, free, ne_eq, not_true_eq_false, if_false]
  rfl

theorem obj_unlink (l : LList) (prv : Option Nat) (del : Nat) :
    (l.unlink prv del).obj = l.obj := obj_relink l prv _

theorem flag_unlink (l : LList) (prv : Option Nat) (del : Nat) :
    (l.unlink prv del).flag = l.flag := flag_relink l prv _

theorem obj_iterRemove (l : LList) (it : LlIter) :
    (l.iterRemove it).1.obj = l.obj := by
  obtain ⟨cur, prv⟩ := it
  cases cur with
  | none => rfl
  | some cell =>
      by_cases free : l.flag cell = 0
      · rw [iterRemove_free free]
        exact (obj_unlink _ _ _).trans (obj_setFlag _ _ _)
      · rw [iterRemove_flagged free]
        exact obj_setFlag _ _ _

/-- `ll_iter_remove` at a node that was not moved to the front. -/
theorem chained_iterRemove (chained : Chained l (front ++ cell :: back))
    (stays : kept = [] ∨ kept = front) (free : l.flag cell = 0) :
    Chained (l.iterRemove { cur := some cell, prv := kept.getLast? }).1
      (kept ++ back) := by
  rw [iterRemove_free free]
  exact (chained.setFlag cell 1).unlink stays

end Oscam.LList
