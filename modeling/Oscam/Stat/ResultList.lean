import Oscam.LList.Intact
import Oscam.Stat.BestReader

/-!
# Lists of readers

The list that `get_best_reader` builds is only changed by `ll_append`,
`ll_prepend` and `ll_remove`.  None of its nodes is ever flagged, so that it
behaves as the list of its readers.
-/

namespace Oscam.Stat

variable {l : LList} {cells : List Nat} {rdr : ReaderId}

/-- A list of objects without flagged nodes. -/
structure Plain (l : LList) (cells : List Nat) : Prop
    extends LList.WellFormed l cells where
  unflagged : ∀ cell ∈ cells, l.flag cell = 0

/-! ## Flags -/

theorem flag_alloc (l : LList) (obj : Nat) (nxt : Option Nat) :
    (l.alloc obj nxt).flag = Function.update l.flag l.fresh 0 :=
  LList.flag_setNode l l.fresh _

theorem flag_append (some : rdr ≠ 0) :
    (l.append rdr).flag = Function.update l.flag l.fresh 0 := by
  cases last : l.last with
  | none =>
      rw [LList.append_of_empty some last]
      exact flag_alloc l rdr none
  | some cell =>
      rw [LList.append_of_last some last]
      exact (LList.flag_setNxt _ _ _).trans (flag_alloc l rdr none)

theorem flag_prepend (some : rdr ≠ 0) :
    (l.prepend rdr).flag = Function.update l.flag l.fresh 0 := by
  rw [LList.prepend_eq some]
  exact flag_alloc l rdr l.initial

/-- A node whose object is not wanted is not touched. -/
theorem flag_removeLoop {wanted : Nat → Bool} {cell : Nat}
    (other : wanted (l.obj cell) = false) (fuel : Nat) (it : LlIter)
    (n : Nat) :
    (LList.removeLoop wanted fuel l it n).1.flag cell = l.flag cell := by
  induction fuel generalizing l it n with
  | zero => rfl
  | succ fuel induction =>
      rw [LList.removeLoop]
      dsimp only
      split
      · rfl
      · split
        · rename_i nonNull hit
          have data := LList.iterNext_data l it
          cases place : (l.iterNext it).1.cur with
          | none =>
              rw [place] at data
              exact absurd data nonNull
          | some here =>
              rw [place] at data
              have apart : cell ≠ here := by
                rintro rfl
                rw [data, other] at hit
                cases hit
              have same : (l.iterNext it).1 =
                  { cur := some here, prv := (l.iterNext it).1.prv } := by
                rw [← place]
              have still := LList.obj_iterRemove l (l.iterNext it).1
              rw [induction (by rw [still]; exact other), same,
                LList.flag_iterRemove, Function.update_of_ne apart]
        · exact induction other _ _

namespace Plain

theorem objects_eq (plain : Plain l cells) :
    objects l = cells.map l.obj := by
  rw [objects, plain.cells_eq]

theorem createBehind (l : LList) : Plain (createBehind l) [] := by
  constructor
  · constructor
    · constructor
      · rfl
      · rfl
      · intro cell member
        cases member
    · rfl
    · intro cell member
      cases member
  · intro cell member
    cases member

theorem append (plain : Plain l cells) (some : rdr ≠ 0) :
    Plain (l.append rdr) (cells ++ [l.fresh]) := by
  constructor
  · exact plain.toWellFormed.append some
  · intro cell member
    rw [flag_append some]
    rcases List.mem_append.mp member with old | new
    · have apart : cell ≠ l.fresh := by
        rintro rfl
        exact plain.fresh_notMem old
      rw [Function.update_of_ne apart]
      exact plain.unflagged cell old
    · rw [List.mem_singleton.mp new, Function.update_self]

theorem prepend (plain : Plain l cells) (some : rdr ≠ 0) :
    Plain (l.prepend rdr) (l.fresh :: cells) := by
  constructor
  · exact plain.toWellFormed.prepend some
  · intro cell member
    rw [flag_prepend some]
    rcases List.mem_cons.mp member with rfl | old
    · rw [Function.update_self]
    · have apart : cell ≠ l.fresh := by
        rintro rfl
        exact plain.fresh_notMem old
      rw [Function.update_of_ne apart]
      exact plain.unflagged cell old

/-- The objects of the nodes that were there before. -/
theorem map_update (plain : Plain l cells) (obj : Nat) :
    cells.map (Function.update l.obj l.fresh obj) = cells.map l.obj := by
  apply List.map_congr_left
  intro cell member
  apply Function.update_of_ne
  rintro rfl
  exact plain.fresh_notMem member

theorem objects_append (plain : Plain l cells) (some : rdr ≠ 0) :
    objects (l.append rdr) = objects l ++ [rdr] := by
  rw [(plain.append some).objects_eq, plain.objects_eq, LList.obj_append some,
    List.map_append, plain.map_update, List.map_singleton,
    Function.update_self]

theorem objects_prepend (plain : Plain l cells) (some : rdr ≠ 0) :
    objects (l.prepend rdr) = rdr :: objects l := by
  rw [(plain.prepend some).objects_eq, plain.objects_eq,
    LList.obj_prepend some, List.map_cons, plain.map_update,
    Function.update_self]

/-- `ll_remove` removes all nodes with the reader. -/
theorem remove (plain : Plain l cells) (rdr : ReaderId) :
    Plain (l.remove rdr).1 (cells.filter fun cell => l.obj cell != rdr) ∧
      (l.remove rdr).1.obj = l.obj ∧
      (l.remove rdr).1.fresh = l.fresh := by
  have formed := plain.toWellFormed.removeLoop (· == rdr)
  have size := plain.linked.length_le plain.allocated
  have done := @LList.removeLoop_swept l [] cells (· == rdr) (l.fresh + 1)
    plain.toChained (fun cell none => by cases none) (by omega) 0
  rw [LList.swept_filter plain.objects plain.unflagged] at formed
  refine ⟨⟨formed, ?_⟩, done.still, LList.fresh_removeLoop _ _ _ _ _⟩
  intro cell member
  obtain ⟨inside, stays⟩ := List.mem_filter.mp member
  have other : (l.obj cell == rdr) = false := by
    rw [bne, Bool.not_eq_eq_eq_not, Bool.not_true] at stays
    exact stays
  exact (flag_removeLoop other _ _ _).trans (plain.unflagged cell inside)

theorem objects_remove (plain : Plain l cells) (rdr : ReaderId) :
    objects (l.remove rdr).1 = (objects l).filter (· != rdr) := by
  obtain ⟨removed, still, _⟩ := plain.remove rdr
  rw [removed.objects_eq, plain.objects_eq, still, List.filter_map]
  rfl

end Plain

end Oscam.Stat
