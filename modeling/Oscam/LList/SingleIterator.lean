import Oscam.LList.Sweep
import Oscam.Lib.Reach

/-!
# One iterator at a time

A list that is used with one live iterator.  Whether an object can be removed
depends on the flag of its node alone, which `ll_iter_move_first` sets as
`ll_iter_remove` does.
-/

namespace Oscam.LList

open StepSystem

/-- A list and its live iterator. -/
structure Single where
  list : LList
  iter : Option LlIter

inductive SingleOp where
  | append (obj : Nat)
  | prepend (obj : Nat)
  | create
  | next
  | insert (obj : Nat)
  | remove
  | moveFirst
  | removeObj (obj : Nat)
  deriving DecidableEq, Repr

namespace Single

/-- One operation; the iterator of `ll_remove` ends the live one. -/
def step (s : Single) : SingleOp → Single
  | .append obj => { s with list := s.list.append obj }
  | .prepend obj => { s with list := s.list.prepend obj }
  | .create => { s with iter := some iterCreate }
  | .next => { s with iter := s.iter.map fun it => (s.list.iterNext it).1 }
  | .insert obj =>
      match s.iter with
      | none => s
      | some it => { s with list := s.list.iterInsert it obj }
  | .remove =>
      match s.iter with
      | none => s
      | some it =>
          let (list, it, _) := s.list.iterRemove it
          { list := list, iter := some it }
  | .moveFirst =>
      match s.iter with
      | none => s
      | some it =>
          let (list, it, _) := s.list.iterMoveFirst it
          { list := list, iter := some it }
  | .removeObj obj => { list := (s.list.remove obj).1, iter := none }

/-- A list of objects whose iterator is at one of its nodes. -/
structure Used (s : Single) (cells : List Nat) : Prop where
  chained : Chained s.list cells
  objects : ∀ cell ∈ cells, s.list.obj cell ≠ 0
  iter : ∀ it ∈ s.iter, Loose cells it

end Single

variable {l : LList} {cells front back kept : List Nat} {cell obj : Nat}
  {it : LlIter}

/-! ## The iterator keeps its place -/

theorem loose_concat (loose : Loose cells it) (new : Nat) :
    Loose (cells ++ [new]) it := by
  rcases loose with free | ⟨front, cell, back, kept, rfl, stays, rfl⟩
  · exact Or.inl free
  · exact Or.inr ⟨front, cell, back ++ [new], kept, by simp, stays, rfl⟩

theorem loose_cons (loose : Loose cells it) (new : Nat) :
    Loose (new :: cells) it := by
  rcases loose with free | ⟨front, cell, back, kept, rfl, stays, rfl⟩
  · exact Or.inl free
  · right
    cases kept with
    | nil => exact ⟨new :: front, cell, back, [], rfl, Or.inl rfl, rfl⟩
    | cons first kept =>
        have same : first :: kept = front := by
          rcases stays with none | all
          · cases none
          · exact all
        subst same
        exact ⟨new :: first :: kept, cell, back, new :: first :: kept, rfl,
          Or.inr rfl, by rw [List.getLast?_cons_cons]⟩

namespace Single

variable {s : Single}

theorem Used.append (used : Used s cells) (obj : Nat) :
    ∃ after, Used (s.step (.append obj)) after := by
  by_cases some : obj = 0
  · subst some
    exact ⟨cells, used⟩
  · refine ⟨_, used.chained.append some, ?_, ?_⟩
    · intro cell member
      simp only [step, obj_append some]
      apply used.chained.objects_add used.objects some
      rw [List.mem_append, List.mem_singleton] at member
      exact member.symm
    · intro it live
      exact loose_concat (used.iter it live) _

theorem Used.prepend (used : Used s cells) (obj : Nat) :
    ∃ after, Used (s.step (.prepend obj)) after := by
  by_cases some : obj = 0
  · subst some
    exact ⟨cells, used⟩
  · refine ⟨_, used.chained.prepend some, ?_, ?_⟩
    · intro cell member
      simp only [step, obj_prepend some]
      exact used.chained.objects_add used.objects some
        (List.mem_cons.mp member)
    · intro it live
      exact loose_cons (used.iter it live) _

/-- `ll_iter_insert` at a node of the list. -/
theorem Used.insert {prv : Option Nat} (used : Used s cells)
    (live : s.iter = some { cur := some cell, prv := prv }) (obj : Nat) :
    ∃ after, Used { s with
      list := s.list.iterInsert { cur := some cell, prv := prv } obj }
        after := by
  cases succ : s.list.next cell with
  | none =>
      rw [iterInsert_of_end succ]
      exact used.append obj
  | some nxt =>
      by_cases some : obj = 0
      · subst some
        have eq : s.list.iterInsert { cur := .some cell, prv := prv } 0 =
            s.list := by
          simp [iterInsert, succ]
        rw [eq]
        exact ⟨cells, used⟩
      · rcases used.iter _ live with free | ⟨front, other, back, kept, split,
          stays, same⟩
        · cases free
        · obtain ⟨chained, objects, iter⟩ := used
          subst split
          cases same
          have inserted := @Chained.insertBehind s.list front back cell obj
            { cur := none, prv := kept.getLast? } nxt chained some succ
          refine ⟨_, inserted, ?_, ?_⟩
          · intro inside member
            simp only [obj_iterInsert some succ]
            apply chained.objects_add objects some
            simp only [List.mem_append, List.mem_cons] at member ⊢
            tauto
          · intro it now
            cases live.symm.trans now
            exact Or.inr ⟨front, cell, _, kept, rfl, stays, rfl⟩

theorem Used.remove (used : Used s cells) (live : s.iter = some it) :
    ∃ after, Used { list := (s.list.iterRemove it).1
                    iter := some (s.list.iterRemove it).2.1 } after := by
  rcases used.iter it live with free | ⟨front, cell, back, kept, split,
    stays, rfl⟩
  · refine ⟨cells, ?_⟩
    simp only [iterRemove, free]
    exact ⟨used.chained, used.objects, fun it now => by
      cases now
      exact Or.inl free⟩
  · obtain ⟨chained, objects, iter⟩ := used
    subst split
    by_cases free : s.list.flag cell = 0
    · have removed := chained_iterRemove chained stays free
      refine ⟨_, removed, ?_, ?_⟩
      · intro inside member
        rw [obj_iterRemove]
        apply objects
        rcases List.mem_append.mp member with early | late
        · rcases stays with rfl | rfl
          · cases early
          · exact List.mem_append_left _ early
        · exact List.mem_append_right _ (List.mem_cons_of_mem _ late)
      · intro it now
        cases now
        rw [iterRemove_free free] at removed ⊢
        exact (exact_walkTo removed _).loose
    · rw [iterRemove_flagged free]
      refine ⟨_, chained.setFlag cell _, ?_, ?_⟩
      · rw [obj_setFlag]
        exact objects
      · intro it now
        cases now
        exact iter _ live

theorem Used.moveFirst (used : Used s cells) (live : s.iter = some it) :
    ∃ after, Used { list := (s.list.iterMoveFirst it).1
                    iter := some (s.list.iterMoveFirst it).2.1 } after := by
  rcases used.iter it live with free | ⟨front, cell, back, kept, split,
    stays, rfl⟩
  · refine ⟨cells, ?_⟩
    simp only [iterMoveFirst, free]
    exact ⟨used.chained, used.objects, fun it now => by
      cases now
      exact Or.inl free⟩
  · obtain ⟨chained, objects, iter⟩ := used
    subst split
    by_cases free : s.list.flag cell = 0
    · simp only [iterMoveFirst, free, ne_eq, not_true_eq_false, if_false]
      refine ⟨_, (chained.setFlag cell _).toFront stays, ?_, ?_⟩
      · intro inside member
        rw [obj_toFront, obj_setFlag]
        apply objects
        rcases List.mem_cons.mp member with rfl | rest
        · simp
        · rcases List.mem_append.mp rest with early | late
          · rcases stays with rfl | rfl
            · cases early
            · exact List.mem_append_left _ early
          · exact List.mem_append_right _ (List.mem_cons_of_mem _ late)
      · intro it now
        cases now
        exact (exact_iterCreate _).loose
    · simp only [iterMoveFirst, ne_eq, free, not_false_eq_true, if_true]
      refine ⟨_, chained.setFlag cell _, ?_, ?_⟩
      · rw [obj_setFlag]
        exact objects
      · intro it now
        cases now
        exact iter _ live

/-- What the loop of `ll_remove` does to a list of objects. -/
theorem removeLoop_list (chained : Chained l cells) (wanted : Nat → Bool) :
    Swept wanted l.obj l.flag l.count [] cells 0
      (removeLoop wanted (l.fresh + 1) l iterCreate 0) := by
  have size := chained.linked.length_le chained.allocated
  exact @removeLoop_swept l [] cells wanted (l.fresh + 1) chained
    (fun cell none => by cases none) (by omega) 0

theorem used_step {op : SingleOp} (used : ∃ cells, Used s cells) :
    ∃ cells, Used (s.step op) cells := by
  obtain ⟨cells, used⟩ := used
  cases op with
  | append obj => exact used.append obj
  | prepend obj => exact used.prepend obj
  | create =>
      exact ⟨cells, used.chained, used.objects, fun it now => by
        cases now
        exact (exact_iterCreate cells).loose⟩
  | next =>
      refine ⟨cells, used.chained, used.objects, ?_⟩
      intro it now
      obtain ⟨before, live, rfl⟩ := Option.map_eq_some_iff.mp now
      exact (exact_iterNext used.chained (used.iter before live)).loose
  | insert obj =>
      cases live : s.iter with
      | none =>
          refine ⟨cells, ?_⟩
          simp only [step, live]
          exact used
      | some it =>
          obtain ⟨cur, prv⟩ := it
          simp only [step, live]
          rw [← live]
          cases cur with
          | none => exact used.append obj
          | some cell => exact used.insert live obj
  | remove =>
      cases live : s.iter with
      | none =>
          refine ⟨cells, ?_⟩
          simp only [step, live]
          exact used
      | some it =>
          simp only [step, live]
          exact used.remove live
  | moveFirst =>
      cases live : s.iter with
      | none =>
          refine ⟨cells, ?_⟩
          simp only [step, live]
          exact used
      | some it =>
          simp only [step, live]
          exact used.moveFirst live
  | removeObj obj =>
      have done := removeLoop_list used.chained (· == obj)
      refine ⟨_, done.chained, ?_, fun it none => by cases none⟩
      intro cell member
      simp only [step, LList.remove, done.still]
      exact used.objects cell (mem_of_swept member)

/-! ## What is removed -/

/-- `ll_iter_remove` at a node of the list. -/
theorem iterRemove_iff (used : Used s cells) (live : s.iter = some it)
    (place : it.cur = some cell) :
    (cell ∉ (s.list.iterRemove it).1.cells ∧
        (s.list.iterRemove it).2.2 = s.list.obj cell) ↔
      s.list.flag cell = 0 := by
  rcases used.iter it live with free | ⟨front, other, back, kept, split,
    stays, rfl⟩
  · rw [place] at free
    cases free
  · cases place
    obtain ⟨chained, objects, iter⟩ := used
    subst split
    constructor
    · rintro ⟨gone, _⟩
      by_contra flagged
      rw [iterRemove_flagged flagged,
        (chained.setFlag cell _).cells_eq] at gone
      exact gone (by simp)
    · intro free
      obtain ⟨notFront, notBack⟩ := chained.apart
      rw [(chained_iterRemove chained stays free).cells_eq]
      constructor
      · intro member
        rcases List.mem_append.mp member with early | late
        · rcases stays with rfl | rfl
          · cases early
          · exact notFront early
        · exact notBack late
      · rw [iterRemove_free free]

/-- `ll_remove`. -/
theorem remove_iff (used : Used s cells) (obj : Nat) :
    ((∀ cell ∈ (s.list.remove obj).1.cells,
        (s.list.remove obj).1.obj cell ≠ obj) ∧
      (s.list.remove obj).2 =
        s.list.cells.countP fun cell => s.list.obj cell == obj) ↔
      ∀ cell ∈ s.list.cells, s.list.obj cell = obj →
        s.list.flag cell = 0 := by
  have done := removeLoop_list used.chained (· == obj)
  have gone := @mem_swept_iff cells (· == obj) s.list.obj s.list.flag
    used.objects
  have found := done.found
  rw [found_swept used.objects, Nat.zero_add] at found
  have after : (s.list.remove obj).1.cells = _ := done.chained.cells_eq
  have still : (s.list.remove obj).1.obj = s.list.obj := done.still
  rw [after, still, used.chained.cells_eq]
  simp only [List.nil_append, gone, beq_iff_eq]
  constructor
  · rintro ⟨none, _⟩ cell member same
    by_contra flagged
    exact none cell ⟨member, fun both => flagged both.2⟩ same
  · intro free
    constructor
    · rintro cell ⟨member, stays⟩ same
      exact stays ⟨same, free cell member same⟩
    · exact found

/-- A list of objects without a live iterator. -/
def Fresh (s : Single) : Prop := s.iter = none ∧ ∃ cells, Used s cells

theorem used_reach
    (reached : Reach Single.step (fun _ _ => True) Fresh s) :
    ∃ cells, Used s cells := by
  apply reached.invariant
  · exact fun s fresh => fresh.2
  · exact fun s op used _ => used_step used

/-- In every state of every run, `ll_iter_remove` and `ll_remove` remove what
they are called for exactly if the nodes are not flagged. -/
theorem removed_iff (reached : Reach Single.step (fun _ _ => True) Fresh s) :
    (∀ it, s.iter = some it → ∀ cell, it.cur = some cell →
      ((cell ∉ (s.list.iterRemove it).1.cells ∧
          (s.list.iterRemove it).2.2 = s.list.obj cell) ↔
        s.list.flag cell = 0)) ∧
    ∀ obj, ((∀ cell ∈ (s.list.remove obj).1.cells,
          (s.list.remove obj).1.obj cell ≠ obj) ∧
        (s.list.remove obj).2 =
          s.list.cells.countP fun cell => s.list.obj cell == obj) ↔
      ∀ cell ∈ s.list.cells, s.list.obj cell = obj →
        s.list.flag cell = 0 := by
  obtain ⟨cells, used⟩ := used_reach reached
  constructor
  · intro it live cell place
    exact iterRemove_iff used live place
  · exact remove_iff used

/-- The empty list. -/
def start : Single := { list := LList.create, iter := none }

theorem fresh_start : Fresh start := by
  refine ⟨rfl, [], Chained.create, ?_, ?_⟩
  · intro cell member
    cases member
  · intro it live
    cases live

/-- Two objects, the second of which is moved to the front and met again. -/
def moved : Single :=
  [SingleOp.append 1, .append 2, .create, .next, .next, .moveFirst,
    .next].foldl Single.step start

theorem removed_iff_moved :
    (∀ it, moved.iter = some it → ∀ cell, it.cur = some cell →
      ((cell ∉ (moved.list.iterRemove it).1.cells ∧
          (moved.list.iterRemove it).2.2 = moved.list.obj cell) ↔
        moved.list.flag cell = 0)) ∧
    ∀ obj, ((∀ cell ∈ (moved.list.remove obj).1.cells,
          (moved.list.remove obj).1.obj cell ≠ obj) ∧
        (moved.list.remove obj).2 =
          moved.list.cells.countP fun cell => moved.list.obj cell == obj) ↔
      ∀ cell ∈ moved.list.cells, moved.list.obj cell = obj →
        moved.list.flag cell = 0 :=
  removed_iff (Reach.run (.start fresh_start) (by
    simp only [Along, and_self]))

/-- The object that was moved to the front stays. -/
theorem moved_stays :
    moved.iter = some { cur := some 1, prv := none } ∧
      moved.list.obj 1 = 2 ∧
      (moved.list.iterRemove { cur := some 1, prv := none }).1.cells =
        [1, 0] ∧
      (moved.list.iterRemove { cur := some 1, prv := none }).2.2 = 0 ∧
      (moved.list.remove 2).1.cells = [1, 0] := by
  decide

end Single

end Oscam.LList
