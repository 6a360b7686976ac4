import Oscam.LList.Sweep
import Oscam.Lib.Reach

/-!
# Lists shared by iterators

Runs of list operations, each under the lock of the list, with any number of
iterators.  An iterator that takes out or moves its node writes to the node it
has cached as the one in front; the runs below are those in which this is right
each time.
-/

namespace Oscam.LList

open StepSystem

/-- The node in front of `cell`. -/
def before (cells : List Nat) (cell : Nat) : Option Nat :=
  (cells.takeWhile (· != cell)).getLast?

theorem before_split {front : List Nat} {cell : Nat} (outside : cell ∉ front)
    (back : List Nat) :
    before (front ++ cell :: back) cell = front.getLast? := by
  have all : ∀ inside ∈ front, (inside != cell) = true := by
    intro inside member
    rw [bne_iff_ne]
    rintro rfl
    exact outside member
  rw [before, List.takeWhile_append_of_pos all]
  simp

/-- A list and the iterators on it. -/
structure Shared where
  list : LList
  iters : Nat → LlIter

namespace Shared

def start : Shared := { list := create, iters := fun _ => iterCreate }

def setIter (s : Shared) (i : Nat) (it : LlIter) : Shared :=
  { s with iters := Function.update s.iters i it }

end Shared

inductive Op where
  | append (obj : Nat)
  | prepend (obj : Nat)
  | next (i : Nat)
  | reset (i : Nat)
  | insert (i obj : Nat)
  | remove (i : Nat)
  | moveFirst (i : Nat)
  | removeObj (obj : Nat)
  | removeAll (elements : List Nat)
  | sort
  | clear
  deriving DecidableEq, Repr

/-- The iterator that an operation moves. -/
def Op.iter : Op → Option Nat
  | .next i | .reset i | .remove i | .moveFirst i => some i
  | _ => none

/-- One operation. -/
def step (qsort : List Nat → List Nat) (s : Shared) : Op → Shared
  | .append obj => { s with list := s.list.append obj }
  | .prepend obj => { s with list := s.list.prepend obj }
  | .next i => s.setIter i (s.list.iterNext (s.iters i)).1
  | .reset i => s.setIter i iterCreate
  | .insert i obj => { s with list := s.list.iterInsert (s.iters i) obj }
  | .remove i =>
      let (list, it, _) := s.list.iterRemove (s.iters i)
      { s with list := list }.setIter i it
  | .moveFirst i =>
      let (list, it, _) := s.list.iterMoveFirst (s.iters i)
      { s with list := list }.setIter i it
  | .removeObj obj => { s with list := (s.list.remove obj).1 }
  | .removeAll elements => { s with list := (s.list.removeAll elements).1 }
  | .sort => { s with list := s.list.sort qsort }
  | .clear => { s with list := s.list.clear }

/-- The iterator's node may be taken out of its place: it is not flagged, and
the node in front of it is the cached one. -/
def Placed (l : LList) (it : LlIter) (cell : Nat) : Prop :=
  cell ∈ l.cells ∧ l.flag cell = 0 ∧ it.prv = before l.cells cell

instance (l : LList) (it : LlIter) (cell : Nat) :
    Decidable (Placed l it cell) :=
  inferInstanceAs (Decidable (_ ∧ _ ∧ _))

/-- `ll_iter_remove` is sound for an iterator if its node may be taken out, or
if the node is not in the list any more and nothing in it is written. -/
def RemoveSound (l : LList) (it : LlIter) : Prop :=
  ∀ cell ∈ it.cur, Placed l it cell ∨ cell ∉ l.cells ∧
    (l.flag cell ≠ 0 ∨ ∃ prv ∈ it.prv, prv ∉ l.cells)

/-- `ll_iter_move_first` is sound for an iterator. -/
def MoveSound (l : LList) (it : LlIter) : Prop :=
  ∀ cell ∈ it.cur, l.flag cell ≠ 0 ∨ Placed l it cell

instance (l : LList) (it : LlIter) : Decidable (RemoveSound l it) :=
  inferInstanceAs (Decidable (∀ cell ∈ it.cur, _))

instance (l : LList) (it : LlIter) : Decidable (MoveSound l it) :=
  inferInstanceAs (Decidable (∀ cell ∈ it.cur, _))

/-- The operations that are sound for their iterator. -/
def Sound (s : Shared) : Op → Prop
  | .remove i => RemoveSound s.list (s.iters i)
  | .moveFirst i => MoveSound s.list (s.iters i)
  | _ => True

instance (s : Shared) : ∀ op, Decidable (Sound s op)
  | .remove i => inferInstanceAs (Decidable (RemoveSound s.list (s.iters i)))
  | .moveFirst i => inferInstanceAs (Decidable (MoveSound s.list (s.iters i)))
  | .append _ | .prepend _ | .next _ | .reset _ | .insert _ _
  | .removeObj _ | .removeAll _ | .sort | .clear => .isTrue trivial

theorem Placed.split {l : LList} {cells : List Nat} {it : LlIter} {cell : Nat}
    (placed : Placed l it cell) (chained : Chained l cells) :
    ∃ front back, cells = front ++ cell :: back ∧ l.flag cell = 0 ∧
      it.prv = front.getLast? := by
  obtain ⟨member, free, prv⟩ := placed
  rw [chained.cells_eq] at member prv
  obtain ⟨front, back, rfl⟩ := List.append_of_mem member
  rw [before_split chained.apart.1] at prv
  exact ⟨front, back, rfl, free, prv⟩

/-! ## The list stays a list -/

section Chains

variable {l : LList} {cells : List Nat} {it : LlIter} {obj : Nat}

theorem chained_append (chained : Chained l cells) (obj : Nat) :
    ∃ after, Chained (l.append obj) after := by
  by_cases some : obj = 0
  · subst some
    exact ⟨cells, chained⟩
  · exact ⟨_, chained.append some⟩

theorem chained_iterInsert (chained : Chained l cells) (it : LlIter)
    (obj : Nat) : ∃ after, Chained (l.iterInsert it obj) after := by
  obtain ⟨cur, prv⟩ := it
  cases cur with
  | none => exact chained_append chained obj
  | some cell =>
      cases succ : l.next cell with
      | none =>
          rw [iterInsert_of_end succ]
          exact chained_append chained obj
      | some nxt =>
          by_cases some : obj = 0
          · subst some
            have eq : l.iterInsert { cur := .some cell, prv := prv } 0 = l := by
              simp [iterInsert, succ]
            rw [eq]
            exact ⟨cells, chained⟩
          · by_cases inside : cell ∈ cells
            · obtain ⟨front, back, rfl⟩ := List.append_of_mem inside
              exact ⟨_, @Chained.insertBehind l front back cell obj
                { cur := none, prv := prv } nxt chained some succ⟩
            · exact ⟨_, @Chained.insertOutside l cells cell obj
                { cur := none, prv := prv } nxt chained some inside succ⟩

/-- A sound `ll_iter_remove` takes out the node of the iterator. -/
theorem chained_remove (chained : Chained l cells) (sound : RemoveSound l it)
    {cell : Nat} (at_cell : it.cur = some cell) :
    Chained (l.iterRemove it).1 (cells.filter (· != cell)) ∧
      (cell ∈ cells → (l.iterRemove it).2.2 = l.obj cell) := by
  obtain ⟨cur, prv⟩ := it
  have same : cur = some cell := at_cell
  subst same
  rcases sound cell rfl with placed | ⟨outside, harmless⟩
  · obtain ⟨front, back, rfl, free, cached⟩ := placed.split chained
    have cachedPrv : prv = front.getLast? := cached
    subst cachedPrv
    obtain ⟨notFront, notBack⟩ := chained.apart
    have stays : ∀ part : List Nat, cell ∉ part →
        part.filter (· != cell) = part := by
      intro part outside
      apply List.filter_eq_self.mpr
      intro inside member
      rw [bne_iff_ne]
      rintro rfl
      exact outside member
    constructor
    · rw [List.filter_append, List.filter_cons_of_neg (by simp),
        stays front notFront, stays back notBack]
      exact chained_iterRemove chained (Or.inr rfl) free
    · intro _
      rw [iterRemove_free free]
  · rw [chained.cells_eq] at outside harmless
    have stays : cells.filter (· != cell) = cells := by
      apply List.filter_eq_self.mpr
      intro inside member
      rw [bne_iff_ne]
      rintro rfl
      exact outside member
    constructor
    · rw [stays]
      by_cases free : l.flag cell = 0
      · rcases harmless with flagged | ⟨front, cached, prvOutside⟩
        · exact absurd free flagged
        · have cachedPrv : prv = some front := cached
          subst cachedPrv
          rw [iterRemove_free free]
          exact (chained.setFlag cell 1).unlinkOutside outside prvOutside
      · rw [iterRemove_flagged free]
        exact chained.setFlag cell _
    · intro inside
      exact absurd inside outside

theorem chained_moveFirst (chained : Chained l cells)
    (sound : MoveSound l it) :
    ∃ after, Chained (l.iterMoveFirst it).1 after := by
  obtain ⟨cur, prv⟩ := it
  cases cur with
  | none => exact ⟨cells, chained⟩
  | some cell =>
      by_cases free : l.flag cell = 0
      · rcases sound cell rfl with flagged | placed
        · exact absurd free flagged
        · obtain ⟨front, back, rfl, _, cached⟩ := placed.split chained
          have cachedPrv : prv = front.getLast? := cached
          subst cachedPrv
          simp only [iterMoveFirst, free, ne_eq, not_true_eq_false, if_false]
          exact ⟨_, (chained.setFlag cell _).toFront (Or.inr rfl)⟩
      · simp only [iterMoveFirst, ne_eq, free, not_false_eq_true, if_true]
        exact ⟨cells, chained.setFlag cell _⟩

theorem chained_removeLoop (chained : Chained l cells)
    (wanted : Nat → Bool) :
    ∃ after, Chained
      (removeLoop wanted (l.fresh + 1) l iterCreate 0).1 after := by
  have size := chained.linked.length_le chained.allocated
  have done := @removeLoop_swept l [] cells wanted (l.fresh + 1) chained
    (fun cell none => by cases none) (by omega) 0
  exact ⟨_, done.chained⟩

end Chains

/-- Every sound operation leaves a list. -/
theorem chained_step (qsort : List Nat → List Nat) {s : Shared} {op : Op}
    (chained : ∃ cells, Chained s.list cells) (sound : Sound s op) :
    ∃ cells, Chained (step qsort s op).list cells := by
  obtain ⟨cells, chained⟩ := chained
  cases op with
  | append obj => exact chained_append chained obj
  | prepend obj =>
      by_cases some : obj = 0
      · subst some
        exact ⟨cells, chained⟩
      · exact ⟨_, chained.prepend some⟩
  | next i => exact ⟨cells, chained⟩
  | reset i => exact ⟨cells, chained⟩
  | insert i obj => exact chained_iterInsert chained (s.iters i) obj
  | remove i =>
      cases place : (s.iters i).cur with
      | none =>
          refine ⟨cells, ?_⟩
          simp only [step, iterRemove, place]
          exact chained
      | some cell => exact ⟨_, (chained_remove chained sound place).1⟩
  | moveFirst i => exact chained_moveFirst chained sound
  | removeObj obj => exact chained_removeLoop chained _
  | removeAll elements => exact chained_removeLoop chained _
  | sort => exact ⟨cells, chained.sort qsort⟩
  | clear => exact ⟨[], Chained.clear s.list⟩

theorem chained_reach {qsort : List Nat → List Nat} {s : Shared}
    (reached : Reach (step qsort) Sound (· = Shared.start) s) :
    ∃ cells, Chained s.list cells := by
  apply reached.invariant
  · rintro _ rfl
    exact ⟨[], Chained.create⟩
  · exact fun s op => chained_step qsort

theorem iters_step (qsort : List Nat → List Nat) (s : Shared) {op : Op}
    {i : Nat} (other : op.iter ≠ some i) :
    (step qsort s op).iters i = s.iters i := by
  have elsewhere : ∀ (j : Nat) (it : LlIter), some j ≠ some i →
      Function.update s.iters j it i = s.iters i := by
    intro j it apart
    apply Function.update_of_ne
    rintro rfl
    exact apart rfl
  cases op with
  | next j => exact elsewhere j _ other
  | reset j => exact elsewhere j _ other
  | remove j => exact elsewhere j _ other
  | moveFirst j => exact elsewhere j _ other
  | append _ | prepend _ | insert _ _ | removeObj _ | removeAll _ | sort
  | clear => rfl

theorem iters_run (qsort : List Nat → List Nat) {ops : List Op} {i : Nat}
    (others : ∀ op ∈ ops, op.iter ≠ some i) (s : Shared) :
    (ops.foldl (step qsort) s).iters i = s.iters i := by
  induction ops generalizing s with
  | nil => rfl
  | cons op ops induction =>
      rw [List.foldl_cons,
        induction fun later member => others later (by simp [member])]
      exact iters_step qsort s (others op (by simp))

/-- In a run of sound operations, `ll_iter_remove` takes out the node that its
iterator has returned last and no other one, whatever the other iterators do
in between. -/
theorem iterRemove_returned {qsort : List Nat → List Nat} {s : Shared}
    (reached : Reach (step qsort) Sound (· = Shared.start) s) {i cell : Nat}
    (returned : (s.list.iterNext (s.iters i)).1.cur = some cell)
    {between : List Op} (others : ∀ op ∈ between, op.iter ≠ some i)
    (sound : Along (step qsort) Sound (step qsort s (.next i))
      (between ++ [.remove i])) :
    let now := between.foldl (step qsort) (step qsort s (.next i))
    let after := now.list.iterRemove (now.iters i)
    after.1.cells = now.list.cells.filter (· != cell) ∧
      Leads after.1.next after.1.initial after.1.cells none ∧
      after.1.obj = now.list.obj ∧
      (cell ∈ now.list.cells → after.2.2 = now.list.obj cell) := by
  obtain ⟨first, last, _⟩ := Along.append_iff.mp sound
  have next : Sound s (.next i) := trivial
  obtain ⟨cells, chained⟩ := chained_reach ((reached.next next).run first)
  have place : ((between.foldl (step qsort) (step qsort s (.next i))).iters
      i).cur = some cell := by
    rw [iters_run qsort others]
    simp only [step, Shared.setIter, Function.update_self]
    exact returned
  obtain ⟨after, object⟩ := chained_remove chained last place
  dsimp only
  rw [after.cells_eq, chained.cells_eq]
  exact ⟨rfl, after.linked, obj_iterRemove _ _, object⟩

/-- Two iterators on two objects: the second object is removed by the second
iterator and the first one by the first. -/
theorem iterRemove_returned_two :
    let s := [Op.append 1, .append 2, .next 1].foldl (step id) Shared.start
    let now := [Op.next 1, .remove 1].foldl (step id) (step id s (.next 0))
    let after := now.list.iterRemove (now.iters 0)
    after.1.cells = now.list.cells.filter (· != 0) ∧
      Leads after.1.next after.1.initial after.1.cells none ∧
      after.1.obj = now.list.obj ∧
      (0 ∈ now.list.cells → after.2.2 = now.list.obj 0) :=
  iterRemove_returned (Reach.ofRun (by decide)) (by decide) (by decide)
    (by decide)

/-- An object is put in front of the one that the iterator has returned: both
are lost. -/
theorem iterRemove_loses_other :
    let s := step id Shared.start (.append 1)
    let now := [Op.prepend 2].foldl (step id) (step id s (.next 0))
    (s.list.iterNext (s.iters 0)).1.cur = some 0 ∧
      now.list.cells = [1, 0] ∧
      (now.list.iterRemove (now.iters 0)).1.cells = [] := by
  decide

end Oscam.LList
