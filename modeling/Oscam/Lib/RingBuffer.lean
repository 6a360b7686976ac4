import Mathlib.Data.List.DropRight
import Mathlib.Data.List.Rotate

/-!
# Rings

A fixed number of cells that are written in turn.  Read from the cell behind
the last one that was written, they are the values of the last turn in their
order.
-/

/-- Cells that are written in turn, with the place of the last one written. -/
structure RingBuffer (α : Type) (n : Nat) where
  cells : List α
  place : Nat
  length_eq : cells.length = n
  place_lt : place < n
  deriving DecidableEq

namespace RingBuffer

variable {α : Type} {n : Nat}

/-- All cells hold the same value. -/
def filled (n : Nat) (value : α) (some : 0 < n) : RingBuffer α n where
  cells := List.replicate n value
  place := 0
  length_eq := List.length_replicate
  place_lt := some

/-- The next cell is written. -/
def push (ring : RingBuffer α n) (value : α) : RingBuffer α n where
  cells := ring.cells.set
    (if ring.place + 1 ≥ n then 0 else ring.place + 1) value
  place := if ring.place + 1 ≥ n then 0 else ring.place + 1
  length_eq := by rw [List.length_set, ring.length_eq]
  place_lt := by
    have bound := ring.place_lt
    split
    · omega
    · omega

/-- The cells in the order in which they were written. -/
def inOrder (ring : RingBuffer α n) : List α :=
  ring.cells.rotate (ring.place + 1)

theorem inOrder_filled (value : α) (some : 0 < n) :
    (filled n value some).inOrder = List.replicate n value :=
  List.rotate_replicate value n 1

theorem inOrder_perm (ring : RingBuffer α n) : ring.inOrder.Perm ring.cells :=
  List.rotate_perm _ _

theorem rotate_set {cells : List α} {i : Nat} (inside : i < cells.length)
    (value : α) :
    (cells.set i value).rotate (i + 1) = (cells.rotate i).tail ++ [value] := by
  have length : (cells.set i value).length = cells.length := List.length_set
  rw [List.rotate_eq_drop_append_take (by omega),
    List.rotate_eq_drop_append_take (by omega), List.drop_set_of_lt (by omega),
    List.drop_eq_getElem_cons inside, List.take_add_one,
    List.take_set_of_le (by omega), List.getElem?_set_self inside,
    List.cons_append, List.tail_cons, ← List.append_assoc]
  rfl

theorem rotate_place (ring : RingBuffer α n) :
    ring.cells.rotate (if ring.place + 1 ≥ n then 0 else ring.place + 1) =
      ring.inOrder := by
  unfold inOrder
  split
  · have turn : ring.place + 1 = ring.cells.length := by
      have bound := ring.place_lt
      have length := ring.length_eq
      omega
    rw [turn, List.rotate_length, List.rotate_zero]
  · rfl

/-- The oldest value is lost. -/
theorem inOrder_push (ring : RingBuffer α n) (value : α) :
    (ring.push value).inOrder = ring.inOrder.tail ++ [value] := by
  have inside : (if ring.place + 1 ≥ n then 0 else ring.place + 1) <
      ring.cells.length := by
    rw [ring.length_eq]
    exact (ring.push value).place_lt
  rw [← ring.rotate_place, ← rotate_set inside]
  rfl

theorem length_inOrder (ring : RingBuffer α n) : ring.inOrder.length = n := by
  rw [ring.inOrder_perm.length_eq, ring.length_eq]

/-- The values written last. -/
theorem inOrder_foldl_push (ring : RingBuffer α n) (values : List α) :
    (values.foldl push ring).inOrder = (ring.inOrder ++ values).rtake n := by
  induction values generalizing ring with
  | nil =>
      rw [List.foldl_nil, List.append_nil, List.rtake, length_inOrder,
        Nat.sub_self, List.drop_zero]
  | cons value values induction =>
      rw [List.foldl_cons, induction, inOrder_push]
      have length := ring.length_inOrder
      cases oldest : ring.inOrder with
      | nil =>
          rw [oldest, List.length_nil] at length
          exact absurd ring.place_lt (by omega)
      | cons head rest =>
          rw [oldest, List.length_cons] at length
          rw [List.tail_cons, List.append_assoc, List.singleton_append,
            List.cons_append]
          unfold List.rtake
          have sum : (head :: (rest ++ value :: values)).length - n =
              (rest ++ value :: values).length - n + 1 := by
            rw [List.length_cons, List.length_append]
            rw [List.length_cons]
            omega
          rw [sum, List.drop_succ_cons]

/-- What was written last into a filled ring stands in its cells, with the
filling where nothing was written. -/
theorem cells_foldl_push_filled (filling : α) (some : 0 < n) (values : List α) :
    (values.foldl push (filled n filling some)).cells.Perm
      (List.replicate (n - values.length) filling ++ values.rtake n) := by
  refine (inOrder_perm _).symm.trans ?_
  rw [inOrder_foldl_push, inOrder_filled]
  unfold List.rtake
  rw [List.length_append, List.length_replicate, Nat.add_sub_cancel_left,
    List.drop_append, List.drop_replicate, List.length_replicate]

/-! ## Single cells -/

variable {β : Type}

/-- All cells hold the same value, and the first one is written next. -/
def untouched (n : Nat) (value : α) (some : 0 < n) : RingBuffer α n where
  cells := List.replicate n value
  place := n - 1
  length_eq := List.length_replicate
  place_lt := by omega

/-- One cell changes. -/
def modify (ring : RingBuffer α n) (i : Nat) (change : α → α) :
    RingBuffer α n where
  cells := ring.cells.modify i change
  place := ring.place
  length_eq := by rw [List.length_modify, ring.length_eq]
  place_lt := ring.place_lt

def map (f : α → β) (ring : RingBuffer α n) : RingBuffer β n where
  cells := ring.cells.map f
  place := ring.place
  length_eq := by rw [List.length_map, ring.length_eq]
  place_lt := ring.place_lt

theorem map_untouched (f : α → β) (value : α) (some : 0 < n) :
    (untouched n value some).map f = untouched n (f value) some := by
  simp [map, untouched]

theorem map_push (f : α → β) (ring : RingBuffer α n) (value : α) :
    (ring.push value).map f = (ring.map f).push (f value) := by
  simp only [map, push, List.map_set]
  rfl

/-- A change of a cell that the map does not see. -/
theorem map_modify (f : α → β) (ring : RingBuffer α n) {i : Nat}
    {change : α → α} (unseen : ∀ value, f (change value) = f value) :
    (ring.modify i change).map f = ring.map f := by
  have cells : (ring.cells.modify i change).map f = ring.cells.map f := by
    apply List.ext_getElem?
    intro j
    rw [List.getElem?_map, List.getElem?_map, List.getElem?_modify]
    cases ring.cells[j]? with
    | none => rfl
    | some value =>
        by_cases here : i = j
        · simp [here, unseen]
        · simp [here]
  simp only [map, modify, cells]

/-- How many turns ago a cell was written. -/
def age (ring : RingBuffer α n) (i : Nat) : Nat :=
  if i ≤ ring.place then ring.place - i else ring.place + n - i

theorem age_place (ring : RingBuffer α n) : ring.age ring.place = 0 := by
  simp [age]

theorem place_push (ring : RingBuffer α n) (value : α) :
    (ring.push value).place =
      if ring.place + 1 ≥ n then 0 else ring.place + 1 :=
  rfl

theorem cells_push (ring : RingBuffer α n) (value : α) :
    (ring.push value).cells =
      ring.cells.set (ring.push value).place value :=
  rfl

/-- The cell that is written holds the new value. -/
theorem getElem?_push_self (ring : RingBuffer α n) (value : α) :
    (ring.push value).cells[(ring.push value).place]? = some value := by
  have inside : (ring.push value).place < ring.cells.length := by
    rw [ring.length_eq]
    exact (ring.push value).place_lt
  rw [cells_push, List.getElem?_set_self inside]

/-- A cell that is not the oldest one survives a turn. -/
theorem survives_push {ring : RingBuffer α n} {i : Nat} (inside : i < n)
    (younger : ring.age i + 1 < n) (value : α) :
    (ring.push value).age i = ring.age i + 1 ∧
      (ring.push value).cells[i]? = ring.cells[i]? := by
  have bound := ring.place_lt
  have next := ring.place_push value
  unfold age at younger ⊢
  have other : (ring.push value).place ≠ i := by
    split at next <;> split at younger <;> omega
  constructor
  · split at next <;> split at younger <;> split <;> omega
  · rw [cells_push, List.getElem?_set_ne other]

theorem getElem?_modify_of_ne {ring : RingBuffer α n} {i j : Nat}
    {change : α → α} (other : i ≠ j) :
    (ring.modify i change).cells[j]? = ring.cells[j]? :=
  List.getElem?_modify_ne change ring.cells other

end RingBuffer
