import Oscam.Lib.Undo

/-!
# Feistel networks with a moving key

A round mixes one half of a block with a function of the other half and swaps
them.  The key moves from round to round: in one direction before each round,
in the other one back again behind it.  With the halves swapped at the end, the
two directions undo each other.
-/

namespace Feistel

/-- A key and the two halves of a block. -/
@[ext] structure State (Key Half : Type*) where
  key : Key
  left : Half
  right : Half

variable {Key Half Index : Type*}

section

variable (mix : Half → Half → Half) (f : Key → Half → Half)
  (forth back : Index → Key → Key)

def round (s : State Key Half) : State Key Half :=
  { key := s.key, left := s.right, right := mix s.left (f s.key s.right) }

/-- The halves swapped. -/
def flip (s : State Key Half) : State Key Half :=
  { key := s.key, left := s.right, right := s.left }

/-- The key moves, then comes the round. -/
def forthStep (i : Index) (s : State Key Half) : State Key Half :=
  round mix f { s with key := forth i s.key }

/-- The round comes first, then the key moves back. -/
def backStep (i : Index) (s : State Key Half) : State Key Half :=
  { round mix f s with key := back i s.key }

end

@[simp] theorem flip_flip (s : State Key Half) : flip (flip s) = s := rfl

@[simp] theorem key_flip (s : State Key Half) : (flip s).key = s.key := rfl

variable {mix : Half → Half → Half} {f : Key → Half → Half}
  {forth back : Index → Key → Key}

/-- Mixing twice with the same half changes nothing. -/
def Cancels (mix : Half → Half → Half) : Prop :=
  ∀ half other, mix (mix half other) other = half

theorem flip_backStep_flip_forthStep (cancels : Cancels mix)
    (returns : ∀ i key, back i (forth i key) = key) (i : Index)
    (s : State Key Half) :
    flip (backStep mix f back i (flip (forthStep mix f forth i s))) = s := by
  apply State.ext
  · exact returns i s.key
  · exact cancels s.left (f (forth i s.key) s.right)
  · rfl

theorem flip_forthStep_flip_backStep (cancels : Cancels mix)
    (returns : ∀ i key, forth i (back i key) = key) (i : Index)
    (s : State Key Half) :
    flip (forthStep mix f forth i (flip (backStep mix f back i s))) = s := by
  have key := returns i s.key
  apply State.ext
  · exact key
  · show mix (mix s.left (f s.key s.right)) (f (forth i (back i s.key)) s.right) = _
    rw [key]
    exact cancels s.left (f s.key s.right)
  · rfl

/-- A step between two swaps. -/
def flipped (step : Index → State Key Half → State Key Half) (i : Index)
    (s : State Key Half) : State Key Half := flip (step i (flip s))

/-- A loop on swapped halves. -/
theorem flip_run (step : Index → State Key Half → State Key Half)
    (indices : List Index) (s : State Key Half) :
    flip (Undo.run step indices (flip s)) =
      Undo.run (flipped step) indices s := by
  induction indices generalizing s with
  | nil => rfl
  | cons i indices induction =>
      rw [Undo.run_cons, Undo.run_cons, ← induction, flipped, flip_flip]

/-- The rounds back, over the same indices in reverse order, undo the rounds
forth. -/
theorem run_back_run_forth (cancels : Cancels mix)
    (returns : ∀ i key, back i (forth i key) = key) (indices : List Index)
    (s : State Key Half) :
    flip (Undo.run (backStep mix f back) indices.reverse
      (flip (Undo.run (forthStep mix f forth) indices s))) = s := by
  have undone (i : Index) (_ : i ∈ indices) (s : State Key Half) :
      flipped (backStep mix f back) i (forthStep mix f forth i s) = s :=
    flip_backStep_flip_forthStep cancels returns i s
  rw [flip_run]
  exact Undo.run_reverse_run undone s

theorem run_forth_run_back (cancels : Cancels mix)
    (returns : ∀ i key, forth i (back i key) = key) (indices : List Index)
    (s : State Key Half) :
    flip (Undo.run (forthStep mix f forth) indices
      (flip (Undo.run (backStep mix f back) indices.reverse s))) = s := by
  have undone (i : Index) (_ : i ∈ indices) (s : State Key Half) :
      flipped (forthStep mix f forth) i (backStep mix f back i s) = s :=
    flip_forthStep_flip_backStep cancels returns i s
  rw [flip_run]
  exact Undo.run_run_reverse undone s

/-- The key after the rounds forth. -/
theorem key_run_forth (indices : List Index) (s : State Key Half) :
    (Undo.run (forthStep mix f forth) indices s).key =
      Undo.run forth indices s.key := by
  induction indices generalizing s with
  | nil => rfl
  | cons i indices induction =>
      rw [Undo.run_cons, Undo.run_cons, induction]
      rfl

theorem key_run_back (indices : List Index) (s : State Key Half) :
    (Undo.run (backStep mix f back) indices s).key =
      Undo.run back indices s.key := by
  induction indices generalizing s with
  | nil => rfl
  | cons i indices induction =>
      rw [Undo.run_cons, Undo.run_cons, induction]
      rfl

end Feistel
