import Mathlib.Logic.Function.Iterate

/-!
# Loops that are undone

A loop runs one step for each index.  Where every step is undone by another
one, the loop over the same indices in reverse order undoes the loop.
-/

namespace Undo

variable {State Index View : Type*} {step back : Index → State → State}
  {indices : List Index}

/-- One step for each index. -/
def run (step : Index → State → State) (indices : List Index)
    (s : State) : State :=
  indices.foldl (fun s i => step i s) s

@[simp] theorem run_nil (step : Index → State → State) (s : State) :
    run step [] s = s := rfl

@[simp] theorem run_cons (step : Index → State → State) (i : Index)
    (indices : List Index) (s : State) :
    run step (i :: indices) s = run step indices (step i s) := rfl

theorem run_append (step : Index → State → State)
    (first second : List Index) (s : State) :
    run step (first ++ second) s = run step second (run step first s) :=
  List.foldl_append

/-- The steps in reverse order, each undone. -/
theorem run_reverse_run
    (undone : ∀ i ∈ indices, ∀ s, back i (step i s) = s) (s : State) :
    run back indices.reverse (run step indices s) = s := by
  induction indices generalizing s with
  | nil => rfl
  | cons i indices induction =>
      have rest := induction
        (fun j member => undone j (List.mem_cons_of_mem i member)) (step i s)
      rw [List.reverse_cons, run_append, run_cons, run_cons, run_nil, rest]
      exact undone i List.mem_cons_self s

/-- The same loop with the order of the indices the other way. -/
theorem run_run_reverse
    (undone : ∀ i ∈ indices, ∀ s, back i (step i s) = s) (s : State) :
    run back indices (run step indices.reverse s) = s := by
  have reversed : run back indices.reverse.reverse
      (run step indices.reverse s) = s :=
    run_reverse_run (fun i member => undone i (List.mem_reverse.mp member)) s
  rwa [List.reverse_reverse] at reversed

/-- What no step changes, the loop does not change. -/
theorem view_run (view : State → View)
    (kept : ∀ i ∈ indices, ∀ s, view (step i s) = view s) (s : State) :
    view (run step indices s) = view s := by
  induction indices generalizing s with
  | nil => rfl
  | cons i indices induction =>
      rw [run_cons, induction
        (fun j member => kept j (List.mem_cons_of_mem i member))]
      exact kept i List.mem_cons_self s

/-- A part of the state that every step changes in the same way. -/
theorem view_run_iterate (view : State → View) {change : View → View}
    (each : ∀ i s, view (step i s) = change (view s)) (s : State) :
    view (run step indices s) = change^[indices.length] (view s) := by
  induction indices generalizing s with
  | nil => rfl
  | cons i indices induction =>
      rw [run_cons, induction, each, List.length_cons,
        Function.iterate_succ_apply]

end Undo
