import Mathlib.Logic.Basic

/-!
# Guarded runs of a step function

A system is given by its initial states and a total step function on states
and events.  `Reach` collects the states of all runs whose steps meet a guard;
the guard may look at the state before the step and at the event.  The rules
below are what every run argument of this development is built from.
-/

namespace StepSystem

/-- States reached from an initial state by steps that all meet the guard. -/
inductive Reach {State Event : Type} (step : State → Event → State)
    (guard : State → Event → Prop) (initial : State → Prop) :
    State → Prop where
  | start {state : State} :
      initial state → Reach step guard initial state
  | next {state : State} {event : Event} :
      Reach step guard initial state → guard state event →
      Reach step guard initial (step state event)

variable {State Event : Type} {step : State → Event → State}
  {guard : State → Event → Prop} {initial : State → Prop}

/-- A property of the initial states that every guarded step keeps holds in
every state reached. -/
theorem Reach.invariant {property : State → Prop}
    (base : ∀ state, initial state → property state)
    (kept : ∀ state event, property state → guard state event →
      property (step state event))
    {state : State} (reached : Reach step guard initial state) :
    property state := by
  induction reached with
  | start begun => exact base _ begun
  | next _ allowed induction => exact kept _ _ induction allowed

/-- Two properties may be carried through a run together, the second one
using the first in each of its steps. -/
theorem Reach.invariant_under {helper property : State → Prop}
    (helperReached : ∀ {state}, Reach step guard initial state → helper state)
    (base : ∀ state, initial state → property state)
    (kept : ∀ state event, helper state → property state →
      guard state event → property (step state event))
    {state : State} (reached : Reach step guard initial state) :
    property state := by
  induction reached with
  | start begun => exact base _ begun
  | next earlier allowed induction =>
      exact kept _ _ (helperReached earlier) induction allowed

/-! ## Runs given by their events -/

/-- The guard holds at every event of a run. -/
def Along (step : State → Event → State) (guard : State → Event → Prop) :
    State → List Event → Prop
  | _, [] => True
  | state, event :: events =>
      guard state event ∧ Along step guard (step state event) events

instance Along.decidable [∀ state event, Decidable (guard state event)] :
    ∀ (state : State) (events : List Event),
      Decidable (Along step guard state events)
  | _, [] => .isTrue trivial
  | state, event :: events =>
      have := Along.decidable (step state event) events
      inferInstanceAs (Decidable (_ ∧ _))

theorem Along.append_iff {state : State} {first second : List Event} :
    Along step guard state (first ++ second) ↔
      Along step guard state first ∧
        Along step guard (first.foldl step state) second := by
  induction first generalizing state with
  | nil => simp [Along]
  | cons event first induction =>
      rw [List.cons_append, List.foldl_cons, Along, Along, induction, and_assoc]

/-- Two guards that agree under a property that the first one keeps. -/
theorem Along.congr_under {first second : State → Event → Prop}
    {helper : State → Prop}
    (agree : ∀ state event, helper state →
      (first state event ↔ second state event))
    (kept : ∀ state event, helper state → first state event →
      helper (step state event))
    {state : State} (begun : helper state) (events : List Event) :
    Along step first state events ↔ Along step second state events := by
  induction events generalizing state with
  | nil => exact Iff.rfl
  | cons event events induction =>
      rw [Along, Along, ← agree state event begun]
      apply and_congr_right
      intro now
      exact induction (kept state event begun now)

/-- A guard that implies another one under a property that it keeps. -/
theorem Along.imp_under {first second : State → Event → Prop}
    {helper : State → Prop}
    (imp : ∀ state event, helper state → first state event →
      second state event)
    (kept : ∀ state event, helper state → first state event →
      helper (step state event))
    {state : State} (begun : helper state) {events : List Event}
    (allowed : Along step first state events) :
    Along step second state events := by
  induction events generalizing state with
  | nil => trivial
  | cons event events induction =>
      obtain ⟨now, later⟩ := allowed
      exact ⟨imp state event begun now,
        induction (kept state event begun now) later⟩

theorem Reach.run {state : State} {events : List Event}
    (reached : Reach step guard initial state)
    (allowed : Along step guard state events) :
    Reach step guard initial (events.foldl step state) := by
  induction events generalizing state with
  | nil => exact reached
  | cons event events induction =>
      obtain ⟨now, later⟩ := allowed
      exact induction (reached.next now) later

theorem Reach.ofRun {state : State} {events : List Event}
    (allowed : Along step guard state events) :
    Reach step guard (· = state) (events.foldl step state) :=
  Reach.run (.start rfl) allowed

end StepSystem
