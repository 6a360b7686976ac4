import Mathlib.Data.List.Basic
import Oscam.Lib.Reach

/-!
# Threads that share a state

A program that runs in several threads is a state which they share and, for
each of them, the place it has come to in its code.  A step of one thread
changes the shared state and its own place only, so that the number of threads
at places of some kind changes by the place the thread leaves and the one it
comes to.
-/

structure Threads (Shared Place : Type) where
  shared : Shared
  places : List Place

namespace Threads

variable {Shared Place Input : Type}
  {code : Input → Shared → Place → Shared × Place}
  {s : Threads Shared Place} {t u : Nat} {p q : Place}
  {kind : Place → Bool}

/-- The thread `t` is at the place `p`. -/
def At (s : Threads Shared Place) (t : Nat) (p : Place) : Prop :=
  s.places[t]? = some p

/-- One step of the thread an event names, with what the thread reads from
outside. -/
def step (code : Input → Shared → Place → Shared × Place)
    (s : Threads Shared Place) (event : Nat × Input) : Threads Shared Place :=
  match s.places[event.1]? with
  | none => s
  | some p =>
      let (shared, p) := code event.2 s.shared p
      { shared := shared, places := s.places.set event.1 p }

/-- The threads at places of the kind. -/
def tally (kind : Place → Bool) (s : Threads Shared Place) : Nat :=
  s.places.countP kind

theorem step_cases (s : Threads Shared Place) (event : Nat × Input) :
    s.step code event = s ∨ ∃ p, s.At event.1 p ∧
      s.step code event =
        { shared := (code event.2 s.shared p).1
          places := s.places.set event.1 (code event.2 s.shared p).2 } := by
  unfold step At
  cases s.places[event.1]? with
  | none => exact .inl rfl
  | some p => exact .inr ⟨p, rfl, rfl⟩

theorem tally_pos (there : s.At t p) (counted : kind p = true) :
    0 < s.tally kind :=
  List.countP_pos_iff.mpr ⟨p, List.mem_of_getElem? there, counted⟩

/-- The count behind a step, with the place left and the place reached. -/
theorem tally_set (kind : Place → Bool) (there : s.At t p) (shared : Shared)
    (q : Place) :
    ({ shared := shared, places := s.places.set t q } :
        Threads Shared Place).tally kind + (kind p).toNat =
      s.tally kind + (kind q).toNat := by
  obtain ⟨inside, same⟩ := List.getElem?_eq_some_iff.mp there
  unfold tally
  rw [List.countP_set inside, same]
  cases counted : kind p with
  | false => cases kind q <;> simp
  | true =>
      have some : 0 < s.places.countP kind := tally_pos there counted
      cases kind q <;> simp <;> omega

end Threads
