import Mathlib.Data.List.Nodup
import Mathlib.Data.Finset.Card
import Mathlib.Data.Finset.Range
import Mathlib.Logic.Function.Basic

/-!
# Cells linked by pointers

A heap gives each cell the pointer to the next one.  `Leads` says which cells a
pointer leads through; the rules say what a changed pointer does to a way
through the heap.
-/

/-- `next` leads from `start` through exactly these cells to `stop`. -/
def Leads (next : Nat → Option Nat) (start : Option Nat) :
    List Nat → Option Nat → Prop
  | [], stop => start = stop
  | cell :: cells, stop => start = some cell ∧ Leads next (next cell) cells stop

namespace Leads

variable {next other : Nat → Option Nat} {start middle stop : Option Nat}
  {cells front back : List Nat} {cell fresh : Nat}

theorem append_iff :
    Leads next start (front ++ back) stop ↔
      ∃ middle, Leads next start front middle ∧
        Leads next middle back stop := by
  induction front generalizing start with
  | nil =>
      constructor
      · intro way
        exact ⟨start, rfl, way⟩
      · rintro ⟨middle, rfl, way⟩
        exact way
  | cons cell front induction =>
      rw [List.cons_append]
      constructor
      · rintro ⟨first, way⟩
        obtain ⟨middle, head, rest⟩ := induction.mp way
        exact ⟨middle, ⟨first, head⟩, rest⟩
      · rintro ⟨middle, ⟨first, head⟩, rest⟩
        exact ⟨first, induction.mpr ⟨middle, head, rest⟩⟩

/-- A way through some cell. -/
theorem split_iff :
    Leads next start (front ++ cell :: back) stop ↔
      Leads next start front (some cell) ∧
        Leads next (next cell) back stop := by
  rw [append_iff]
  constructor
  · rintro ⟨middle, head, rfl, rest⟩
    exact ⟨head, rest⟩
  · rintro ⟨head, rest⟩
    exact ⟨some cell, head, rfl, rest⟩

theorem concat_iff :
    Leads next start (front ++ [cell]) stop ↔
      Leads next start front (some cell) ∧ next cell = stop := split_iff

theorem head (way : Leads next start cells none) : start = cells.head? := by
  cases cells with
  | nil => exact way
  | cons cell cells => exact way.1

/-- Only the pointers of the cells on the way matter. -/
theorem congr (same : ∀ cell ∈ cells, other cell = next cell)
    (way : Leads next start cells stop) : Leads other start cells stop := by
  induction cells generalizing start with
  | nil => exact way
  | cons cell cells induction =>
      obtain ⟨first, rest⟩ := way
      constructor
      · exact first
      · rw [same cell (by simp)]
        exact induction (fun inside member => same inside (by simp [member]))
          rest

/-- A pointer elsewhere may change. -/
theorem update (outside : cell ∉ cells) (value : Option Nat)
    (way : Leads next start cells stop) :
    Leads (Function.update next cell value) start cells stop := by
  apply way.congr
  intro inside member
  apply Function.update_of_ne
  rintro rfl
  exact outside member

theorem unique (left : Leads next start front none)
    (right : Leads next start back none) : front = back := by
  induction front generalizing start back with
  | nil =>
      cases back with
      | nil => rfl
      | cons cell back =>
          have none : start = none := left
          rw [none] at right
          cases right.1
  | cons cell front induction =>
      obtain ⟨first, leftRest⟩ := left
      cases back with
      | nil =>
          have none : start = none := right
          rw [none] at first
          cases first
      | cons other back =>
          obtain ⟨second, rightRest⟩ := right
          have same : cell = other := Option.some.inj (first.symm.trans second)
          subst same
          rw [induction leftRest rightRest]

/-- A way that ends passes no cell twice. -/
theorem nodup (way : Leads next start cells none) : cells.Nodup := by
  induction cells generalizing start with
  | nil => exact List.nodup_nil
  | cons cell cells induction =>
      obtain ⟨first, rest⟩ := way
      apply List.nodup_cons.mpr
      constructor
      · intro again
        obtain ⟨front, back, split⟩ := List.append_of_mem again
        have tail := rest
        rw [split] at tail
        have later : Leads next (next cell) back none := (split_iff.mp tail).2
        have same := unique rest later
        have longer := congrArg List.length (split.symm.trans same)
        simp only [List.length_append, List.length_cons] at longer
        omega
      · exact induction rest

/-- A new cell behind the last one. -/
theorem attach (way : Leads next start (front ++ [cell]) none)
    (new : fresh ∉ front ++ [cell]) (free : next fresh = none) :
    Leads (Function.update next cell (some fresh)) start
      (front ++ [cell] ++ [fresh]) none := by
  have nodup := way.nodup
  obtain ⟨head, _⟩ := concat_iff.mp way
  have last : cell ∉ front := by
    intro member
    exact (List.nodup_append.mp nodup).2.2 cell member cell (by simp) rfl
  rw [concat_iff, concat_iff]
  refine ⟨⟨head.update last _, Function.update_self _ _ _⟩, ?_⟩
  have apart : fresh ≠ cell := by
    rintro rfl
    exact new (by simp)
  rw [Function.update_of_ne apart, free]

/-- A new cell in front of the first one. -/
theorem push (way : Leads next start cells stop) (new : fresh ∉ cells) :
    Leads (Function.update next fresh start) (some fresh) (fresh :: cells)
      stop := by
  constructor
  · rfl
  · rw [Function.update_self]
    exact way.update new start

/-- The cells met within `fuel` steps. -/
def follow (next : Nat → Option Nat) : Nat → Option Nat → List Nat
  | 0, _ => []
  | _ + 1, none => []
  | fuel + 1, some cell => cell :: follow next fuel (next cell)

theorem follow_eq {fuel : Nat} (way : Leads next start cells none)
    (enough : cells.length ≤ fuel) : follow next fuel start = cells := by
  induction cells generalizing start fuel with
  | nil =>
      have none : start = none := way
      subst none
      cases fuel with
      | zero => rfl
      | succ fuel => rfl
  | cons cell cells induction =>
      obtain ⟨rfl, rest⟩ := way
      cases fuel with
      | zero => cases enough
      | succ fuel =>
          rw [follow, induction rest (Nat.le_of_succ_le_succ enough)]

/-- A way that ends within the first `bound` cells is no longer than that. -/
theorem length_le {bound : Nat} (way : Leads next start cells none)
    (inside : ∀ cell ∈ cells, cell < bound) : cells.length ≤ bound := by
  have below : cells.toFinset ⊆ Finset.range bound := by
    intro cell member
    exact Finset.mem_range.mpr (inside cell (List.mem_toFinset.mp member))
  have size := Finset.card_le_card below
  rw [List.toFinset_card_of_nodup way.nodup, Finset.card_range] at size
  exact size

end Leads
