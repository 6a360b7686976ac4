import Mathlib.Data.List.Basic
import Mathlib.Order.Lattice

/-!
# The first greatest entry

Among the entries of a list that are members of some kind, the first one with
the greatest value.  A scan from the left that takes an entry only when it is
greater finds it.
-/

section

variable {α β : Type} [LinearOrder β]

/-- The entry `a` at place `n` is the first member with the greatest value. -/
structure FirstGreatest (value : α → β) (kind : α → Prop) (entries : List α)
    (n : Nat) (a : α) : Prop where
  entry : entries[n]? = some a
  member : kind a
  greatest : ∀ m b, entries[m]? = some b → kind b →
    value b < value a ∨ value b = value a ∧ n ≤ m

namespace FirstGreatest

variable {value : α → β} {kind : α → Prop} {entries : List α} {n m : Nat}
  {a b : α}

theorem le (first : FirstGreatest value kind entries n a) (here : b ∈ entries)
    (member : kind b) : value b ≤ value a := by
  obtain ⟨m, place⟩ := List.mem_iff_getElem?.mp here
  rcases first.greatest m b place member with less | ⟨same, _⟩
  · exact le_of_lt less
  · exact le_of_eq same

theorem unique (first : FirstGreatest value kind entries n a)
    (other : FirstGreatest value kind entries m b) : n = m ∧ a = b := by
  have place : n = m := by
    rcases first.greatest m b other.entry other.member with less | ⟨_, low⟩
    · rcases other.greatest n a first.entry first.member with more | ⟨same, _⟩
      · exact absurd more (not_lt_of_gt less)
      · exact absurd same.symm (ne_of_lt less)
    · rcases other.greatest n a first.entry first.member with more | ⟨_, high⟩
      · exact absurd more (not_lt_of_ge (first.le
          (List.mem_of_getElem? other.entry) other.member))
      · exact Nat.le_antisymm low high
  subst place
  exact ⟨rfl, Option.some.inj (first.entry.symm.trans other.entry)⟩

/-- A new entry that is no member, or not greater, changes nothing. -/
theorem concat (first : FirstGreatest value kind entries n a)
    (lower : kind b → value b ≤ value a) :
    FirstGreatest value kind (entries ++ [b]) n a where
  entry := by
    rw [List.getElem?_append_left
      (List.getElem?_eq_some_iff.mp first.entry).1]
    exact first.entry
  member := first.member
  greatest := by
    intro m c place member
    have before := (List.getElem?_eq_some_iff.mp first.entry).1
    rcases Nat.lt_or_ge m entries.length with inside | last
    · rw [List.getElem?_append_left inside] at place
      exact first.greatest m c place member
    · obtain rfl : c = b := by
        rw [List.getElem?_append_right last] at place
        exact List.mem_singleton.mp (List.mem_of_getElem? place)
      rcases lt_or_eq_of_le (lower member) with less | same
      · exact .inl less
      · exact .inr ⟨same, by omega⟩

/-- A new member that is greater than all others comes first. -/
theorem concat_greater (member : kind b)
    (greater : ∀ c ∈ entries, kind c → value c < value b) :
    FirstGreatest value kind (entries ++ [b]) entries.length b where
  entry := by simp
  member := member
  greatest := by
    intro m c place kindC
    rcases Nat.lt_or_ge m entries.length with inside | last
    · rw [List.getElem?_append_left inside] at place
      exact .inl (greater c (List.mem_of_getElem? place) kindC)
    · obtain rfl : c = b := by
        rw [List.getElem?_append_right last] at place
        exact List.mem_singleton.mp (List.mem_of_getElem? place)
      exact .inr ⟨rfl, last⟩

/-- Entries may change as long as the members stay the same. -/
theorem map_iff {kind' : α → Prop} {f : α → α}
    (members : ∀ a ∈ entries, kind' (f a) ↔ kind a)
    (kept : ∀ a ∈ entries, kind a → f a = a) :
    FirstGreatest value kind' (entries.map f) n a ↔
      FirstGreatest value kind entries n a := by
  constructor
  · intro first
    obtain ⟨old, place, same⟩ :=
      Option.map_eq_some_iff.mp (List.getElem?_map ▸ first.entry)
    have here := List.mem_of_getElem? place
    have member : kind old := by
      rw [← members old here, same]
      exact first.member
    rw [kept old here member] at same
    subst same
    refine ⟨place, member, ?_⟩
    intro m b other kindB
    have there := List.mem_of_getElem? other
    refine first.greatest m b ?_ ?_
    · rw [List.getElem?_map, other, Option.map_some, kept b there kindB]
    · rw [← kept b there kindB]
      exact (members b there).mpr kindB
  · intro first
    have here := List.mem_of_getElem? first.entry
    have same := kept a here first.member
    refine ⟨?_, ?_, ?_⟩
    · rw [List.getElem?_map, first.entry, Option.map_some, same]
    · rw [← same]
      exact (members a here).mpr first.member
    · intro m b other kindB
      obtain ⟨old, place, image⟩ :=
        Option.map_eq_some_iff.mp (List.getElem?_map ▸ other)
      have there := List.mem_of_getElem? place
      have member : kind old := by
        rw [← members old there, image]
        exact kindB
      rw [kept old there member] at image
      subst image
      exact first.greatest m old place member

end FirstGreatest

end
