import Mathlib.Data.List.Basic

/-!
# Searching a list while dropping stale elements

A search walks a list from its head.  Stale elements are taken out on the way,
the walk stops at the first element that is not stale and matches, and what
lies behind the match is not looked at.
-/

namespace PurgeSearch

/-- What a search leaves behind: the list afterwards, the elements taken out
and the match. -/
structure Outcome (α : Type) where
  kept : List α
  dropped : List α
  found : Option α

variable {α : Type}

def search (stale hit : α → Bool) : List α → Outcome α
  | [] => { kept := [], dropped := [], found := none }
  | item :: items =>
      if stale item then
        let rest := search stale hit items
        { rest with dropped := item :: rest.dropped }
      else if hit item then
        { kept := item :: items, dropped := [], found := some item }
      else
        let rest := search stale hit items
        { rest with kept := item :: rest.kept }

variable {stale hit : α → Bool} {items : List α}

@[simp] theorem search_nil :
    search stale hit [] = { kept := [], dropped := [], found := none } :=
  rfl

theorem search_stale {item : α} (old : stale item = true) :
    search stale hit (item :: items) =
      { search stale hit items with
        dropped := item :: (search stale hit items).dropped } := by
  simp [search, old]

theorem search_hit {item : α} (fresh : stale item = false)
    (same : hit item = true) :
    search stale hit (item :: items) =
      { kept := item :: items, dropped := [], found := some item } := by
  simp [search, fresh, same]

theorem search_miss {item : α} (fresh : stale item = false)
    (other : hit item = false) :
    search stale hit (item :: items) =
      { search stale hit items with
        kept := item :: (search stale hit items).kept } := by
  simp [search, fresh, other]

/-- A search loses no element and invents none. -/
theorem kept_append_dropped_perm (stale hit : α → Bool) (items : List α) :
    ((search stale hit items).kept ++ (search stale hit items).dropped).Perm
      items := by
  induction items with
  | nil => simp
  | cons item items induction =>
      cases old : stale item with
      | true =>
          rw [search_stale old]
          exact List.perm_middle.trans (induction.cons item)
      | false =>
          cases same : hit item with
          | true => simp [search_hit old same]
          | false =>
              rw [search_miss old same]
              exact induction.cons item

theorem mem_kept_or_dropped {item : α} (member : item ∈ items) :
    item ∈ (search stale hit items).kept ∨
      item ∈ (search stale hit items).dropped := by
  have listed := (kept_append_dropped_perm stale hit items).mem_iff.mpr member
  exact List.mem_append.mp listed

/-- Only stale elements are taken out. -/
theorem stale_of_mem_dropped {item : α}
    (member : item ∈ (search stale hit items).dropped) :
    stale item = true := by
  induction items with
  | nil => simp at member
  | cons head items induction =>
      cases old : stale head with
      | true =>
          rw [search_stale old] at member
          rcases List.mem_cons.mp member with rfl | later
          · exact old
          · exact induction later
      | false =>
          cases same : hit head with
          | true => simp [search_hit old same] at member
          | false =>
              rw [search_miss old same] at member
              exact induction member

/-- The match is a fresh matching element that stays in the list. -/
theorem found_spec {item : α}
    (result : (search stale hit items).found = some item) :
    item ∈ (search stale hit items).kept ∧ stale item = false ∧
      hit item = true := by
  induction items with
  | nil => simp at result
  | cons head items induction =>
      cases old : stale head with
      | true =>
          rw [search_stale old] at result ⊢
          exact induction result
      | false =>
          cases same : hit head with
          | true =>
              rw [search_hit old same] at result ⊢
              cases result
              exact ⟨List.mem_cons_self, old, same⟩
          | false =>
              rw [search_miss old same] at result ⊢
              obtain ⟨member, fresh, matched⟩ := induction result
              exact ⟨List.mem_cons_of_mem head member, fresh, matched⟩

/-- The match is the first element that is fresh and matches. -/
theorem found_eq_find? (stale hit : α → Bool) (items : List α) :
    (search stale hit items).found =
      items.find? fun item => !stale item && hit item := by
  induction items with
  | nil => rfl
  | cons head items induction =>
      cases old : stale head with
      | true => simp [search_stale old, old, induction]
      | false =>
          cases same : hit head with
          | true => simp [search_hit old same, old, same]
          | false => simp [search_miss old same, old, same, induction]

end PurgeSearch
