import Mathlib.Data.List.Nodup

/-!
# Chains of records

A linked list of records is a list whose cells have distinct addresses.  A
pointer into it is an address, and following the pointer is `get?`; every
operation is described by what it does to `get?`.
-/

/-- Records with distinct addresses. -/
structure Chain (α : Type) (addr : α → Nat) where
  cells : List α
  distinct : (cells.map addr).Nodup

namespace Chain

variable {α : Type} {addr : α → Nat}

/-- Following a pointer. -/
def get? (chain : Chain α addr) (a : Nat) : Option α :=
  chain.cells.find? fun cell => addr cell == a

def addresses (chain : Chain α addr) : List Nat := chain.cells.map addr

/-- A change of the contents of all cells. -/
def mapCells (chain : Chain α addr) (f : α → α)
    (kept : ∀ cell, addr (f cell) = addr cell) : Chain α addr where
  cells := chain.cells.map f
  distinct := by
    have same : (chain.cells.map f).map addr = chain.cells.map addr := by
      rw [List.map_map]
      apply List.map_congr_left
      intro cell _
      exact kept cell
    rw [same]
    exact chain.distinct

/-- A change of the cell at one address. -/
def modify (chain : Chain α addr) (a : Nat) (f : α → α)
    (kept : ∀ cell, addr (f cell) = addr cell) : Chain α addr :=
  chain.mapCells (fun cell => if addr cell = a then f cell else cell) (by
    intro cell
    split
    · exact kept cell
    · rfl)

/-- The cells that are kept. -/
def filter (chain : Chain α addr) (keeps : α → Bool) : Chain α addr where
  cells := chain.cells.filter keeps
  distinct := chain.distinct.sublist (List.filter_sublist.map addr)

/-- A cell is taken out. -/
def remove (chain : Chain α addr) (a : Nat) : Chain α addr :=
  chain.filter fun cell => addr cell != a

theorem eq_of_addr {chain : Chain α addr} {first second : α}
    (firstMember : first ∈ chain.cells) (secondMember : second ∈ chain.cells)
    (same : addr first = addr second) : first = second :=
  List.inj_on_of_nodup_map chain.distinct firstMember secondMember same

theorem get?_eq_some_iff {chain : Chain α addr} {a : Nat} {cell : α} :
    chain.get? a = some cell ↔ cell ∈ chain.cells ∧ addr cell = a := by
  constructor
  · intro found
    have fits := List.find?_some found
    rw [beq_iff_eq] at fits
    exact ⟨List.mem_of_find?_eq_some found, fits⟩
  · rintro ⟨member, rfl⟩
    cases found : chain.get? (addr cell) with
    | none =>
        have missing := List.find?_eq_none.mp found cell member
        simp at missing
    | some other =>
        have fits := List.find?_some found
        rw [beq_iff_eq] at fits
        rw [eq_of_addr (List.mem_of_find?_eq_some found) member fits]

theorem get?_mapCells (chain : Chain α addr) (f : α → α)
    (kept : ∀ cell, addr (f cell) = addr cell) (a : Nat) :
    (chain.mapCells f kept).get? a = (chain.get? a).map f := by
  simp only [get?, mapCells, List.find?_map]
  congr 2
  funext cell
  simp [kept]

theorem get?_modify_self (chain : Chain α addr) (a : Nat) (f : α → α)
    (kept : ∀ cell, addr (f cell) = addr cell) :
    (chain.modify a f kept).get? a = (chain.get? a).map f := by
  rw [modify, get?_mapCells]
  cases found : chain.get? a with
  | none => rfl
  | some cell => simp [(get?_eq_some_iff.mp found).2]

theorem get?_modify_of_ne (chain : Chain α addr) {a b : Nat} (f : α → α)
    (kept : ∀ cell, addr (f cell) = addr cell) (other : a ≠ b) :
    (chain.modify b f kept).get? a = chain.get? a := by
  rw [modify, get?_mapCells]
  cases found : chain.get? a with
  | none => rfl
  | some cell => simp [(get?_eq_some_iff.mp found).2, other]

theorem get?_filter (chain : Chain α addr) (keeps : α → Bool) (a : Nat) :
    (chain.filter keeps).get? a = (chain.get? a).filter keeps := by
  apply Option.ext
  intro cell
  constructor
  · intro found
    obtain ⟨member, same⟩ := get?_eq_some_iff.mp found
    obtain ⟨listed, kept⟩ := List.mem_filter.mp member
    rw [Option.filter_eq_some_iff]
    exact ⟨get?_eq_some_iff.mpr ⟨listed, same⟩, kept⟩
  · intro found
    rw [Option.filter_eq_some_iff] at found
    obtain ⟨listed, same⟩ := get?_eq_some_iff.mp found.1
    exact get?_eq_some_iff.mpr ⟨List.mem_filter.mpr ⟨listed, found.2⟩, same⟩

theorem get?_remove_of_ne (chain : Chain α addr) {a b : Nat}
    (other : a ≠ b) : (chain.remove b).get? a = chain.get? a := by
  rw [remove, get?_filter]
  cases found : chain.get? a with
  | none => rfl
  | some cell => simp [(get?_eq_some_iff.mp found).2, other]

end Chain
