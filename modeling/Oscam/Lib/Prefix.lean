import Oscam.Lib.Memory

/-!
# Results that a prefix of a buffer determines

A computation on a buffer of limited size fails when it reads outside of it.
Its result is fixed by the first `l` bytes if it does not fail and is the same
for every buffer with these bytes.
-/

namespace Memory

variable {α : Type} {size l i : Nat} {m other : Memory}

/-- A byte of a buffer of `size` bytes. -/
def within (size : Nat) (m : Memory) (i : Nat) : Option UInt8 :=
  if i < size then some (m i) else none

theorem within_of_lt (inside : i < size) (m : Memory) :
    m.within size i = some (m i) := if_pos inside

theorem within_of_le (outside : size ≤ i) (m : Memory) :
    m.within size i = none := if_neg (by omega)

/-- Whether a byte is there depends on the place only. -/
theorem map_const_within (size : Nat) (m other : Memory) (i : Nat) (a : α) :
    (other.within size i).map (fun _ => a) = (m.within size i).map fun _ => a := by
  by_cases inside : i < size
  · rw [within_of_lt inside, within_of_lt inside]
    rfl
  · rw [within_of_le (by omega), within_of_le (by omega)]

/-- Two buffers have the first `l` bytes in common. -/
def Agree (l : Nat) (m other : Memory) : Prop := ∀ i, i < l → other i = m i

theorem Agree.refl (l : Nat) (m : Memory) : Agree l m m := fun _ _ => rfl

/-- The first `l` bytes with others behind them. -/
def continued (l : Nat) (m : Memory) (behind : Nat → UInt8) : Memory := fun i =>
  if i < l then m i else behind i

theorem agree_continued (l : Nat) (m : Memory) (behind : Nat → UInt8) :
    Agree l m (continued l m behind) := fun _ inside => if_pos inside

theorem continued_of_le {behind : Nat → UInt8} (outside : l ≤ i) :
    continued l m behind i = behind i := if_neg (by omega)

/-- The result is fixed by the first `l` bytes. -/
def FixedBy (l : Nat) (f : Memory → Option α) (m : Memory) : Prop :=
  ∃ value, ∀ other, Agree l m other → f other = some value

namespace FixedBy

variable {f g : Memory → Option α}

theorem const (l : Nat) (value : α) (m : Memory) :
    FixedBy l (fun _ => some value) m := ⟨value, fun _ _ => rfl⟩

theorem congr (same : ∀ other, Agree l m other → f other = g other) :
    FixedBy l f m ↔ FixedBy l g m := by
  constructor
  · intro ⟨value, fixed⟩
    exact ⟨value, fun other agree => (same other agree).symm.trans
      (fixed other agree)⟩
  · intro ⟨value, fixed⟩
    exact ⟨value, fun other agree => (same other agree).trans
      (fixed other agree)⟩

/-- The two runs of a fixed result. -/
theorem same (fixed : FixedBy l f m) (agree : Agree l m other) :
    f other = f m := by
  obtain ⟨value, fixed⟩ := fixed
  rw [fixed other agree, fixed m (Agree.refl l m)]

theorem not_none (fixed : FixedBy l f m) (agree : Agree l m other) :
    f other ≠ none := by
  obtain ⟨value, fixed⟩ := fixed
  rw [fixed other agree]
  exact Option.some_ne_none value

/-- A byte inside of the prefix may be read. -/
theorem byte_iff {k : Memory → UInt8 → Option α} (inside : i < l) :
    FixedBy l (fun m => (m.within size i).bind (k m)) m ↔
      i < size ∧ FixedBy l (fun other => k other (m i)) m := by
  by_cases room : i < size
  · rw [and_iff_right room]
    apply congr
    intro other agree
    rw [within_of_lt room, agree i inside]
    rfl
  · constructor
    · intro fixed
      have here := fixed.not_none (Agree.refl l m)
      rw [within_of_le (by omega)] at here
      exact absurd rfl here
    · intro both
      exact absurd both.1 room

/-- A byte behind the prefix may be read where it does not matter. -/
theorem behind_iff {g : UInt8 → α} (outside : l ≤ i) :
    FixedBy l (fun m => (m.within size i).map g) m ↔
      i < size ∧ ∃ value, ∀ byte, g byte = value := by
  constructor
  · intro ⟨value, fixed⟩
    have room : i < size := by
      by_contra beyond
      have none : (m.within size i).map g = some value :=
        fixed m (Agree.refl l m)
      rw [within_of_le (by omega)] at none
      exact Option.some_ne_none value none.symm
    refine ⟨room, value, fun byte => ?_⟩
    have run : ((continued l m fun _ => byte).within size i).map g =
        some value := fixed _ (agree_continued l m fun _ => byte)
    rw [within_of_lt room, continued_of_le outside] at run
    exact Option.some.inj run
  · intro ⟨room, value, same⟩
    refine ⟨value, fun other _ => ?_⟩
    show (other.within size i).map g = some value
    rw [within_of_lt room, Option.map_some, same]

end FixedBy

end Memory
