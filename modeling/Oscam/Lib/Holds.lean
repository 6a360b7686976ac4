import Oscam.Lib.Memory

/-!
# Bytes at a place

What stands in a buffer from some place on: a message is taken apart into its
parts, the first byte, a number, what follows.
-/

namespace Memory

variable {data : Memory} {ptr : Nat} {front behind : List UInt8}

/-- The bytes stand from a place on. -/
def Holds (data : Memory) (ptr : Nat) (bytes : List UInt8) : Prop :=
  data.read ptr bytes.length = bytes

theorem holds_append :
    Holds data ptr (front ++ behind) ↔
      Holds data ptr front ∧ Holds data (ptr + front.length) behind := by
  unfold Holds
  rw [List.length_append, read_add]
  constructor
  · intro whole
    exact List.append_inj whole (length_read _ _ _)
  · rintro ⟨first, second⟩
    rw [first, second]

theorem Holds.head {byte : UInt8}
    (holds : Holds data ptr (byte :: behind)) : data ptr = byte := by
  have first := (@holds_append data ptr [byte] behind).mp holds
  exact List.head_eq_of_cons_eq first.1

theorem Holds.tail {byte : UInt8}
    (holds : Holds data ptr (byte :: behind)) : Holds data (ptr + 1) behind :=
  ((@holds_append data ptr [byte] behind).mp holds).2

theorem holds_cons {byte : UInt8} :
    Holds data ptr (byte :: behind) ↔
      data ptr = byte ∧ Holds data (ptr + 1) behind := by
  refine ⟨fun holds => ⟨holds.head, holds.tail⟩, ?_⟩
  rintro ⟨rfl, tail⟩
  exact (@holds_append data ptr [data ptr] behind).mpr ⟨rfl, tail⟩

theorem holds_nil : Holds data ptr [] := rfl

/-- The bytes stand elsewhere as well. -/
theorem Holds.copied {other : Memory} {place : Nat}
    (holds : Holds data ptr behind)
    (same : ∀ i < behind.length, other (place + i) = data (ptr + i)) :
    Holds other place behind :=
  (read_of_apply same).trans holds

theorem Holds.number {n value : Nat}
    (holds : Holds data ptr (digits n value)) (fits : value < 256 ^ n) :
    data.number ptr n = value := by
  unfold Holds at holds
  rw [length_digits] at holds
  rw [number_of_read holds, Nat.mod_eq_of_lt fits]

end Memory
