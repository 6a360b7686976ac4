import Oscam.Lib.Memory

/-!
# Integers in byte buffers

`b2i`, `b2ll` and `i2b_buf` of `oscam-simples.c` on the widths 2, 3 and 4.
In `i2b_buf` the case of three bytes has no `break`.
-/

namespace Oscam

namespace ByteOrder

/-- `b2i`; an unknown width is logged. -/
def b2i (n : Nat) (b : Memory) : UInt32 :=
  match n with
  | 2 => (b 0).toUInt32 <<< 8 ||| (b 1).toUInt32
  | 3 => (b 0).toUInt32 <<< 16 ||| (b 1).toUInt32 <<< 8 ||| (b 2).toUInt32
  | 4 =>
      (b 0).toUInt32 <<< 24 ||| (b 1).toUInt32 <<< 16 |||
        (b 2).toUInt32 <<< 8 ||| (b 3).toUInt32
  | _ => 0

/-- `b2ll`. -/
def b2ll (n : Nat) (b : Memory) : UInt64 :=
  (b.read 0 n).foldl (fun k byte => (k <<< 8) + byte.toUInt64) 0

/-- The stores of the case for four bytes. -/
def i2bFour (i : UInt32) (b : Buffer) : Buffer :=
  b.write 0 [(i >>> 24).toUInt8, (i >>> 16).toUInt8, (i >>> 8).toUInt8,
    i.toUInt8]

/-- `i2b_buf`. -/
def i2bBuf (n : Nat) (i : UInt32) (b : Buffer) : Buffer :=
  match n with
  | 2 => b.write 0 [(i >>> 8).toUInt8, i.toUInt8]
  | 3 =>
      -- The case falls through to the next one.
      i2bFour i (b.write 0 [(i >>> 16).toUInt8, (i >>> 8).toUInt8, i.toUInt8])
  | 4 => i2bFour i b
  | _ => b

/-- What is asked of `i2b_buf` for one width, value and buffer: it writes the
first `n` bytes and no others, and both readers give the value back. -/
def Encodes (n : Nat) (i : UInt32) (b : Memory) : Prop :=
  let after := i2bBuf n i (.fresh b)
  after.written = n ∧ (∀ k, n ≤ k → after.memory k = b k) ∧
    b2i n after.memory = i ∧ b2ll n after.memory = i.toUInt64

/-! ## Readers as numbers -/

variable {n k : Nat} {i : UInt32} {b : Memory}

theorem toNat_shiftLeft (byte : UInt8) (fits : k ≤ 24) :
    (byte.toUInt32 <<< UInt32.ofNat k).toNat = 2 ^ k * byte.toNat := by
  have small : byte.toNat < 2 ^ 8 := byte.toNat_lt
  have power : 2 ^ k ≤ 2 ^ 24 := Nat.pow_le_pow_right (by decide) fits
  have product : 2 ^ k * byte.toNat < 2 ^ 32 :=
    calc 2 ^ k * byte.toNat < 2 ^ k * 2 ^ 8 :=
          Nat.mul_lt_mul_of_pos_left small (Nat.two_pow_pos k)
      _ ≤ 2 ^ 24 * 2 ^ 8 := Nat.mul_le_mul_right _ power
      _ = 2 ^ 32 := by decide
  have count : (UInt32.ofNat k).toNat % 32 = k := by
    rw [UInt32.toNat_ofNat']
    omega
  rw [UInt32.toNat_shiftLeft, count, UInt8.toNat_toUInt32, Nat.shiftLeft_eq,
    Nat.mul_comm, Nat.mod_eq_of_lt product]

/-- Bytes that stand behind a number are or-ed to it by an addition. -/
theorem toNat_or (k value : Nat) (front back : UInt32)
    (high : front.toNat = 2 ^ k * value) (low : back.toNat < 2 ^ k) :
    (front ||| back).toNat = 2 ^ k * value + back.toNat := by
  rw [UInt32.toNat_or, high, Nat.two_pow_add_eq_or_of_lt low]

/-- The bytes that are read, each at its place. -/
theorem toNat_b2i_four (b : Memory) :
    (b2i 4 b).toNat = 2 ^ 24 * (b 0).toNat + 2 ^ 16 * (b 1).toNat +
      2 ^ 8 * (b 2).toNat + (b 3).toNat := by
  have first : ((b 0).toUInt32 <<< 24).toNat = 2 ^ 24 * (b 0).toNat :=
    toNat_shiftLeft (k := 24) (b 0) (by decide)
  have second : ((b 1).toUInt32 <<< 16).toNat = 2 ^ 16 * (b 1).toNat :=
    toNat_shiftLeft (k := 16) (b 1) (by decide)
  have third : ((b 2).toUInt32 <<< 8).toNat = 2 ^ 8 * (b 2).toNat :=
    toNat_shiftLeft (k := 8) (b 2) (by decide)
  have last : (b 3).toUInt32.toNat = (b 3).toNat := UInt8.toNat_toUInt32 _
  have small (k : Nat) : (b k).toNat < 256 := (b k).toNat_lt
  have two := toNat_or 24 (b 0).toNat _ ((b 1).toUInt32 <<< 16) first
    (by have := small 1; omega)
  have three := toNat_or 16 (2 ^ 8 * (b 0).toNat + (b 1).toNat)
    ((b 0).toUInt32 <<< 24 ||| (b 1).toUInt32 <<< 16)
    ((b 2).toUInt32 <<< 8) (by omega) (by have := small 2; omega)
  have four := toNat_or 8
    (2 ^ 16 * (b 0).toNat + 2 ^ 8 * (b 1).toNat + (b 2).toNat)
    ((b 0).toUInt32 <<< 24 ||| (b 1).toUInt32 <<< 16 |||
      (b 2).toUInt32 <<< 8) (b 3).toUInt32
    (by omega) (by have := small 3; omega)
  rw [b2i, four]
  omega

/-- Two and three bytes are four with zeros in front of them. -/
theorem toNat_b2i (wide : n = 2 ∨ n = 3 ∨ n = 4) (b : Memory) :
    (b2i n b).toNat = b.number 0 n := by
  have zero {k : UInt32} : (0 : UInt8).toUInt32 <<< k = 0 := by simp
  rcases wide with rfl | rfl | rfl
  · have value := toNat_b2i_four fun k => if k < 2 then 0 else b (k - 2)
    simp [b2i] at value
    simp [b2i, Memory.number, Memory.read, List.range_succ]
    omega
  · have value := toNat_b2i_four fun k => if k < 1 then 0 else b (k - 1)
    simp [b2i] at value
    simp [b2i, Memory.number, Memory.read, List.range_succ]
    omega
  · rw [toNat_b2i_four]
    simp [Memory.number, Memory.read, List.range_succ]
    omega

/-- `b2ll` is the number in a word of 64 bits. -/
theorem b2ll_eq (n : Nat) (b : Memory) :
    b2ll n b = UInt64.ofNat (b.number 0 n) := by
  have shifted (k : UInt64) : k <<< 8 = k * 256 := by
    apply UInt64.toNat_inj.mp
    simp [Nat.shiftLeft_eq]
  have word (byte : UInt8) : byte.toUInt64 = UInt64.ofNat byte.toNat := by
    apply UInt64.toNat_inj.mp
    rw [UInt8.toNat_toUInt64, UInt64.toNat_ofNat']
    have small : byte.toNat < 2 ^ 8 := byte.toNat_lt
    omega
  have step (bytes : List UInt8) (value : Nat) :
      bytes.foldl (fun (k : UInt64) (byte : UInt8) => (k <<< 8) + byte.toUInt64)
          (UInt64.ofNat value) =
        UInt64.ofNat (bytes.foldl
          (fun (value : Nat) (byte : UInt8) => value * 256 + byte.toNat)
          value) := by
    induction bytes generalizing value with
    | nil => rfl
    | cons byte bytes induction =>
        have next : UInt64.ofNat value <<< 8 + byte.toUInt64 =
            UInt64.ofNat (value * 256 + byte.toNat) := by
          rw [shifted, word, UInt64.ofNat_add, UInt64.ofNat_mul]
          rfl
        rw [List.foldl_cons, next, induction, List.foldl_cons]
  exact step (b.read 0 n) 0

/-! ## The writer -/

theorem toUInt8_shiftRight (i : UInt32) (fits : k < 4) :
    (i >>> UInt32.ofNat (8 * k)).toUInt8 =
      UInt8.ofNat (i.toNat / 256 ^ k) := by
  have count : (UInt32.ofNat (8 * k)).toNat % 32 = 8 * k := by
    rw [UInt32.toNat_ofNat']
    omega
  apply UInt8.toNat_inj.mp
  rw [UInt32.toNat_toUInt8, UInt32.toNat_shiftRight, count,
    Nat.shiftRight_eq_div_pow, Nat.pow_mul, UInt8.toNat_ofNat']

theorem stores_two (i : UInt32) :
    [(i >>> 8).toUInt8, i.toUInt8] = Memory.digits 2 i.toNat := by
  have first := toUInt8_shiftRight (k := 1) i (by decide)
  have last := toUInt8_shiftRight (k := 0) i (by decide)
  rw [show i >>> UInt32.ofNat (8 * 0) = i by simp] at last
  rw [show UInt32.ofNat (8 * 1) = 8 by decide] at first
  rw [first, last]
  rfl

theorem stores_four (i : UInt32) :
    [(i >>> 24).toUInt8, (i >>> 16).toUInt8, (i >>> 8).toUInt8, i.toUInt8] =
      Memory.digits 4 i.toNat := by
  have first := toUInt8_shiftRight (k := 3) i (by decide)
  have second := toUInt8_shiftRight (k := 2) i (by decide)
  rw [show UInt32.ofNat (8 * 3) = 24 by decide] at first
  rw [show UInt32.ofNat (8 * 2) = 16 by decide] at second
  have rest := stores_two i
  rw [first, second, rest]
  rfl

theorem memory_i2bBuf_two (i : UInt32) (b : Memory) :
    (i2bBuf 2 i (.fresh b)).memory = b.write 0 (Memory.digits 2 i.toNat) := by
  rw [i2bBuf, stores_two]
  rfl

theorem memory_i2bBuf_four (i : UInt32) (b : Memory) :
    (i2bBuf 4 i (.fresh b)).memory = b.write 0 (Memory.digits 4 i.toNat) := by
  rw [i2bBuf, i2bFour, stores_four]
  rfl

/-- The last byte that the three cases write. -/
theorem written_i2bBuf (wide : n = 2 ∨ n = 3 ∨ n = 4) (i : UInt32)
    (b : Memory) :
    (i2bBuf n i (.fresh b)).written = if n = 2 then 2 else 4 := by
  rcases wide with rfl | rfl | rfl <;> rfl

/-- Bytes that are the digits of a value are read as the value. -/
theorem read_back (wide : n = 2 ∨ n = 3 ∨ n = 4)
    (small : i.toNat < 256 ^ n) (b : Memory) :
    b2i n (b.write 0 (Memory.digits n i.toNat)) = i ∧
      b2ll n (b.write 0 (Memory.digits n i.toNat)) = i.toUInt64 := by
  have digits := Memory.read_write b 0 (Memory.digits n i.toNat)
  rw [Memory.length_digits] at digits
  have value := Memory.number_of_read digits
  rw [Nat.mod_eq_of_lt small] at value
  constructor
  · apply UInt32.toNat_inj.mp
    rw [toNat_b2i wide, value]
  · rw [b2ll_eq, value]
    apply UInt64.toNat_inj.mp
    have low : i.toNat < 2 ^ 32 := i.toNat_lt
    rw [UInt64.toNat_ofNat', UInt32.toNat_toUInt64]
    omega

theorem encodes_of_digits (wide : n = 2 ∨ n = 3 ∨ n = 4)
    (small : i.toNat < 256 ^ n) {b : Memory}
    (last : (i2bBuf n i (.fresh b)).written = n)
    (stored : (i2bBuf n i (.fresh b)).memory =
      b.write 0 (Memory.digits n i.toNat)) : Encodes n i b := by
  obtain ⟨narrow, long⟩ := read_back wide small b
  refine ⟨last, ?_, ?_, ?_⟩
  · intro k behind
    rw [stored]
    apply Memory.write_of_le
    rwa [Memory.length_digits, Nat.zero_add]
  · rwa [stored]
  · rwa [stored]

/-- The encoder keeps its law on every value and buffer, except for the width
of three bytes, where it fails on all of them. -/
theorem encodes_iff (wide : n = 2 ∨ n = 3 ∨ n = 4)
    (small : i.toNat < 2 ^ (8 * n)) (b : Memory) :
    Encodes n i b ↔ n ≠ 3 := by
  have below : i.toNat < 256 ^ n := by rwa [Nat.pow_mul] at small
  constructor
  · rintro ⟨last, _⟩ rfl
    rw [written_i2bBuf (by decide)] at last
    exact absurd last (by decide)
  · intro other
    rcases wide with rfl | rfl | rfl
    · exact encodes_of_digits (by decide) below rfl (memory_i2bBuf_two i b)
    · exact absurd rfl other
    · exact encodes_of_digits (by decide) below rfl (memory_i2bBuf_four i b)

theorem encodes_iff_four : Encodes 4 0x01020304 Memory.zero ↔ 4 ≠ 3 :=
  encodes_iff (by decide) (by decide) Memory.zero

/-- Three bytes of 0x012345 read back as 0x000123, and the fourth byte of the
buffer is gone. -/
theorem three_bytes_read_as_two :
    let after := (i2bBuf 3 0x012345 (.fresh Memory.zero)).memory
    b2i 3 after = 0x000123 ∧ after 3 = 0x45 ∧
      ¬ Encodes 3 0x012345 Memory.zero := by
  refine ⟨by decide, by decide, ?_⟩
  rintro ⟨last, _⟩
  exact absurd last (by decide)

end ByteOrder

end Oscam
