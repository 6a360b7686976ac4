import Mathlib.Tactic.IntervalCases
import Oscam.Protocol.NewcamdCard

/-!
# The unique address of a CCcam card

CCcam has the unique address of a card at the right end of its eight bytes,
OSCam has the serial number in the format of its card system.  The serial
number is moved right by `UA_right` and left again by `UA_left`, both as far
as a byte that they test is zero.
-/

namespace Oscam.Cccam

open Newcamd

/-- `get_UA_ofs`. -/
def getUaOfs (caid : UInt16) : Nat :=
  match caid.toNat / 256 with
  | 0x05 | 0x0D => 1
  | 0x4B | 0x09 | 0x0B | 0x18 | 0x17 | 0x06 => 2
  | _ => 0

/-- The loop of `UA_right` from some `ofs` on. -/
def uaRight (input : Memory) : Nat → Nat → Memory → Memory
  | 0, _, out => out
  | len + 1, ofs, out =>
      let out := out.write ofs (input.read 0 (len + 1))
      if out len ≠ 0 then out
      else uaRight input len (ofs + 1) (out.write 0 [0])

/-- The loop of `UA_left`; the arguments are `maxlen`, `ofs` and `len`. -/
def uaLeftFrom (input : Memory) (orglen : Nat) :
    Nat → Nat → Nat → Memory → Memory
  | _, _, 0, out => out
  | 0, _, _ + 1, out => out -- not reached, `len` is at most `maxlen`
  | maxlen + 1, ofs, len + 1, out =>
      let out := (out.clear orglen).write 0 (input.read ofs (len + 1))
      if out 0 ≠ 0 then out
      else uaLeftFrom input orglen maxlen (ofs + 1) (min (len + 1) maxlen) out

/-- `UA_left`. -/
def uaLeft (input out : Memory) (len : Nat) : Memory :=
  uaLeftFrom input len 8 0 len out

/-- `tmp` of `cc_UA_oscam2cccam`. -/
def newcamdSerial (input : Memory) (caid : UInt16) : Memory :=
  Memory.zero.write 2 (hexserialToNewcamd input caid)

/-- `cc_UA_oscam2cccam`. -/
def uaOscam2cccam (input out : Memory) (caid : UInt16) : Memory :=
  uaRight (newcamdSerial input caid) 8 0 (out.clear 8)

/-- `tmp` of `cc_UA_cccam2oscam`. -/
def leftSerial (input : Memory) (caid : UInt16) : Memory :=
  let ofs := getUaOfs caid
  Memory.zero.write ofs
    ((uaLeft input (Memory.zero.shift ofs) (8 - ofs)).read 0 (8 - ofs))

/-- `cc_UA_cccam2oscam`. -/
def uaCccam2oscam (input out : Memory) (caid : UInt16) : Memory :=
  newcamdToHexserial (leftSerial input caid) (out.clear 8) caid.toNat

/-! ## Moving to the right -/

variable {input out : Memory} {maxlen len ofs orglen k i : Nat}

/-- The bytes `k` places further right, behind zeros. -/
def shifted (input : Memory) (k : Nat) : Memory := fun i =>
  if i < k then 0 else input (i - k)

/-- The byte on which the move by `k` places is tested. -/
def tested (input : Memory) (k : Nat) : UInt8 := shifted input k (7 - k)

/-- One copy of `UA_right`, behind zeros. -/
theorem write_shifted (front : ∀ i < ofs, out i = 0)
    (whole : len + 1 + ofs = 8) (inside : i < 8) :
    out.write ofs (input.read 0 (len + 1)) i = shifted input ofs i := by
  rw [Memory.write_read_apply]
  unfold shifted
  by_cases before : i < ofs
  · rw [if_neg (by omega), if_pos before]
    exact front i before
  · rw [if_pos (by omega), if_neg before, Nat.zero_add]

/-- The zeros in front after one more turn. -/
theorem front_next (first : input 0 = 0) (front : ∀ i < ofs, out i = 0)
    (whole : len + 1 + ofs = 8) :
    ∀ i < ofs + 1,
      (out.write ofs (input.read 0 (len + 1))).write 0 [0] i = 0 := by
  intro i inside
  by_cases start : i = 0
  · subst start
    exact Memory.write_head _ 0 0 []
  · have single : ([0] : List UInt8).length = 1 := rfl
    rw [Memory.write_of_le (by omega),
      write_shifted front whole (by omega)]
    unfold shifted
    split
    · rfl
    · have last : i - ofs = 0 := by omega
      rw [last, first]

/-- The loop ends at the first move whose tested byte is not zero. -/
theorem uaRight_of_tested (first : input 0 = 0)
    (front : ∀ i < ofs, out i = 0) (whole : len + ofs = 8) (later : ofs ≤ k)
    (few : k < 8) (before : ∀ j, ofs ≤ j → j < k → tested input j = 0)
    (found : tested input k ≠ 0) (inside : i < 8) :
    uaRight input len ofs out i = shifted input k i := by
  induction len generalizing ofs out with
  | zero => omega
  | succ len induction =>
      have test : out.write ofs (input.read 0 (len + 1)) len =
          tested input ofs := by
        have place : len = 7 - ofs := by omega
        rw [write_shifted front whole (by omega), tested, ← place]
      unfold uaRight
      dsimp only
      rw [test]
      by_cases last : ofs = k
      · subst last
        rw [if_pos found]
        exact write_shifted front whole inside
      · have zero := before ofs (Nat.le_refl ofs) (by omega)
        rw [if_neg (not_not.mpr zero)]
        exact induction (front_next first front whole) (by omega) (by omega)
          fun j low high => before j (by omega) high

/-- Without such a move all bytes are cleared. -/
theorem uaRight_zero (first : input 0 = 0) (front : ∀ i < ofs, out i = 0)
    (whole : len + ofs = 8) (zeros : ∀ j, ofs ≤ j → j < 8 → tested input j = 0)
    (inside : i < 8) : uaRight input len ofs out i = 0 := by
  induction len generalizing ofs out with
  | zero => exact front i (by omega)
  | succ len induction =>
      have test : out.write ofs (input.read 0 (len + 1)) len =
          tested input ofs := by
        have place : len = 7 - ofs := by omega
        rw [write_shifted front whole (by omega), tested, ← place]
      have zero := zeros ofs (Nat.le_refl ofs) (by omega)
      unfold uaRight
      dsimp only
      rw [test, if_neg (not_not.mpr zero)]
      exact induction (front_next first front whole) (by omega)
        fun j low high => zeros j (by omega) high

/-! ## Moving to the left -/

/-- One copy of `UA_left`. -/
theorem clear_write (inside : i < orglen) :
    (out.clear orglen).write 0 (input.read ofs len) i =
      if i < len then input (ofs + i) else 0 := by
  rw [Memory.write_read_apply]
  by_cases copied : i < len
  · rw [if_pos (by omega), if_pos copied, Nat.sub_zero]
  · rw [if_neg (by omega), if_neg copied]
    exact if_pos inside

/-- The first byte that is not zero comes to the front. -/
theorem uaLeftFrom_of_ne (some : 0 < orglen) (whole : ofs + maxlen = 8)
    (least : len = min orglen maxlen) (later : ofs ≤ k) (few : k < 8)
    (before : ∀ j, ofs ≤ j → j < k → input j = 0) (found : input k ≠ 0)
    (inside : i < orglen) :
    uaLeftFrom input orglen maxlen ofs len out i =
      if k + i < 8 then input (k + i) else 0 := by
  induction maxlen generalizing ofs len out with
  | zero => omega
  | succ maxlen induction =>
      obtain ⟨rest, rfl⟩ : ∃ rest, len = rest + 1 := ⟨len - 1, by omega⟩
      have test : (out.clear orglen).write 0 (input.read ofs (rest + 1)) 0 =
          input ofs := by
        rw [clear_write some, if_pos (by omega), Nat.add_zero]
      unfold uaLeftFrom
      dsimp only
      rw [test]
      by_cases last : ofs = k
      · subst last
        rw [if_pos found, clear_write inside]
        exact if_congr (by omega) rfl rfl
      · have zero := before ofs (Nat.le_refl ofs) (by omega)
        rw [if_neg (not_not.mpr zero)]
        exact induction (by omega) (by omega) (by omega)
          fun j low high => before j (by omega) high

/-- An address of zeros stays one. -/
theorem uaLeftFrom_zero (some : 0 < orglen) (whole : ofs + maxlen = 8)
    (least : len = min orglen maxlen)
    (zeros : ∀ j, ofs ≤ j → j < 8 → input j = 0)
    (clean : maxlen = 0 → ∀ i < orglen, out i = 0) (inside : i < orglen) :
    uaLeftFrom input orglen maxlen ofs len out i = 0 := by
  induction maxlen generalizing ofs len out with
  | zero =>
      have done : len = 0 := by omega
      subst done
      unfold uaLeftFrom
      exact clean rfl i inside
  | succ maxlen induction =>
      obtain ⟨rest, rfl⟩ : ∃ rest, len = rest + 1 := ⟨len - 1, by omega⟩
      have copied : ∀ i < orglen,
          (out.clear orglen).write 0 (input.read ofs (rest + 1)) i = 0 := by
        intro i inside
        rw [clear_write inside]
        split
        · exact zeros (ofs + i) (by omega) (by omega)
        · rfl
      unfold uaLeftFrom
      dsimp only
      rw [if_neg (not_not.mpr (copied 0 some))]
      exact induction (by omega) (by omega)
        (fun j low high => zeros j (by omega) high) fun _ => copied

/-! ## The way there and back -/

variable {ua other left address : Memory} {caid : UInt16} {place : Nat}

/-- A byte of the serial number in the order of newcamd. -/
def serialByte (ua : Memory) (caid : UInt16) (i : Nat) : UInt8 :=
  (hexserialToNewcamd ua caid).getD i 0

/-- The bytes that a serial number has in the format of OSCam. -/
def serialLength (caid : UInt16) : Nat :=
  if betaIrdeto caid then 4
  else if caid.toNat / 256 = 0x05 ∨ caid.toNat / 256 = 0x0D then 5
  else 6

theorem newcamdSerial_front (ua : Memory) (caid : UInt16) (front : i < 2) :
    newcamdSerial ua caid i = 0 :=
  Memory.write_of_lt front

theorem newcamdSerial_byte (ua : Memory) (caid : UInt16) (i : Nat) :
    newcamdSerial ua caid (2 + i) = serialByte ua caid i := by
  have length := length_hexserialToNewcamd ua caid
  by_cases inside : i < 6
  · exact Memory.write_inside (by omega)
  · have past : serialByte ua caid i = 0 :=
      List.getD_eq_default _ _ (by omega)
    rw [past]
    exact Memory.write_of_le (by omega)

theorem getUaOfs_le (caid : UInt16) : getUaOfs caid ≤ 2 := by
  unfold getUaOfs
  split <;> omega

theorem leftSerial_inside (inside : i < 8) :
    leftSerial address caid i =
      if i < getUaOfs caid then 0
      else uaLeft address (Memory.zero.shift (getUaOfs caid))
        (8 - getUaOfs caid) (i - getUaOfs caid) := by
  unfold leftSerial
  rw [Memory.write_read_apply]
  by_cases front : i < getUaOfs caid
  · rw [if_neg (by omega), if_pos front]
    rfl
  · rw [if_pos (by omega), if_neg front, Nat.zero_add]

/-- The address moves left as far as it begins with zeros. -/
theorem leftSerial_of_ne (before : ∀ j < place, address j = 0)
    (found : address place ≠ 0) (few : place < 8) (inside : i < 8) :
    leftSerial address caid i =
      if i < getUaOfs caid then 0
      else if place + (i - getUaOfs caid) < 8 then
        address (place + (i - getUaOfs caid))
      else 0 := by
  have small := getUaOfs_le caid
  rw [leftSerial_inside inside]
  by_cases front : i < getUaOfs caid
  · rw [if_pos front, if_pos front]
  · rw [if_neg front, if_neg front]
    exact uaLeftFrom_of_ne (by omega) (by omega) (by omega) (Nat.zero_le _)
      few (fun j _ low => before j low) found (by omega)

theorem leftSerial_zero (zeros : ∀ j < 8, address j = 0) (inside : i < 8) :
    leftSerial address caid i = 0 := by
  have small := getUaOfs_le caid
  rw [leftSerial_inside inside]
  by_cases front : i < getUaOfs caid
  · exact if_pos front
  · rw [if_neg front]
    refine uaLeftFrom_zero (by omega) (by omega) (by omega)
      (fun j _ high => zeros j high) ?_ (by omega)
    intro never
    omega

/-! ### The format of OSCam -/

/-- The place that a byte of the serial number has in the order of newcamd. -/
def serialPlace (caid : UInt16) (i : Nat) : Nat :=
  if betaIrdeto caid then if i = 3 then 2 else 3 + i
  else if caid.toNat / 256 = 0x05 ∨ caid.toNat / 256 = 0x0D then 1 + i
  else i

theorem betaIrdeto_iff (caid : UInt16) :
    betaIrdeto caid = true ↔
      caid.toNat / 256 = 0x17 ∨ caid.toNat / 256 = 0x06 := by
  unfold betaIrdeto
  rw [Bool.or_eq_true, beq_iff_eq, beq_iff_eq]

theorem newcamdToHexserial_inside (left out : Memory) (caid : UInt16)
    (inside : i < 8) :
    newcamdToHexserial left (out.clear 8) caid.toNat i =
      if i < serialLength caid then left (serialPlace caid i) else 0 := by
  unfold newcamdToHexserial serialLength serialPlace
  simp only [← betaIrdeto_iff]
  by_cases irdeto : betaIrdeto caid = true
  · simp only [if_pos irdeto]
    interval_cases i <;> rfl
  · simp only [if_neg irdeto]
    by_cases five : caid.toNat / 256 = 0x05 ∨ caid.toNat / 256 = 0x0D
    · simp only [if_pos five]
      interval_cases i <;> rfl
    · simp only [if_neg five]
      interval_cases i <;> rfl

theorem serialPlace_lt (inside : i < serialLength caid) :
    serialPlace caid i < 6 := by
  unfold serialLength at inside
  unfold serialPlace
  split_ifs at inside ⊢ <;> omega

theorem serialByte_place (inside : i < serialLength caid) :
    serialByte ua caid (serialPlace caid i) = ua i := by
  unfold serialLength at inside
  unfold serialByte serialPlace hexserialToNewcamd
  by_cases irdeto : betaIrdeto caid = true
  · simp only [if_pos irdeto] at inside ⊢
    interval_cases i <;> rfl
  · simp only [if_neg irdeto] at inside ⊢
    by_cases five : caid.toNat / 256 = 0x05 ∨ caid.toNat / 256 = 0x0D
    · simp only [if_pos five] at inside ⊢
      rw [Nat.add_comm, List.getD_cons_succ, Memory.getD_read _ _ inside,
        Nat.zero_add]
    · simp only [if_neg five] at inside ⊢
      rw [Memory.getD_read _ _ inside, Nat.zero_add]

/-- The other bytes in the order of newcamd are zeros before the offset. -/
theorem serialPlace_onto (ua : Memory) (caid : UInt16) (inside : i < 6) :
    i < getUaOfs caid ∧ serialByte ua caid i = 0 ∨
      ∃ l < serialLength caid, serialPlace caid l = i := by
  unfold serialLength serialByte serialPlace hexserialToNewcamd
  by_cases irdeto : betaIrdeto caid = true
  · simp only [if_pos irdeto]
    have two : getUaOfs caid = 2 := by
      rcases (betaIrdeto_iff caid).mp irdeto with beta | irdeto
      · simp [getUaOfs, beta]
      · simp [getUaOfs, irdeto]
    by_cases front : i < 2
    · left
      refine ⟨by omega, ?_⟩
      interval_cases i <;> rfl
    · right
      by_cases base : i = 2
      · exact ⟨3, by omega, by rw [if_pos rfl, base]⟩
      · exact ⟨i - 3, by omega, by split <;> omega⟩
  · simp only [if_neg irdeto]
    by_cases five : caid.toNat / 256 = 0x05 ∨ caid.toNat / 256 = 0x0D
    · simp only [if_pos five]
      have one : getUaOfs caid = 1 := by
        rcases five with viaccess | cryptoworks
        · simp [getUaOfs, viaccess]
        · simp [getUaOfs, cryptoworks]
      by_cases front : i = 0
      · subst front
        exact .inl ⟨by omega, rfl⟩
      · exact .inr ⟨i - 1, by omega, by omega⟩
    · simp only [if_neg five]
      exact .inr ⟨i, inside, rfl⟩

/-- The serial number comes back as the bytes that were moved left. -/
theorem hexserial_eq_iff (front : ∀ i < getUaOfs caid, left i = 0) :
    (newcamdToHexserial left (out.clear 8) caid.toNat).read 0 8 =
        ua.read 0 8 ↔
      (∀ i, serialLength caid ≤ i → i < 8 → ua i = 0) ∧
        ∀ i < 6, left i = serialByte ua caid i := by
  have short : serialLength caid ≤ 6 := by
    unfold serialLength
    split_ifs <;> omega
  constructor
  · intro same
    have bytes : ∀ i < 8, ua i =
        if i < serialLength caid then left (serialPlace caid i) else 0 := by
      intro i inside
      have byte := Memory.apply_of_read same inside
      rw [Nat.zero_add] at byte
      rw [← byte, newcamdToHexserial_inside left out caid inside]
    constructor
    · intro i low inside
      rw [bytes i inside, if_neg (by omega)]
    · intro i inside
      rcases serialPlace_onto ua caid inside with ⟨before, zero⟩ |
        ⟨l, low, rfl⟩
      · rw [front i before, zero]
      · rw [serialByte_place low, bytes l (by omega), if_pos low]
  · rintro ⟨behind, same⟩
    apply Memory.read_of_apply
    intro i inside
    rw [Nat.zero_add, newcamdToHexserial_inside left out caid inside]
    by_cases low : i < serialLength caid
    · rw [if_pos low, same _ (serialPlace_lt low), serialByte_place low]
    · rw [if_neg low, behind i (by omega) inside]

/-! ### What comes back -/

/-- There is one first byte that is not zero. -/
theorem first_eq {bytes : Nat → UInt8} {first : Nat}
    (least : ∀ i < first, bytes i = 0) (nonzero : bytes first ≠ 0)
    (before : ∀ i < place, bytes i = 0) (there : bytes place ≠ 0) :
    first = place := by
  rcases Nat.lt_trichotomy first place with less | same | more
  · exact absurd (before first less) nonzero
  · exact same
  · exact absurd (least place more) there

/-- The serial number stands in the address, `k` places further right. -/
def MovedBy (address ua : Memory) (caid : UInt16) (k : Nat) : Prop :=
  ∀ i < 8, address i =
    if i < 2 + k then 0 else serialByte ua caid (i - (2 + k))

theorem shifted_newcamdSerial (ua : Memory) (caid : UInt16) (k i : Nat) :
    shifted (newcamdSerial ua caid) k i =
      if i < 2 + k then 0 else serialByte ua caid (i - (2 + k)) := by
  unfold shifted
  by_cases moved : i < k
  · rw [if_pos moved, if_pos (by omega)]
  · rw [if_neg moved]
    by_cases front : i < 2 + k
    · rw [if_pos front, newcamdSerial_front ua caid (by omega)]
    · have split : i - k = 2 + (i - (2 + k)) := by omega
      rw [if_neg front, split, newcamdSerial_byte]

theorem movedBy_of_tested (few : k < 8)
    (before : ∀ j < k, tested (newcamdSerial ua caid) j = 0)
    (found : tested (newcamdSerial ua caid) k ≠ 0) :
    MovedBy (uaOscam2cccam ua out caid) ua caid k := by
  intro i inside
  rw [← shifted_newcamdSerial]
  exact uaRight_of_tested (newcamdSerial_front ua caid (by omega))
    (by intro i never; omega) rfl (Nat.zero_le k) few
    (fun j _ low => before j low) found inside

/-- From its first byte that is not zero, the serial number moves back to the
offset of its card system. -/
theorem MovedBy.leftSerial {first : Nat} (moved : MovedBy address ua caid k)
    (least : ∀ i < first, serialByte ua caid i = 0)
    (nonzero : serialByte ua caid first ≠ 0) (low : 2 + k + first < 8)
    (inside : i < 8) :
    leftSerial address caid i =
      if i < getUaOfs caid then 0
      else if 2 + k + first + (i - getUaOfs caid) < 8 then
        serialByte ua caid (first + (i - getUaOfs caid))
      else 0 := by
  have begins : ∀ j < 2 + k + first, address j = 0 := by
    intro j before
    rw [moved j (by omega)]
    split
    · rfl
    · exact least _ (by omega)
  have starts : address (2 + k + first) ≠ 0 := by
    rwa [moved _ low, if_neg (by omega), Nat.add_sub_cancel_left]
  rw [leftSerial_of_ne begins starts low inside]
  split
  · rfl
  · split
    · next copied =>
      have place : 2 + k + first + (i - getUaOfs caid) - (2 + k) =
          first + (i - getUaOfs caid) := by omega
      rw [moved _ copied, if_neg (by omega), place]
    · rfl

/-- A serial number that is moved by `k` places comes back if its bytes before
the offset of its card system are zero, the byte there is not, and it has only
zeros behind what is left of it. -/
theorem leftSerial_eq_iff (few : k ≤ 2)
    (before : ∀ j < k, tested (newcamdSerial ua caid) j = 0)
    (found : tested (newcamdSerial ua caid) k ≠ 0) :
    (∀ i < 6, leftSerial (uaOscam2cccam ua out caid) caid i =
        serialByte ua caid i) ↔
      (∀ i < getUaOfs caid, serialByte ua caid i = 0) ∧
        serialByte ua caid (getUaOfs caid) ≠ 0 ∧
        ∀ i, 6 - k ≤ i → i < 6 → serialByte ua caid i = 0 := by
  have small := getUaOfs_le caid
  have moved : MovedBy (uaOscam2cccam ua out caid) ua caid k :=
    movedBy_of_tested (by omega) before found
  rw [tested, shifted_newcamdSerial, if_neg (by omega)] at found
  -- the first byte that is not zero
  have some : ∃ i, serialByte ua caid i ≠ 0 := ⟨_, found⟩
  obtain ⟨first, nonzero, least⟩ : ∃ first, serialByte ua caid first ≠ 0 ∧
      ∀ i < first, serialByte ua caid i = 0 :=
    ⟨Nat.find some, Nat.find_spec some, fun i low =>
      not_not.mp (Nat.find_min some low)⟩
  have low : first ≤ 7 - k - (2 + k) := by
    by_contra high
    exact found (least _ (by omega))
  have back (i : Nat) (inside : i < 6) :=
    moved.leftSerial (i := i) least nonzero (by omega) (by omega)
  constructor
  · intro same
    have before : ∀ i < getUaOfs caid, serialByte ua caid i = 0 := by
      intro i inside
      rw [← same i (by omega), back i (by omega), if_pos inside]
    have there : serialByte ua caid (getUaOfs caid) ≠ 0 := by
      rw [← same _ (by omega), back _ (by omega), if_neg (lt_irrefl _),
        Nat.sub_self, if_pos (by omega)]
      exact nonzero
    have place := first_eq least nonzero before there
    refine ⟨before, there, ?_⟩
    intro i low inside
    rw [← same i inside, back i inside, if_neg (by omega), if_neg (by omega)]
  · rintro ⟨before, there, behind⟩ i inside
    have place := first_eq least nonzero before there
    rw [back i inside]
    by_cases front : i < getUaOfs caid
    · rw [if_pos front, before i front]
    · have sum : first + (i - getUaOfs caid) = i := by omega
      rw [if_neg front, Nat.add_assoc, sum]
      split
      · rfl
      · exact (behind i (by omega) inside).symm

/-- The bytes on which the moves are tested. -/
theorem tested_zero (ua : Memory) (caid : UInt16) :
    tested (newcamdSerial ua caid) 0 = serialByte ua caid 5 :=
  newcamdSerial_byte ua caid 5

theorem tested_one (ua : Memory) (caid : UInt16) :
    tested (newcamdSerial ua caid) 1 = serialByte ua caid 3 :=
  newcamdSerial_byte ua caid 3

theorem tested_two (ua : Memory) (caid : UInt16) :
    tested (newcamdSerial ua caid) 2 = serialByte ua caid 1 :=
  newcamdSerial_byte ua caid 1

theorem tested_more (ua : Memory) (caid : UInt16) (more : 3 ≤ k) :
    tested (newcamdSerial ua caid) k = 0 := by
  unfold tested shifted
  split
  · rfl
  · exact newcamdSerial_front ua caid (by omega)

/-- A serial number whose tested bytes are zero is lost. -/
theorem leftSerial_lost (last : serialByte ua caid 5 = 0)
    (inner : serialByte ua caid 3 = 0) (front : serialByte ua caid 1 = 0)
    (inside : i < 8) :
    leftSerial (uaOscam2cccam ua out caid) caid i = 0 := by
  have zeros : ∀ j, 0 ≤ j → j < 8 →
      tested (newcamdSerial ua caid) j = 0 := by
    intro j _ _
    match j with
    | 0 => rw [tested_zero, last]
    | 1 => rw [tested_one, inner]
    | 2 => rw [tested_two, front]
    | j + 3 => exact tested_more ua caid (Nat.le_add_left 3 j)
  refine leftSerial_zero (fun j inside => ?_) inside
  exact uaRight_zero (newcamdSerial_front ua caid (by omega))
    (by intro i never; omega) rfl zeros inside

/-- `UA_right` and `UA_left` keep the serial number: it begins at the offset
of its card system, and one of three bytes keeps what stands behind it. -/
def Kept (ua : Memory) (caid : UInt16) : Prop :=
  (∀ i < 6, serialByte ua caid i = 0) ∨
    (∀ i < getUaOfs caid, serialByte ua caid i = 0) ∧
      serialByte ua caid (getUaOfs caid) ≠ 0 ∧
      (serialByte ua caid 5 ≠ 0 ∨ serialByte ua caid 3 ≠ 0 ∨
        serialByte ua caid 1 ≠ 0 ∧ serialByte ua caid 4 = 0)

/-- A serial number that is moved is not all zeros. -/
theorem kept_of_ne (inside : i < 6) (some : serialByte ua caid i ≠ 0) :
    Kept ua caid ↔
      (∀ i < getUaOfs caid, serialByte ua caid i = 0) ∧
        serialByte ua caid (getUaOfs caid) ≠ 0 ∧
        (serialByte ua caid 5 ≠ 0 ∨ serialByte ua caid 3 ≠ 0 ∨
          serialByte ua caid 1 ≠ 0 ∧ serialByte ua caid 4 = 0) :=
  or_iff_right fun zeros => some (zeros i inside)

theorem leftSerial_iff_kept (ua out : Memory) (caid : UInt16) :
    (∀ i < 6, leftSerial (uaOscam2cccam ua out caid) caid i =
        serialByte ua caid i) ↔ Kept ua caid := by
  by_cases last : serialByte ua caid 5 = 0
  · have zero : tested (newcamdSerial ua caid) 0 = 0 := by
      rw [tested_zero, last]
    by_cases inner : serialByte ua caid 3 = 0
    · have one : tested (newcamdSerial ua caid) 1 = 0 := by
        rw [tested_one, inner]
      by_cases front : serialByte ua caid 1 = 0
      · have lost : (∀ i < 6, leftSerial (uaOscam2cccam ua out caid) caid i =
            serialByte ua caid i) ↔ ∀ i < 6, serialByte ua caid i = 0 := by
          refine forall₂_congr fun i inside => ?_
          rw [leftSerial_lost last inner front (by omega), eq_comm]
        rw [lost, Kept]
        tauto
      · rw [kept_of_ne (by omega) front, leftSerial_eq_iff (k := 2) (by omega)
          (by intro j low; interval_cases j <;> assumption)
          (by rwa [tested_two])]
        refine and_congr_right fun _ => and_congr_right fun _ => ?_
        constructor
        · intro behind
          exact .inr (.inr ⟨front, behind 4 (by omega) (by omega)⟩)
        · rintro (five | three | ⟨_, four⟩) i low inside
          · exact absurd last five
          · exact absurd inner three
          · obtain rfl | rfl : i = 4 ∨ i = 5 := by omega
            · exact four
            · exact last
    · rw [kept_of_ne (by omega) inner, leftSerial_eq_iff (k := 1) (by omega)
        (by intro j low; interval_cases j; exact zero) (by rwa [tested_one])]
      refine and_congr_right fun _ => and_congr_right fun _ => ?_
      constructor
      · intro _behind
        exact .inr (.inl inner)
      · intro _tests i low inside
        obtain rfl : i = 5 := by omega
        exact last
  · rw [kept_of_ne (by omega) last, leftSerial_eq_iff (k := 0) (by omega)
      (by intro j never; omega) (by rwa [tested_zero])]
    refine and_congr_right fun _ => and_congr_right fun _ => ?_
    constructor
    · intro _behind
      exact .inl last
    · intro _tests i low inside
      omega

/-- The serial number of a card comes back from CCcam if and only if it ends
where its card system says and the moves keep it. -/
theorem serial_comes_back_iff (ua out other : Memory) (caid : UInt16) :
    (uaCccam2oscam (uaOscam2cccam ua out caid) other caid).read 0 8 =
        ua.read 0 8 ↔
      (∀ i, serialLength caid ≤ i → i < 8 → ua i = 0) ∧ Kept ua caid := by
  have front : ∀ i < getUaOfs caid,
      leftSerial (uaOscam2cccam ua out caid) caid i = 0 :=
    fun _i before => Memory.write_of_lt before
  rw [uaCccam2oscam, hexserial_eq_iff front, leftSerial_iff_kept]

/-- The serial number 01 02 03 00 05 00 of a card, where the fifth byte has
zeros around it. -/
def zerosAround : Memory := Memory.zero.write 0 [1, 2, 3, 0, 5]

/-- It comes back as 01 02 03 00 00 00. -/
theorem serial_lost :
    (∀ i, serialLength 0x0100 ≤ i → i < 8 → zerosAround i = 0) ∧
      serialByte zerosAround 0x0100 0 ≠ 0 ∧
      (uaCccam2oscam (uaOscam2cccam zerosAround Memory.zero 0x0100)
        Memory.zero 0x0100).read 0 8 = [1, 2, 3, 0, 0, 0, 0, 0] ∧
      zerosAround.read 0 8 = [1, 2, 3, 0, 5, 0, 0, 0] := by
  refine ⟨?_, ?_, ?_, ?_⟩
  · intro i low high
    have six : serialLength 0x0100 = 6 := rfl
    rw [six] at low
    interval_cases i <;> rfl
  · decide
  · decide
  · decide

end Oscam.Cccam
