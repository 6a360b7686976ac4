import Oscam.Lib.Memory
import Oscam.Lib.Rotation
import Oscam.Lib.Undo

/-!
# The packet cipher of gbox

`gbox_encrypt` and `gbox_decrypt` work in place on a packet, with a key of four
bytes that is rotated by one bit in every step.
-/

namespace Oscam.Gbox

def sbox : List UInt8 :=
  [0x25, 0x38, 0xd4, 0xcd, 0x17, 0x7a, 0x5e, 0x6c,
   0x52, 0x42, 0xfe, 0x68, 0xab, 0x3f, 0xf7, 0xbe,
   0x47, 0x57, 0x71, 0xb0, 0x23, 0xc1, 0x26, 0x6c,
   0x41, 0xce, 0x94, 0x37, 0x45, 0x04, 0xa2, 0xea,
   0x07, 0x58, 0x35, 0x55, 0x08, 0x2a, 0x0f, 0xe7,
   0xac, 0x76, 0xf0, 0xc1, 0xe6, 0x09, 0x10, 0xdd,
   0xc5, 0x8d, 0x2e, 0xd9, 0x03, 0x9c, 0x3d, 0x2c,
   0x4d, 0x41, 0x0c, 0x5e, 0xde, 0xe4, 0x90, 0xae]

/-- An entry of the table, by the low six bits. -/
def sboxAt (index : UInt8) : UInt8 := sbox.getD (index &&& 0x3f).toNat 0

/-! ## The key -/

/-- The index of a key byte wraps at 4. -/
abbrev Key := Fin 4 → UInt8

local instance neZeroKey : NeZero 4 := ⟨by decide⟩

namespace Key

/-- The rotation in the steps of the encryption. -/
def rotateRight (key : Key) : Key := fun j =>
  (key (j - 1) <<< 7) + (key j >>> 1)

/-- The rotation in the steps of the decryption. -/
def rotateLeft (key : Key) : Key := fun j =>
  ((key (j + 1) &&& 0x80) >>> 7) + key j * 2

variable (key : Key) (j : Fin 4)

theorem toNat_rotateRight : (key.rotateRight j).toNat =
    (key (j - 1)).toNat % 2 * 128 + (key j).toNat / 2 := by
  have front := (key (j - 1)).toNat_lt
  have byte := (key j).toNat_lt
  simp only [rotateRight, UInt8.toNat_add, UInt8.toNat_shiftLeft,
    UInt8.toNat_shiftRight, Nat.shiftLeft_eq, Nat.shiftRight_eq_div_pow,
    UInt8.reduceToNat, Nat.reduceMod, Nat.reducePow]
  omega

theorem toNat_highBit (byte : UInt8) :
    ((byte &&& 0x80) >>> 7).toNat = byte.toNat / 128 := by
  have below := byte.toNat_lt
  rw [UInt8.toNat_shiftRight, UInt8.toNat_and]
  show (byte.toNat &&& 128) >>> 7 = byte.toNat / 128
  rw [Nat.shiftRight_and_distrib, Nat.shiftRight_eq_div_pow]
  show byte.toNat / 128 &&& 1 = byte.toNat / 128
  rw [Nat.and_one_is_mod]
  omega

theorem toNat_rotateLeft : (key.rotateLeft j).toNat =
    (key (j + 1)).toNat / 128 + (key j).toNat % 128 * 2 := by
  have behind := (key (j + 1)).toNat_lt
  have byte := (key j).toNat_lt
  rw [rotateLeft, UInt8.toNat_add, UInt8.toNat_mul, toNat_highBit]
  show ((key (j + 1)).toNat / 128 + (key j).toNat * 2 % 256) % 256 = _
  omega

@[simp] theorem rotateLeft_rotateRight :
    key.rotateRight.rotateLeft = key := by
  funext j
  apply UInt8.toNat_inj.mp
  have around : j + 1 - 1 = j := by decide +revert
  have byte := (key j).toNat_lt
  have behind := (key (j + 1)).toNat_lt
  rw [toNat_rotateLeft, toNat_rotateRight, toNat_rotateRight, around]
  omega

@[simp] theorem rotateRight_rotateLeft :
    key.rotateLeft.rotateRight = key := by
  funext j
  apply UInt8.toNat_inj.mp
  have around : j - 1 + 1 = j := by decide +revert
  have byte := (key j).toNat_lt
  have front := (key (j - 1)).toNat_lt
  have behind := (key (j + 1)).toNat_lt
  rw [toNat_rotateRight, toNat_rotateLeft, toNat_rotateLeft, around]
  omega

/-- The key as a number of 32 bits. -/
def value : Nat :=
  (key 0).toNat * 2 ^ 24 + (key 1).toNat * 2 ^ 16 + (key 2).toNat * 2 ^ 8 +
    (key 3).toNat

theorem value_lt : key.value < 2 ^ 32 := by
  have first := (key 0).toNat_lt
  have second := (key 1).toNat_lt
  have third := (key 2).toNat_lt
  have fourth := (key 3).toNat_lt
  unfold value
  omega

variable {key} in
theorem eq_of_value {other : Key} (same : key.value = other.value) :
    key = other := by
  have bounds (j : Fin 4) := (key j).toNat_lt
  have otherBounds (j : Fin 4) := (other j).toNat_lt
  have first := bounds 0
  have second := bounds 1
  have third := bounds 2
  have fourth := bounds 3
  have first' := otherBounds 0
  have second' := otherBounds 1
  have third' := otherBounds 2
  have fourth' := otherBounds 3
  unfold value at same
  funext j
  apply UInt8.toNat_inj.mp
  match j with
  | 0 => omega
  | 1 => omega
  | 2 => omega
  | 3 => omega

theorem value_rotateRight : key.rotateRight.value =
    key.value / 2 + key.value % 2 * 2 ^ 31 := by
  have first := key.toNat_rotateRight 0
  have second := key.toNat_rotateRight 1
  have third := key.toNat_rotateRight 2
  have fourth := key.toNat_rotateRight 3
  simp only [Fin.reduceSub] at first second third fourth
  unfold value
  rw [first, second, third, fourth]
  omega

/-- A whole turn. -/
theorem rotateRight_iterate_32 : rotateRight^[32] key = key :=
  Rotation.iterate_self (fun _ _ => eq_of_value) value_lt value_rotateRight key

end Key

/-! ## The stages -/

/-- A buffer with the working copy `tmp_key`. -/
@[ext] structure Cipher where
  buf : Memory
  key : Key

/-- What a step does with a byte, under the two key bytes and the byte in front
of it. -/
abbrev Change := UInt8 → UInt8 → UInt8 → UInt8 → UInt8

/-- A step of the encryption: the key is rotated, then the byte behind the
`i`th of the eight bytes from `off` on is changed. -/
def encryptStep (change : Change) (off i : Nat) (s : Cipher) : Cipher :=
  let key := s.key.rotateRight
  let place := off + (i + 1) % 8
  { buf := s.buf.write place
      [change (key (Fin.ofNat 4 i)) (key (Fin.ofNat 4 (i + 1)))
        (s.buf (off + i % 8)) (s.buf place)]
    key := key }

/-- A step of the decryption: the rotation comes last. -/
def decryptStep (change : Change) (off i : Nat) (s : Cipher) : Cipher :=
  let place := off + (i + 1) % 8
  { buf := s.buf.write place
      [change (s.key (Fin.ofNat 4 i)) (s.key (Fin.ofNat 4 (i + 1)))
        (s.buf (off + i % 8)) (s.buf place)]
    key := s.key.rotateLeft }

def encryptChange1 : Change := fun key next source byte =>
  let byte := byte + sboxAt ((next ^^^ source) >>> 2) * 2
  let byte := byte ^^^ sboxAt (source - next)
  byte + key

def decryptChange1 : Change := fun key next source byte =>
  let byte := byte - key
  let byte := byte ^^^ sboxAt (source - next)
  byte - sboxAt ((next ^^^ source) >>> 2) * 2

def encryptChange2 : Change := fun key next source byte =>
  let byte := byte - sboxAt (source >>> 2)
  let byte := byte ^^^ sboxAt (source - next)
  byte - key

def decryptChange2 : Change := fun key next source byte =>
  let byte := byte + key
  let byte := byte ^^^ sboxAt (source - next)
  byte + sboxAt (source >>> 2)

/-- `gbox_encrypt_stage1`. -/
def encryptStage1 : Cipher → Cipher :=
  Undo.run (encryptStep encryptChange1 0) (List.range 32).reverse

/-- `gbox_encrypt_stage2` on the buffer from `off` on. -/
def encryptStage2 (off : Nat) : Cipher → Cipher :=
  Undo.run
    (fun _ => Undo.run (encryptStep encryptChange2 off) (List.range 8).reverse)
    (List.range 4)

/-- `gbox_decrypt_stage1`. -/
def decryptStage1 : Cipher → Cipher :=
  Undo.run (decryptStep decryptChange1 0) (List.range 32)

/-- `gbox_decrypt_stage2` on the buffer from `off` on. -/
def decryptStage2 (off : Nat) : Cipher → Cipher :=
  Undo.run
    (fun _ => Undo.run (decryptStep decryptChange2 off) (List.range 8))
    (List.range 4).reverse

/-- A byte is mixed with the one behind it. -/
def mixNext (i : Nat) (s : Cipher) : Cipher :=
  { s with buf := s.buf.write i [s.buf i ^^^ s.buf (i + 1)] }

/-- `gbox_encrypt` of a packet of `l` bytes. -/
def encrypt (buf : Memory) (l : Nat) (key : Key) : Memory :=
  let s := encryptStage1 { buf := buf, key := key }
  let s := Undo.run mixNext (List.range (l - 2)) s
  let s := encryptStage2 0 s
  (decryptStage2 (l - 9) s).buf

/-- `gbox_decrypt` of a packet of `l` bytes. -/
def decrypt (buf : Memory) (l : Nat) (key : Key) : Memory :=
  let s := encryptStage2 (l - 9) { buf := buf, key := key }
  let s := decryptStage2 0 s
  let s := Undo.run mixNext (List.range (l - 1)).reverse s
  (decryptStage1 s).buf

/-! ## Steps undone -/

/-- One change undoes another one under the same key bytes. -/
def Undoes (back change : Change) : Prop :=
  ∀ key next source byte, back key next source (change key next source byte) =
    byte

theorem add_sub_byte (byte other : UInt8) : byte + other - other = byte := by
  rw [UInt8.sub_eq_add_neg, UInt8.add_assoc, UInt8.add_right_neg,
    UInt8.add_zero]

theorem sub_add_byte (byte other : UInt8) : byte - other + other = byte := by
  rw [UInt8.sub_eq_add_neg, UInt8.add_assoc, UInt8.add_left_neg,
    UInt8.add_zero]

theorem xor_xor_byte (byte other : UInt8) : byte ^^^ other ^^^ other = byte := by
  rw [UInt8.xor_assoc, UInt8.xor_self, UInt8.xor_zero]

theorem decryptChange1_undoes : Undoes decryptChange1 encryptChange1 := by
  intro key next source byte
  simp only [decryptChange1, encryptChange1, add_sub_byte, xor_xor_byte]

theorem encryptChange1_undoes : Undoes encryptChange1 decryptChange1 := by
  intro key next source byte
  simp only [decryptChange1, encryptChange1, sub_add_byte, xor_xor_byte]

theorem decryptChange2_undoes : Undoes decryptChange2 encryptChange2 := by
  intro key next source byte
  simp only [decryptChange2, encryptChange2, sub_add_byte, xor_xor_byte]

theorem encryptChange2_undoes : Undoes encryptChange2 decryptChange2 := by
  intro key next source byte
  simp only [decryptChange2, encryptChange2, add_sub_byte, xor_xor_byte]

/-- A byte is changed and changed back; the byte in front of it is another
one. -/
theorem write_change {back change : Change} (undoes : Undoes back change)
    (buf : Memory) (key next : UInt8) {source place : Nat}
    (apart : source ≠ place) :
    let changed := buf.write place
      [change key next (buf source) (buf place)]
    changed.write place [back key next (changed source) (changed place)] =
      buf := by
  intro changed
  have front : changed source = buf source := by
    rcases Nat.lt_or_gt_of_ne apart with lower | upper
    · exact Memory.write_of_lt lower
    · exact Memory.write_of_le upper
  have byte : changed place = change key next (buf source) (buf place) :=
    Memory.write_head buf place _ []
  have twice : changed.write place [buf place] =
      buf.write place [buf place] := Memory.write_again buf place rfl
  rw [front, byte, undoes, twice]
  exact Memory.write_read buf place 1

variable {back change : Change}

theorem source_ne_place (off i : Nat) : off + i % 8 ≠ off + (i + 1) % 8 := by
  omega

theorem decryptStep_encryptStep (undoes : Undoes back change)
    (off i : Nat) (s : Cipher) :
    decryptStep back off i (encryptStep change off i s) = s := by
  have restored := write_change undoes s.buf
    (s.key.rotateRight (Fin.ofNat 4 i))
    (s.key.rotateRight (Fin.ofNat 4 (i + 1))) (source_ne_place off i)
  unfold encryptStep decryptStep
  simp only [Key.rotateLeft_rotateRight]
  exact congrArg (Cipher.mk · s.key) restored

theorem encryptStep_decryptStep (undoes : Undoes change back)
    (off i : Nat) (s : Cipher) :
    encryptStep change off i (decryptStep back off i s) = s := by
  have restored := write_change undoes s.buf
    (s.key (Fin.ofNat 4 i)) (s.key (Fin.ofNat 4 (i + 1)))
    (source_ne_place off i)
  unfold encryptStep decryptStep
  simp only [Key.rotateRight_rotateLeft]
  exact congrArg (Cipher.mk · s.key) restored

/-- The mixing of a byte is its own inverse. -/
theorem mixNext_mixNext (i : Nat) (s : Cipher) :
    mixNext i (mixNext i s) = s := by
  have undoes : Undoes (fun _ _ source byte => byte ^^^ source)
      (fun _ _ source byte => byte ^^^ source) :=
    fun _ _ source byte => xor_xor_byte byte source
  have restored := write_change undoes s.buf 0 0 (Nat.succ_ne_self i)
  exact congrArg (Cipher.mk · s.key) restored

/-- Mixing in a zero, and nothing else, leaves a byte as it is. -/
theorem mixNext_eq_self_iff (i : Nat) (s : Cipher) :
    mixNext i s = s ↔ s.buf (i + 1) = 0 := by
  constructor
  · intro same
    have byte : (mixNext i s).buf i = s.buf i ^^^ s.buf (i + 1) :=
      Memory.write_head s.buf i _ []
    rw [same] at byte
    rw [← UInt8.xor_right_inj (s.buf i), ← byte, UInt8.xor_zero]
  · intro zero
    apply Cipher.ext
    · show s.buf.write i [s.buf i ^^^ s.buf (i + 1)] = s.buf
      rw [zero, UInt8.xor_zero]
      exact Memory.write_read s.buf i 1
    · rfl

/-! ## Stages undone -/

theorem decryptStage1_encryptStage1 (s : Cipher) :
    decryptStage1 (encryptStage1 s) = s :=
  Undo.run_run_reverse
    (fun i _ => decryptStep_encryptStep decryptChange1_undoes 0 i) s

theorem encryptStage1_decryptStage1 (s : Cipher) :
    encryptStage1 (decryptStage1 s) = s :=
  Undo.run_reverse_run
    (fun i _ => encryptStep_decryptStep encryptChange1_undoes 0 i) s

theorem decryptStage2_encryptStage2 (off : Nat) (s : Cipher) :
    decryptStage2 off (encryptStage2 off s) = s :=
  Undo.run_reverse_run
    (fun _ _ => Undo.run_run_reverse
      fun j _ => decryptStep_encryptStep decryptChange2_undoes off j) s

theorem encryptStage2_decryptStage2 (off : Nat) (s : Cipher) :
    encryptStage2 off (decryptStage2 off s) = s :=
  Undo.run_run_reverse
    (fun _ _ => Undo.run_reverse_run
      fun j _ => encryptStep_decryptStep encryptChange2_undoes off j) s

/-! ### The key comes back -/

theorem key_encryptStage1 (s : Cipher) : (encryptStage1 s).key = s.key := by
  have turned : (encryptStage1 s).key = Key.rotateRight^[32] s.key :=
    Undo.view_run_iterate Cipher.key (fun _ _ => rfl) s
  rw [turned, Key.rotateRight_iterate_32]

theorem key_encryptStage2 (off : Nat) (s : Cipher) :
    (encryptStage2 off s).key = s.key := by
  have turned : (encryptStage2 off s).key =
      (Key.rotateRight^[8])^[4] s.key :=
    Undo.view_run_iterate Cipher.key
      (fun _ => Undo.view_run_iterate Cipher.key fun _ _ => rfl) s
  rw [turned, ← Function.iterate_mul, Key.rotateRight_iterate_32]

theorem key_decryptStage1 (s : Cipher) : (decryptStage1 s).key = s.key := by
  rw [← key_encryptStage1, encryptStage1_decryptStage1]

theorem key_decryptStage2 (off : Nat) (s : Cipher) :
    (decryptStage2 off s).key = s.key := by
  rw [← key_encryptStage2 off, encryptStage2_decryptStage2]

theorem key_mix (indices : List Nat) (s : Cipher) :
    (Undo.run mixNext indices s).key = s.key := by
  have kept (i : Nat) (_ : i ∈ indices) (s : Cipher) :
      (mixNext i s).key = s.key := rfl
  exact Undo.view_run Cipher.key kept s

/-! ### Bytes that a stage does not reach -/

theorem buf_encryptStage1 {i : Nat} (behind : 8 ≤ i) (s : Cipher) :
    (encryptStage1 s).buf i = s.buf i := by
  have kept (j : Nat) (_ : j ∈ (List.range 32).reverse) (s : Cipher) :
      (encryptStep encryptChange1 0 j s).buf i = s.buf i :=
    Memory.write_of_le (by
      show 0 + (j + 1) % 8 + 1 ≤ i
      omega)
  exact Undo.view_run (fun s => s.buf i) kept s

theorem buf_decryptStage1 {i : Nat} (behind : 8 ≤ i) (s : Cipher) :
    (decryptStage1 s).buf i = s.buf i := by
  rw [← buf_encryptStage1 behind, encryptStage1_decryptStage1]

theorem buf_mix {indices : List Nat} {i : Nat} (outside : i ∉ indices)
    (s : Cipher) : (Undo.run mixNext indices s).buf i = s.buf i := by
  have kept (j : Nat) (member : j ∈ indices) (s : Cipher) :
      (mixNext j s).buf i = s.buf i := by
    have other : i ≠ j := by
      rintro rfl
      exact outside member
    rcases Nat.lt_or_gt_of_ne other with lower | upper
    · exact Memory.write_of_lt lower
    · exact Memory.write_of_le upper
  exact Undo.view_run (fun s => s.buf i) kept s

/-! ## The packet -/

/-- The packet in front of the second stage, and what the receiver has behind
it. -/
def mixed (buf : Memory) (l : Nat) (key : Key) : Cipher :=
  Undo.run mixNext (List.range (l - 2))
    (encryptStage1 { buf := buf, key := key })

theorem key_mixed (buf : Memory) (l : Nat) (key : Key) :
    (mixed buf l key).key = key := by
  rw [mixed, key_mix, key_encryptStage1]

/-- Neither the first stage nor the mixing reaches the last byte. -/
theorem buf_mixed {l i : Nat} (long : 9 ≤ l) (behind : l - 1 ≤ i)
    (buf : Memory) (key : Key) : (mixed buf l key).buf i = buf i := by
  have outside : i ∉ List.range (l - 2) := by
    rw [List.mem_range]
    omega
  rw [mixed, buf_mix outside, buf_encryptStage1 (by omega)]

/-- The receiver mixes one byte more than the sender has mixed, the one in
front of the last. -/
theorem decrypt_encrypt {l : Nat} (long : 9 ≤ l) (buf : Memory) (key : Key) :
    decrypt (encrypt buf l key) l key =
      (decryptStage1 (Undo.run mixNext (List.range (l - 2)).reverse
        (mixNext (l - 2) (mixed buf l key)))).buf := by
  have sent : encryptStage2 (l - 9) { buf := encrypt buf l key, key := key } =
      encryptStage2 0 (mixed buf l key) := by
    have whole : Cipher.mk (encrypt buf l key) key =
        decryptStage2 (l - 9) (encryptStage2 0 (mixed buf l key)) := by
      have kept : (decryptStage2 (l - 9)
          (encryptStage2 0 (mixed buf l key))).key = key := by
        rw [key_decryptStage2, key_encryptStage2, key_mixed]
      exact congrArg (Cipher.mk (encrypt buf l key)) kept.symm
    rw [whole, encryptStage2_decryptStage2]
  have indices : (List.range (l - 1)).reverse =
      (l - 2) :: (List.range (l - 2)).reverse := by
    have next : l - 1 = l - 2 + 1 := by omega
    rw [next, List.range_succ, List.reverse_append]
    rfl
  unfold decrypt
  simp only [sent, decryptStage2_encryptStage2, indices, Undo.run_cons]

/-- The last byte decides whether the mixing of one byte more matters. -/
theorem mixNext_mixed_iff {l : Nat} (long : 9 ≤ l) (buf : Memory) (key : Key) :
    mixNext (l - 2) (mixed buf l key) = mixed buf l key ↔ buf (l - 1) = 0 := by
  have behind : l - 2 + 1 = l - 1 := by omega
  rw [mixNext_eq_self_iff, behind, buf_mixed long (Nat.le_refl _)]

/-- A last byte of zero changes nothing. -/
theorem decrypt_encrypt_of_zero {l : Nat} (long : 9 ≤ l) {buf : Memory}
    (zero : buf (l - 1) = 0) (key : Key) :
    decrypt (encrypt buf l key) l key = buf := by
  have same := (mixNext_mixed_iff long buf key).mpr zero
  rw [decrypt_encrypt long, same, mixed,
    Undo.run_reverse_run fun i _ => mixNext_mixNext i,
    decryptStage1_encryptStage1]

/-- Behind the packet everything is left as it was. -/
theorem decrypt_encrypt_behind {l i : Nat} (long : 9 ≤ l) (behind : l ≤ i)
    (buf : Memory) (key : Key) :
    decrypt (encrypt buf l key) l key i = buf i := by
  have outside : i ∉ (l - 2) :: (List.range (l - 2)).reverse := by
    rw [List.mem_cons, List.mem_reverse, List.mem_range]
    omega
  rw [decrypt_encrypt long, buf_decryptStage1 (by omega), ← Undo.run_cons,
    buf_mix outside, buf_mixed long (by omega)]

/-- If the packet comes back, its last byte is zero. -/
theorem zero_of_decrypt_encrypt {l : Nat} (long : 9 ≤ l) {buf : Memory}
    {key : Key}
    (back : (decrypt (encrypt buf l key) l key).read 0 l = buf.read 0 l) :
    buf (l - 1) = 0 := by
  have whole : decrypt (encrypt buf l key) l key = buf := by
    funext i
    by_cases inside : i < l
    · have byte := Memory.apply_of_read back inside
      rwa [Nat.zero_add] at byte
    · exact decrypt_encrypt_behind long (by omega) buf key
  have deciphered : decryptStage1 (Undo.run mixNext (List.range (l - 2)).reverse
      (mixNext (l - 2) (mixed buf l key))) = { buf := buf, key := key } := by
    apply Cipher.ext
    · rwa [decrypt_encrypt long] at whole
    · rw [key_decryptStage1, key_mix]
      exact key_mixed buf l key
  have unmixed := congrArg encryptStage1 deciphered
  rw [encryptStage1_decryptStage1] at unmixed
  have again := congrArg (Undo.run mixNext (List.range (l - 2))) unmixed
  rw [Undo.run_run_reverse fun i _ => mixNext_mixNext i] at again
  exact (mixNext_mixed_iff long buf key).mp again

/-- A packet comes back exactly if its last byte is zero. -/
theorem read_decrypt_encrypt_iff {l : Nat} (long : 9 ≤ l) (buf : Memory)
    (key : Key) :
    (decrypt (encrypt buf l key) l key).read 0 l = buf.read 0 l ↔
      buf (l - 1) = 0 := by
  constructor
  · exact zero_of_decrypt_encrypt long
  · intro zero
    rw [decrypt_encrypt_of_zero long zero]

/-- Nine zero bytes. -/
theorem read_decrypt_encrypt_zero :
    (decrypt (encrypt Memory.zero 9 fun _ => 7) 9 fun _ => 7).read 0 9 =
        Memory.zero.read 0 9 ↔ Memory.zero 8 = 0 :=
  read_decrypt_encrypt_iff (Nat.le_refl 9) Memory.zero fun _ => 7

/-- Nine bytes of one do not come back. -/
theorem read_decrypt_encrypt_ones :
    ¬ ∀ (l : Nat) (buf : Memory) (key : Key), 9 ≤ l →
      (decrypt (encrypt buf l key) l key).read 0 l = buf.read 0 l := by
  intro back
  have zero := zero_of_decrypt_encrypt (Nat.le_refl 9)
    (back 9 (fun _ => 1) (fun _ => 0) (Nat.le_refl 9))
  exact absurd zero (by decide)

end Oscam.Gbox
