import Mathlib
import Oscam.Cscrypt.Des

/-!
# Decryption undoes encryption

The permutations of the block are inverse to each other, the registers of the
key come back after 28 rotations, and the rounds are a Feistel network with a
key that moves.
-/

namespace Oscam.Des

local instance neZeroBytes : NeZero 8 := ⟨by decide⟩

local instance neZeroRegister : NeZero 4 := ⟨by decide⟩

/-! ## Bits of a byte -/

theorem toNat_lowBit (byte : UInt8) : (lowBit byte).toNat = byte.toNat % 2 := by
  have bit : (byte &&& 1).toNat = byte.toNat % 2 := by
    rw [UInt8.toNat_and]
    exact Nat.and_one_is_mod byte.toNat
  have cases := Nat.mod_two_eq_zero_or_one byte.toNat
  unfold lowBit
  rcases cases with zero | one
  · have none : byte &&& 1 = 0 := by
      apply UInt8.toNat_inj.mp
      rw [bit, zero]
      rfl
    rw [none, zero]
    rfl
  · have some : byte &&& 1 = 1 := by
      apply UInt8.toNat_inj.mp
      rw [bit, one]
      rfl
    rw [some, one]
    rfl

def halve (byte : UInt8) : UInt8 := byte >>> 1

/-- The bit that is lowest after `k` shifts. -/
def bitAt (byte : UInt8) (k : Nat) : Bool := lowBit (halve^[k] byte)

theorem toNat_halve (byte : UInt8) (k : Nat) :
    (halve^[k] byte).toNat = byte.toNat / 2 ^ k := by
  induction k with
  | zero => simp
  | succ k induction =>
      rw [Function.iterate_succ_apply', halve, toNat_half, induction,
        Nat.pow_succ, Nat.div_div_eq_div_mul]

theorem toNat_bitAt (byte : UInt8) (k : Nat) :
    (bitAt byte k).toNat = byte.toNat / 2 ^ k % 2 := by
  rw [bitAt, toNat_lowBit, toNat_halve]

/-- Eight bits shifted into a byte. -/
def pack (byte : UInt8) (c : Nat → Bool) : UInt8 :=
  (List.range 8).foldl (fun byte i => shiftIn byte (c i)) byte

theorem toNat_pack (byte : UInt8) (c : Nat → Bool) :
    (pack byte c).toNat =
      (c 0).toNat + (c 1).toNat * 2 + (c 2).toNat * 4 + (c 3).toNat * 8 +
        (c 4).toNat * 16 + (c 5).toNat * 32 + (c 6).toNat * 64 +
        (c 7).toNat * 128 := by
  have below := byte.toNat_lt
  have bits (i : Nat) := (c i).toNat_le
  have b0 := bits 0
  have b1 := bits 1
  have b2 := bits 2
  have b3 := bits 3
  have b4 := bits 4
  have b5 := bits 5
  have b6 := bits 6
  have b7 := bits 7
  show (shiftIn (shiftIn (shiftIn (shiftIn (shiftIn (shiftIn (shiftIn
    (shiftIn byte (c 0)) (c 1)) (c 2)) (c 3)) (c 4)) (c 5)) (c 6)) (c 7)).toNat
      = _
  simp only [toNat_shiftIn]
  omega

theorem eq_of_toNat {bit other : Bool} (same : bit.toNat = other.toNat) :
    bit = other := by
  cases bit <;> cases other <;> first | rfl | cases same

theorem bitAt_pack (byte : UInt8) (c : Nat → Bool) {k : Nat} (inside : k < 8) :
    bitAt (pack byte c) k = c k := by
  have bits (i : Nat) := (c i).toNat_le
  have b0 := bits 0
  have b1 := bits 1
  have b2 := bits 2
  have b3 := bits 3
  have b4 := bits 4
  have b5 := bits 5
  have b6 := bits 6
  have b7 := bits 7
  apply eq_of_toNat
  rw [toNat_bitAt, toNat_pack]
  match k, inside with
  | 0, _ => omega
  | 1, _ => omega
  | 2, _ => omega
  | 3, _ => omega
  | 4, _ => omega
  | 5, _ => omega
  | 6, _ => omega
  | 7, _ => omega

theorem pack_congr {byte : UInt8} {c other : Nat → Bool}
    (same : ∀ k < 8, c k = other k) : pack byte c = pack byte other := by
  apply List.foldl_ext
  intro byte k member
  rw [same k (List.mem_range.mp member)]

/-- A byte is the byte of its bits. -/
theorem pack_bitAt (byte old : UInt8) : pack old (bitAt byte) = byte := by
  have below := byte.toNat_lt
  apply UInt8.toNat_inj.mp
  rw [toNat_pack]
  simp only [toNat_bitAt]
  omega

/-! ## The permutations of the block -/

theorem get_set (block : Block) (i j : Fin 8) (byte : UInt8) :
    (block.set i.val byte i.isLt).get j =
      if i = j then byte else block.get j := by
  show (block.set i.val byte i.isLt)[j.val] = _
  rw [Vector.getElem_set]
  simp only [Fin.ext_iff]
  rfl

theorem block_ext {block other : Block}
    (same : ∀ i : Fin 8, block.get i = other.get i) : block = other :=
  Vector.ext fun i inside => same ⟨i, inside⟩

/-- When the loops come to a byte. -/
def order (place : Fin 8) : Nat := places.idxOf place

/-- The byte they come to. -/
def placeAt (k : Nat) : Fin 8 := places.getD k 0

theorem placeAt_order (place : Fin 8) : placeAt (order place) = place := by
  decide +revert

theorem order_lt (place : Fin 8) : order place < 8 := by
  decide +revert

theorem order_placeAt {k : Nat} (inside : k < 8) : order (placeAt k) = k := by
  decide +revert

/-! ### Into the buffer -/

theorem get_ipBytes {ps : List (Fin 8)} (distinct : ps.Nodup) (val : UInt8)
    (buf : Block) (place : Fin 8) :
    (ps.foldl ipStep (val, buf)).2.get place =
      if place ∈ ps then
        shiftIn (buf.get place) (bitAt val (ps.idxOf place))
      else buf.get place := by
  induction ps generalizing val buf with
  | nil => rfl
  | cons p ps induction =>
      obtain ⟨new, rest⟩ := List.nodup_cons.mp distinct
      have turn : (p :: ps).foldl ipStep (val, buf) =
          ps.foldl ipStep (halve val, buf.set p.val
            (shiftIn (buf.get p) (lowBit val)) p.isLt) := rfl
      rw [turn, induction rest]
      by_cases same : p = place
      · subst same
        rw [if_neg new, get_set, if_pos rfl, if_pos List.mem_cons_self,
          List.idxOf_cons_self]
        rfl
      · have later : (p :: ps).idxOf place = ps.idxOf place + 1 :=
          List.idxOf_cons_ne ps same
        rw [get_set, if_neg same, later]
        simp only [List.mem_cons, Ne.symm same, false_or]
        rfl

theorem mem_places (place : Fin 8) : place ∈ places := by
  decide +revert

theorem nodup_places : places.Nodup := by decide

theorem get_ipByte (data buf : Block) (i : Nat) (place : Fin 8) :
    (ipByte data buf i).get place =
      shiftIn (buf.get place)
        (bitAt (data.get (Fin.ofNat 8 i)) (order place)) := by
  unfold ipByte
  rw [get_ipBytes nodup_places, if_pos (mem_places place)]
  rfl

/-- Each byte of the result has a bit of each byte of the data. -/
theorem get_doIp (data : Block) (place : Fin 8) :
    ∃ r, (doIp data).get place =
      pack r fun i => bitAt (data.get (Fin.ofNat 8 i)) (order place) := by
  have loop (buf : Block) (n : Nat) :
      ((List.range n).foldl (ipByte data) buf).get place =
        (List.range n).foldl (fun byte i => shiftIn byte
          (bitAt (data.get (Fin.ofNat 8 i)) (order place)))
          (buf.get place) := by
    induction n with
    | zero => rfl
    | succ n induction =>
        rw [List.range_succ, List.foldl_append, List.foldl_append,
          List.foldl_cons, List.foldl_nil, List.foldl_cons, List.foldl_nil,
          get_ipByte, induction]
  exact ⟨_, loop (Vector.replicate 8 0) 8⟩

/-! ### Out of the data -/

theorem ipBackBytes {ps : List (Fin 8)} (distinct : ps.Nodup) (r : UInt8)
    (data : Block) :
    (ps.foldl ipBackStep (r, data)).1 =
        ps.foldl (fun r p => shiftIn r (lowBit (data.get p))) r ∧
      ∀ place, (ps.foldl ipBackStep (r, data)).2.get place =
        if place ∈ ps then halve (data.get place) else data.get place := by
  induction ps generalizing r data with
  | nil => exact ⟨rfl, fun _ => rfl⟩
  | cons p ps induction =>
      obtain ⟨new, rest⟩ := List.nodup_cons.mp distinct
      have turn : (p :: ps).foldl ipBackStep (r, data) =
          ps.foldl ipBackStep (shiftIn r (lowBit (data.get p)),
            data.set p.val (halve (data.get p)) p.isLt) := rfl
      obtain ⟨byte, bytes⟩ := induction rest
        (shiftIn r (lowBit (data.get p)))
        (data.set p.val (halve (data.get p)) p.isLt)
      constructor
      · rw [turn, byte, List.foldl_cons]
        apply List.foldl_ext
        intro r q member
        have other : ¬ p = q := by
          rintro rfl
          exact new member
        rw [get_set, if_neg other]
      · intro place
        rw [turn, bytes, get_set]
        by_cases same : p = place
        · subst same
          rw [if_neg new, if_pos rfl, if_pos List.mem_cons_self]
        · simp only [if_neg same, List.mem_cons, Ne.symm same, false_or]

/-- After `n` bytes of the result: what is left of the data, and the bytes. -/
theorem ipBackBytes_range (data buf : Block) {n : Nat} (inside : n ≤ 8) :
    let s := (List.range n).foldl ipBackByte ((0, data), buf)
    (∀ place, s.1.2.get place = halve^[n] (data.get place)) ∧
      ∀ i < n, ∃ r, s.2.get (Fin.ofNat 8 i) =
        pack r fun k => bitAt (data.get (placeAt k)) i := by
  induction n with
  | zero => exact ⟨fun _ => rfl, fun i below => absurd below (Nat.not_lt_zero i)⟩
  | succ n induction =>
      obtain ⟨left, bytes⟩ := induction (by omega)
      rw [List.range_succ, List.foldl_append]
      generalize (List.range n).foldl ipBackByte ((0, data), buf) = s at left bytes
      obtain ⟨⟨r, d⟩, out⟩ := s
      obtain ⟨byte, rest⟩ := ipBackBytes nodup_places r d
      constructor
      · intro place
        have halved := rest place
        rw [if_pos (mem_places place), left place] at halved
        rw [Function.iterate_succ_apply']
        exact halved
      · intro i below
        have set : ([n].foldl ipBackByte ((r, d), out)).2.get (Fin.ofNat 8 i) =
            if Fin.ofNat 8 n = Fin.ofNat 8 i then
              (places.foldl ipBackStep (r, d)).1
            else out.get (Fin.ofNat 8 i) :=
          get_set out (Fin.ofNat 8 n) (Fin.ofNat 8 i) _
        rw [set]
        by_cases last : i = n
        · subst last
          refine ⟨r, ?_⟩
          rw [if_pos rfl, byte]
          show pack r (fun k => lowBit (d.get (placeAt k))) = _
          simp only [left]
          rfl
        · have other : Fin.ofNat 8 n ≠ Fin.ofNat 8 i := by
            intro same
            have value : n % 8 = i % 8 := congrArg Fin.val same
            omega
          rw [if_neg other]
          exact bytes i (by omega)

/-- Each byte of the result has a bit of each byte of the data. -/
theorem get_doIpBack (data : Block) (i : Fin 8) :
    ∃ r, (doIpBack data).get i =
      pack r fun k => bitAt (data.get (placeAt k)) i := by
  obtain ⟨-, bytes⟩ := ipBackBytes_range data (Vector.replicate 8 0)
    (Nat.le_refl 8)
  have byte := bytes i i.isLt
  rwa [Fin.ofNat_val_eq_self] at byte

theorem doIpBack_doIp (data : Block) : doIpBack (doIp data) = data := by
  apply block_ext
  intro i
  obtain ⟨r, byte⟩ := get_doIpBack (doIp data) i
  have bits (k : Nat) (inside : k < 8) :
      bitAt ((doIp data).get (placeAt k)) i = bitAt (data.get i) k := by
    obtain ⟨r', bit⟩ := get_doIp data (placeAt k)
    rw [bit, bitAt_pack _ _ i.isLt, order_placeAt inside,
      Fin.ofNat_val_eq_self]
  rw [byte, pack_congr bits, pack_bitAt]

theorem doIp_doIpBack (data : Block) : doIp (doIpBack data) = data := by
  apply block_ext
  intro place
  obtain ⟨r, byte⟩ := get_doIp (doIpBack data) place
  have bits (i : Nat) (inside : i < 8) :
      bitAt ((doIpBack data).get (Fin.ofNat 8 i)) (order place) =
        bitAt (data.get place) i := by
    obtain ⟨r', bit⟩ := get_doIpBack data (Fin.ofNat 8 i)
    have value : (Fin.ofNat 8 i).val = i := Nat.mod_eq_of_lt inside
    rw [bit, bitAt_pack _ _ (order_lt place), placeAt_order, value]
  rw [byte, pack_congr bits, pack_bitAt]

/-! ## The registers of the key -/

namespace Register

/-- The 28 bits as a number. -/
def value (register : Register) : Nat :=
  (register.bytes.get 0).toNat + (register.bytes.get 1).toNat * 2 ^ 8 +
    (register.bytes.get 2).toNat * 2 ^ 16 +
    (register.bytes.get 3).toNat * 2 ^ 24

theorem value_lt (register : Register) : register.value < 2 ^ 28 := by
  have first := (register.bytes.get 0).toNat_lt
  have second := (register.bytes.get 1).toNat_lt
  have third := (register.bytes.get 2).toNat_lt
  have fourth := register.short
  unfold value
  omega

theorem value_injective : Function.Injective value := by
  rintro ⟨bytes, short⟩ ⟨other, short'⟩ same
  have bound (i : Fin 4) := (bytes.get i).toNat_lt
  have bound' (i : Fin 4) := (other.get i).toNat_lt
  have b0 := bound 0
  have b1 := bound 1
  have b2 := bound 2
  have b0' := bound' 0
  have b1' := bound' 1
  have b2' := bound' 2
  unfold value at same
  dsimp only at same
  have equal (i : Fin 4) : bytes.get i = other.get i := by
    apply UInt8.toNat_inj.mp
    match i with
    | 0 => omega
    | 1 => omega
    | 2 => omega
    | 3 => omega
  obtain rfl : bytes = other :=
    Vector.ext fun i inside => equal ⟨i, inside⟩
  rfl

theorem toNat_rightRot (register : Register) (i : Fin 4) :
    ((rightRot register).bytes.get i).toNat =
      (register.bytes.get i).toNat / 2 +
        (register.bytes.get (i + 1)).toNat % 2 * if i = 3 then 8 else 128 := by
  unfold rightRot
  rw [get_ofFn]
  by_cases last : i = 3
  · subst last
    rw [if_pos rfl, if_pos rfl, toNat_carry register.short, toNat_lowBit]
    rfl
  · rw [if_neg last, if_neg last, toNat_shiftIn, toNat_lowBit]

theorem value_rightRot (register : Register) :
    (rightRot register).value = Rotation.rotate 28 register.value := by
  have r0 := register.toNat_rightRot 0
  have r1 := register.toNat_rightRot 1
  have r2 := register.toNat_rightRot 2
  have r3 := register.toNat_rightRot 3
  simp at r0 r1 r2 r3
  unfold value Rotation.rotate
  rw [r0, r1, r2, r3]
  omega

/-- A whole turn. -/
theorem rightRot_iterate_28 (register : Register) :
    rightRot^[28] register = register :=
  Rotation.iterate_self value_injective value_lt value_rightRot register

theorem rightRot_leftRot (register : Register) :
    rightRot (leftRot register) = register := by
  rw [leftRot, ← Function.iterate_succ_apply' rightRot 27]
  exact register.rightRot_iterate_28

theorem leftRot_rightRot (register : Register) :
    leftRot (rightRot register) = register := by
  rw [leftRot, ← Function.iterate_succ_apply rightRot 27]
  exact register.rightRot_iterate_28

theorem leftRot_iterate_28 (register : Register) :
    leftRot^[28] register = register := by
  have turns : leftRot^[28] register = (rightRot^[28])^[27] register := by
    have left : leftRot = rightRot^[27] := rfl
    rw [left, ← Function.iterate_mul, ← Function.iterate_mul]
  rw [turns]
  exact Function.iterate_fixed register.rightRot_iterate_28 27

end Register

/-! ### Both halves -/

theorem rightRotKeys_leftRotKeys (keys : Keys) :
    rightRotKeys (leftRotKeys keys) = keys := by
  unfold rightRotKeys leftRotKeys
  rw [Register.rightRot_leftRot, Register.rightRot_leftRot]

theorem leftRotKeys_rightRotKeys (keys : Keys) :
    leftRotKeys (rightRotKeys keys) = keys := by
  unfold rightRotKeys leftRotKeys
  rw [Register.leftRot_rightRot, Register.leftRot_rightRot]

theorem leftRotKeys_iterate_28 (keys : Keys) :
    leftRotKeys^[28] keys = keys := by
  have halves (n : Nat) : leftRotKeys^[n] keys =
      { left := leftRot^[n] keys.left, right := leftRot^[n] keys.right } := by
    induction n with
    | zero => rfl
    | succ n induction =>
        rw [Function.iterate_succ_apply', induction,
          Function.iterate_succ_apply', Function.iterate_succ_apply']
        rfl
  rw [halves, Register.leftRot_iterate_28, Register.leftRot_iterate_28]

/-! ## The rounds -/

/-- The keys turn once or twice. -/
def turn (rotate : Keys → Keys) (twice : Bool) (keys : Keys) : Keys :=
  if twice then rotate (rotate keys) else rotate keys

/-- Whether they turn twice in each round of the loop. -/
def turns : Nat → UInt16 → List Bool
  | 0, _ => []
  | fuel + 1, shift =>
      decide (shift &&& 0x8000 = 0) ::
        if shift <<< 1 = 0 then [] else turns fuel (shift <<< 1)

/-- The rounds with `DES_RIGHT` clear. -/
def schedule : List Bool := turns 16 0xc081

/-- With `DES_RIGHT` set they are the same, from the last to the first. -/
theorem schedule_reverse : turns 16 0x8103 = schedule.reverse := by decide

theorem turnKeys_eq (rotate : Keys → Keys) (shift : UInt16) (keys : Keys) :
    turnKeys rotate shift keys =
      turn rotate (decide (shift &&& 0x8000 = 0)) keys := by
  unfold turnKeys turn
  simp only [decide_eq_true_eq]

theorem right_left (twice : Bool) (keys : Keys) :
    turn rightRotKeys twice (turn leftRotKeys twice keys) = keys := by
  cases twice <;> simp [turn, rightRotKeys_leftRotKeys]

theorem left_right (twice : Bool) (keys : Keys) :
    turn leftRotKeys twice (turn rightRotKeys twice keys) = keys := by
  cases twice <;> simp [turn, leftRotKeys_rightRotKeys]

theorem mix_cancels : Feistel.Cancels mix := by
  intro half other
  apply Vector.ext
  intro i inside
  simp only [mix, Vector.getElem_zipWith]
  rw [UInt8.xor_assoc, UInt8.xor_self, UInt8.xor_zero]

/-- All the turns forth make a whole turn. -/
theorem run_left (keys : Keys) :
    Undo.run (turn leftRotKeys) schedule keys = keys :=
  leftRotKeys_iterate_28 keys

/-- And so do all the turns back. -/
theorem run_right (keys : Keys) :
    Undo.run (turn rightRotKeys) schedule.reverse keys = keys := by
  have undone : Undo.run (turn rightRotKeys) schedule.reverse
      (Undo.run (turn leftRotKeys) schedule keys) = keys :=
    Undo.run_reverse_run (fun twice _ => right_left twice) keys
  rwa [run_left] at undone

variable (mode : Mode) (k8 : UInt8)

theorem desLoop_left (clear : mode.right = false) (fuel : Nat) (shift : UInt16)
    (s : State) :
    desLoop mode k8 fuel shift s =
      Undo.run (Feistel.forthStep mix (roundWord mode.hash k8)
        (turn leftRotKeys)) (turns fuel shift) s := by
  induction fuel generalizing shift s with
  | zero => rfl
  | succ fuel induction =>
      unfold desLoop turns
      rw [Undo.run_cons, clear, Feistel.forthStep, ← turnKeys_eq]
      dsimp only
      split
      · rfl
      · rw [induction]
        rfl

theorem desLoop_right (set : mode.right = true) (fuel : Nat) (shift : UInt16)
    (s : State) :
    desLoop mode k8 fuel shift s =
      Undo.run (Feistel.backStep mix (roundWord mode.hash k8)
        (turn rightRotKeys)) (turns fuel shift) s := by
  induction fuel generalizing shift s with
  | zero => rfl
  | succ fuel induction =>
      unfold desLoop turns
      rw [Undo.run_cons, set, Feistel.backStep, ← turnKeys_eq]
      dsimp only
      split
      · rfl
      · rw [induction]
        rfl

/-! ## One run of `des` -/

theorem joinHalves_halves (data : Block) :
    joinHalves (firstHalf data) (secondHalf data) = data := by
  apply Vector.ext
  intro i inside
  show (firstHalf data ++ secondHalf data)[i] = data[i]
  by_cases front : i < 4
  · rw [Vector.getElem_append_left front, firstHalf, Vector.getElem_ofFn]
    rfl
  · rw [Vector.getElem_append_right (by omega) (by omega), secondHalf,
      Vector.getElem_ofFn]
    have place : 4 + (i - 4) = i := by omega
    show data[4 + (i - 4)] = data[i]
    simp only [place]

theorem firstHalf_joinHalves (first second : Word) :
    firstHalf (joinHalves first second) = first := by
  apply Vector.ext
  intro i inside
  rw [firstHalf, Vector.getElem_ofFn]
  show (first ++ second)[i] = first[i]
  rw [Vector.getElem_append_left]

theorem secondHalf_joinHalves (first second : Word) :
    secondHalf (joinHalves first second) = second := by
  apply Vector.ext
  intro i inside
  rw [secondHalf, Vector.getElem_ofFn]
  show (first ++ second)[4 + i] = second[i]
  rw [Vector.getElem_append_right (by omega) (by omega)]
  simp only [Nat.add_sub_cancel_left]

/-- A key with a block. -/
def load (keys : Keys) (data : Block) : State :=
  { key := keys, left := firstHalf data, right := secondHalf data }

/-- The block of a state. -/
def unload (s : State) : Block := joinHalves s.left s.right

theorem unload_load (keys : Keys) (data : Block) :
    unload (load keys data) = data := joinHalves_halves data

theorem load_unload (s : State) : load s.key (unload s) = s := by
  apply Feistel.State.ext
  · rfl
  · exact firstHalf_joinHalves s.left s.right
  · exact secondHalf_joinHalves s.left s.right

/-- `des` without the permutations of the block. -/
def desRounds (key : Memory) (mode : Mode) (data : Block) : Block :=
  unload (Feistel.flip (desLoop mode (key 7) 16
    (if mode.right then 0x8103 else 0xc081) (load (keyHalves key) data)))

theorem desRounds_left (key : Memory) {mode : Mode}
    (clear : mode.right = false) (data : Block) :
    desRounds key mode data =
      unload (Feistel.flip (Undo.run (Feistel.forthStep mix
        (roundWord mode.hash (key 7)) (turn leftRotKeys)) schedule
          (load (keyHalves key) data))) := by
  rw [desRounds, clear, if_neg Bool.false_ne_true, desLoop_left mode _ clear]
  rfl

theorem desRounds_right (key : Memory) {mode : Mode}
    (set : mode.right = true) (data : Block) :
    desRounds key mode data =
      unload (Feistel.flip (Undo.run (Feistel.backStep mix
        (roundWord mode.hash (key 7)) (turn rightRotKeys)) schedule.reverse
          (load (keyHalves key) data))) := by
  rw [desRounds, set, if_pos rfl, desLoop_right mode _ set, schedule_reverse]

/-- A state of which the key is that of the run can be loaded again. -/
theorem load_unload_of_key {keys : Keys} {s : State} (same : s.key = keys) :
    load keys (unload s) = s := by
  subst same
  exact load_unload s

/-- The two directions undo each other. -/
theorem desRounds_right_left (key : Memory) {mode other : Mode}
    (same : other.hash = mode.hash) (clear : mode.right = false)
    (set : other.right = true) (data : Block) :
    desRounds key other (desRounds key mode data) = data := by
  let s := load (keyHalves key) data
  let f := roundWord mode.hash (key 7)
  have keys : (Feistel.flip (Undo.run (Feistel.forthStep mix f
      (turn leftRotKeys)) schedule s)).key = keyHalves key := by
    rw [Feistel.key_flip, Feistel.key_run_forth, run_left]
    rfl
  rw [desRounds_left key clear, desRounds_right key set, same,
    load_unload_of_key keys,
    Feistel.run_back_run_forth mix_cancels right_left, unload_load]

theorem desRounds_left_right (key : Memory) {mode other : Mode}
    (same : other.hash = mode.hash) (clear : mode.right = false)
    (set : other.right = true) (data : Block) :
    desRounds key mode (desRounds key other data) = data := by
  let s := load (keyHalves key) data
  let f := roundWord mode.hash (key 7)
  have keys : (Feistel.flip (Undo.run (Feistel.backStep mix f
      (turn rightRotKeys)) schedule.reverse s)).key = keyHalves key := by
    rw [Feistel.key_flip, Feistel.key_run_back, run_right]
    rfl
  rw [desRounds_left key clear, desRounds_right key set, same,
    load_unload_of_key keys,
    Feistel.run_forth_run_back mix_cancels left_right, unload_load]

/-! ## EuroDes -/

/-- The flags of the newcamd protocol. -/
abbrev newcamdFlags : UInt8 := flagEuroS2 ||| flagTripleDes

/-- A mode of triple DES. -/
def tripleMode (ip ipBack right : Bool) : Mode :=
  { ip := ip, ipBack := ipBack, right := right, hash := false }

section

variable (key : Memory) (ip ipBack ip' ipBack' : Bool) (data : Block)

theorem triple_right_left :
    desRounds key (tripleMode ip ipBack true)
      (desRounds key (tripleMode ip' ipBack' false) data) = data :=
  have same : (tripleMode ip ipBack true).hash
      = (tripleMode ip' ipBack' false).hash := rfl
  have clear : (tripleMode ip' ipBack' false).right = false := rfl
  have set : (tripleMode ip ipBack true).right = true := rfl
  desRounds_right_left key same clear set data

theorem triple_left_right :
    desRounds key (tripleMode ip ipBack false)
      (desRounds key (tripleMode ip' ipBack' true) data) = data :=
  have same : (tripleMode ip' ipBack' true).hash
      = (tripleMode ip ipBack false).hash := rfl
  have clear : (tripleMode ip ipBack false).right = false := rfl
  have set : (tripleMode ip' ipBack' true).right = true := rfl
  desRounds_left_right key same clear set data

end

/-- Triple DES in one direction. -/
theorem euroDes_triple {key1 : Memory} (plain : key1 7 = 0) (key2 : Memory)
    (operatingMode : UInt8) (data : Block) {right : Bool}
    (direction : right = !decide (operatingMode = hashMode)) :
    euroDes key1 key2 newcamdFlags operatingMode data =
      doIpBack (desRounds key1 (tripleMode false true right)
        (desRounds key2 (tripleMode false false !right)
          (desRounds key1 (tripleMode true false right) (doIp data)))) := by
  have notViaccess : ¬ key1 7 ≠ 0 := fun other => other plain
  have triple : newcamdFlags &&& flagTripleDes ≠ 0 := by decide
  subst direction
  unfold euroDes
  rw [if_neg notViaccess, if_pos triple]
  rfl

/-- Three runs undone by three runs, the middle one in the other direction. -/
theorem euroDes_euroDes {key1 : Memory} (plain : key1 7 = 0) (key2 : Memory)
    (data : Block) :
    euroDes key1 key2 newcamdFlags 0
        (euroDes key1 key2 newcamdFlags hashMode data) = data := by
  have forth : false = !decide (hashMode = hashMode) := by decide
  have back : true = !decide ((0 : UInt8) = hashMode) := by decide
  rw [euroDes_triple plain key2 hashMode data forth,
    euroDes_triple plain key2 0 _ back, doIp_doIpBack, triple_right_left,
    Bool.not_true, Bool.not_false, triple_left_right, triple_right_left,
    doIpBack_doIp]

/-- A permuted key is not one for Viaccess. -/
theorem doPC1_last (data : Memory) : doPC1 data 7 = 0 := rfl

/-- With a key of `des_login_key_get`, decryption undoes encryption. -/
theorem euroDes_loginKey (key1 key2 : Memory) (len : Nat) (data : Block) :
    let des16 := loginKeyGet key1 key2 len
    euroDes des16.1 des16.2 newcamdFlags 0
        (euroDes des16.1 des16.2 newcamdFlags hashMode data) = data :=
  euroDes_euroDes (doPC1_last _) _ data

end Oscam.Des
