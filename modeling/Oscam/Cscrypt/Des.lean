import Oscam.Lib.Feistel
import Oscam.Lib.Memory
import Oscam.Lib.Rotation

/-!
# The DES of cscrypt

`EuroDes` is made of up to three runs of `des`, each with a key that `doPC1`
has permuted before.
-/

namespace Oscam.Des

/-! ## Tables -/

def PC2 : List (List Nat) :=
  [[14, 17, 11, 24,  1,  5],
   [ 3, 28, 15,  6, 21, 10],
   [23, 19, 12,  4, 26,  8],
   [16,  7, 27, 20, 13,  2],
   [41, 52, 31, 37, 47, 55],
   [30, 40, 51, 45, 33, 48],
   [44, 49, 39, 56, 34, 53],
   [46, 42, 50, 36, 29, 32]]

def E : List (List Nat) :=
  [[32,  1,  2,  3,  4,  5],
   [ 4,  5,  6,  7,  8,  9],
   [ 8,  9, 10, 11, 12, 13],
   [12, 13, 14, 15, 16, 17],
   [16, 17, 18, 19, 20, 21],
   [20, 21, 22, 23, 24, 25],
   [24, 25, 26, 27, 28, 29],
   [28, 29, 30, 31, 32,  1]]

def P : List Nat :=
  [16,  7, 20, 21, 29, 12, 28, 17,  1, 15, 23, 26,  5, 18, 31, 10,
    2,  8, 24, 14, 32, 27,  3,  9, 19, 13, 30,  6, 22, 11,  4, 25]

def SBOXES : List (List UInt8) :=
  [[0x2e, 0xe0, 0xc4, 0xbf, 0x4d, 0x27, 0x11, 0xc4,
    0x72, 0x4e, 0xaf, 0x72, 0xbb, 0xdd, 0x68, 0x11,
    0x83, 0x5a, 0x5a, 0x06, 0x36, 0xfc, 0xfc, 0xab,
    0xd5, 0x39, 0x09, 0x95, 0xe0, 0x83, 0x97, 0x68,
    0x44, 0xbf, 0x21, 0x8c, 0x1e, 0xc8, 0xb8, 0x72,
    0xad, 0x14, 0xd6, 0xe9, 0x72, 0x21, 0x8b, 0xd7,
    0xff, 0x65, 0x9c, 0xfb, 0xc9, 0x03, 0x57, 0x9e,
    0x63, 0xaa, 0x3a, 0x40, 0x05, 0x56, 0xe0, 0x3d],
   [0xcf, 0xa3, 0x11, 0xfd, 0xa8, 0x44, 0xfe, 0x27,
    0x96, 0x7f, 0x2b, 0xc2, 0x63, 0x98, 0x84, 0x5e,
    0x09, 0x6c, 0xd7, 0x10, 0x32, 0xd1, 0x4d, 0xea,
    0xec, 0x06, 0x70, 0xb9, 0x55, 0x3b, 0xba, 0x85,
    0x90, 0x4d, 0xee, 0x38, 0xf7, 0x2a, 0x5b, 0xc1,
    0x2a, 0x93, 0x84, 0x5f, 0xcd, 0xf4, 0x31, 0xa2,
    0x75, 0xbb, 0x08, 0xe6, 0x4c, 0x17, 0xa6, 0x7c,
    0x19, 0x60, 0xd3, 0x05, 0xb2, 0x8e, 0x6f, 0xd9],
   [0x4a, 0xdd, 0xb0, 0x07, 0x29, 0xb0, 0xee, 0x79,
    0xf6, 0x43, 0x03, 0x94, 0x8f, 0x16, 0xd5, 0xaa,
    0x31, 0xe2, 0xcd, 0x38, 0x9c, 0x55, 0x77, 0xce,
    0x5b, 0x2c, 0xa4, 0xfb, 0x62, 0x8f, 0x18, 0x61,
    0x1d, 0x61, 0x46, 0xba, 0xb4, 0xdd, 0xd9, 0x80,
    0xc8, 0x16, 0x3f, 0x49, 0x73, 0xa8, 0xe0, 0x77,
    0xab, 0x94, 0xf1, 0x5f, 0x62, 0x0e, 0x8c, 0xf3,
    0x05, 0xeb, 0x5a, 0x25, 0x9e, 0x32, 0x27, 0xcc],
   [0xd7, 0x1d, 0x2d, 0xf8, 0x8e, 0xdb, 0x43, 0x85,
    0x60, 0xa6, 0xf6, 0x3f, 0xb9, 0x70, 0x1a, 0x43,
    0xa1, 0xc4, 0x92, 0x57, 0x38, 0x62, 0xe5, 0xbc,
    0x5b, 0x01, 0x0c, 0xea, 0xc4, 0x9e, 0x7f, 0x29,
    0x7a, 0x23, 0xb6, 0x1f, 0x49, 0xe0, 0x10, 0x76,
    0x9c, 0x4a, 0xcb, 0xa1, 0xe7, 0x8d, 0x2d, 0xd8,
    0x0f, 0xf9, 0x61, 0xc4, 0xa3, 0x95, 0xde, 0x0b,
    0xf5, 0x3c, 0x32, 0x57, 0x58, 0x62, 0x84, 0xbe]]

def PC1 : List (List Nat) :=
  [[57, 49, 41, 33, 25, 17,  9,  1],
   [58, 50, 42, 34, 26, 18, 10,  2],
   [59, 51, 43, 35, 27, 19, 11,  3],
   [60, 52, 44, 36, 63, 55, 47, 39],
   [31, 23, 15,  7, 62, 54, 46, 38],
   [30, 22, 14,  6, 61, 53, 45, 37],
   [29, 21, 13,  5, 28, 20, 12,  4]]

/-- An entry of a table with rows. -/
def entry (table : List (List Nat)) (i j : Nat) : Nat :=
  (table.getD i []).getD j 0

/-! ## Bytes and words -/

/-- Four bytes, and eight. -/
abbrev Word := Vector UInt8 4

abbrev Block := Vector UInt8 8

@[simp] theorem get_ofFn {n : Nat} (f : Fin n → UInt8) (i : Fin n) :
    (Vector.ofFn f).get i = f i := by
  show (Vector.ofFn f)[i.val] = f i
  rw [Vector.getElem_ofFn]

/-- A bit of a byte. -/
def bitOf (byte : UInt8) (k : Nat) : Bool := byte &&& (1 <<< UInt8.ofNat k) != 0

/-- The lowest bit. -/
def lowBit (byte : UInt8) : Bool := byte &&& 1 != 0

/-- A byte shifted right, with a bit coming in at the top. -/
def shiftIn (byte : UInt8) (bit : Bool) : UInt8 :=
  (byte >>> 1) ||| if bit then 0x80 else 0

/-! ## The permutations of the block -/

/-- `doPC1` on the eight bytes from the begin; the last one is zero. -/
def doPC1 (data : Memory) : Memory :=
  data.write 0
    ((List.range 8).map fun j =>
      (List.range (PC1.getD j []).length).foldl
        (fun buf i =>
          let lookup := entry PC1 j i
          buf ||| ((data (lookup / 8) >>> UInt8.ofNat (8 - lookup % 8)) &&& 1)
            <<< UInt8.ofNat (7 - i)) 0)

/-- The order in which the loops over `p` and `k` go through the bytes. -/
def places : List (Fin 8) := [3, 7, 2, 6, 1, 5, 0, 4]

/-- A bit of a byte goes into one of the bytes of the buffer. -/
def ipStep (s : UInt8 × Block) (place : Fin 8) : UInt8 × Block :=
  (s.1 >>> 1,
    s.2.set place.val (shiftIn (s.2.get place) (lowBit s.1)) place.isLt)

/-- A turn of `doIp`. -/
def ipByte (data buf : Block) (i : Nat) : Block :=
  (places.foldl ipStep (data.get (Fin.ofNat 8 i), buf)).2

/-- `doIp`; whatever was in the buffer is shifted out. -/
def doIp (data : Block) : Block :=
  (List.range 8).foldl (ipByte data) (Vector.replicate 8 0)

/-- A bit of one of the bytes of the data goes into `r`. -/
def ipBackStep (s : UInt8 × Block) (place : Fin 8) : UInt8 × Block :=
  (shiftIn s.1 (lowBit (s.2.get place)),
    s.2.set place.val (s.2.get place >>> 1) place.isLt)

/-- A turn of `doIp_1`: `r`, the data and the buffer. -/
def ipBackByte (s : (UInt8 × Block) × Block) (i : Nat) :
    (UInt8 × Block) × Block :=
  let next := places.foldl ipBackStep s.1
  (next, s.2.set (i % 8) next.1 (Nat.mod_lt i (by decide)))

/-- `doIp_1`. -/
def doIpBack (data : Block) : Block :=
  ((List.range 8).foldl ipBackByte ((0, data), Vector.replicate 8 0)).2

/-! ## The key -/

/-- A register for one half of the key: 28 bits. -/
structure Register where
  bytes : Word
  short : (bytes.get 3).toNat < 16

/-- The two halves of a key. -/
structure Keys where
  left : Register
  right : Register

/-- `makeK`. -/
def makeK (keys : Keys) : Block := Vector.ofFn fun i =>
  (List.range 6).foldl
    (fun (val : UInt8) j =>
      let bit := entry PC2 i j
      let on :=
        if bit < 29 then
          bitOf (keys.left.bytes.get (Fin.ofNat 4 ((28 - bit) / 8)))
            ((28 - bit) % 8)
        else
          bitOf (keys.right.bytes.get (Fin.ofNat 4 ((56 - bit) / 8)))
            ((56 - bit) % 8)
      val <<< 1 ||| if on then 1 else 0) 0

/-- A bit put on top of a smaller number. -/
theorem or_top {n k : Nat} (below : n < 2 ^ k) (bit : Bool) :
    n ||| (if bit then 2 ^ k else 0) = n + bit.toNat * 2 ^ k := by
  cases bit with
  | false => simp
  | true =>
      have sum := Nat.two_pow_add_eq_or_of_lt below 1
      rw [Nat.mul_one] at sum
      rw [if_pos rfl, Nat.or_comm, ← sum, Bool.toNat_true, Nat.one_mul,
        Nat.add_comm]

theorem toNat_half (byte : UInt8) : (byte >>> 1).toNat = byte.toNat / 2 := by
  rw [UInt8.toNat_shiftRight]
  show byte.toNat >>> 1 = byte.toNat / 2
  rw [Nat.shiftRight_eq_div_pow]

theorem toNat_shiftIn (byte : UInt8) (bit : Bool) :
    (shiftIn byte bit).toNat = byte.toNat / 2 + bit.toNat * 128 := by
  have below := byte.toNat_lt
  have top : (if bit then 0x80 else 0 : UInt8).toNat =
      if bit then 2 ^ 7 else 0 := by cases bit <;> rfl
  rw [shiftIn, UInt8.toNat_or, toNat_half, top]
  exact or_top (by omega) bit

theorem toNat_carry {byte : UInt8} (short : byte.toNat < 16) (carry : Bool) :
    ((byte >>> 1) ||| if carry then 0x08 else 0).toNat =
      byte.toNat / 2 + carry.toNat * 8 := by
  have top : (if carry then 0x08 else 0 : UInt8).toNat =
      if carry then 2 ^ 3 else 0 := by cases carry <;> rfl
  rw [UInt8.toNat_or, toNat_half, top]
  exact or_top (by omega) carry

/-- `rightRot`. -/
def rightRot (key : Register) : Register where
  bytes := Vector.ofFn fun i =>
    if i = 3 then
      (key.bytes.get 3 >>> 1) ||| if lowBit (key.bytes.get 0) then 0x08 else 0
    else shiftIn (key.bytes.get i) (lowBit (key.bytes.get (i + 1)))
  short := by
    have top := toNat_carry key.short (lowBit (key.bytes.get 0))
    have bit := (lowBit (key.bytes.get 0)).toNat_le
    have short := key.short
    rw [get_ofFn, if_pos rfl, top]
    omega

/-- `leftRot`, as 27 rotations to the right. -/
def leftRot (key : Register) : Register := rightRot^[27] key

def rightRotKeys (keys : Keys) : Keys :=
  { left := rightRot keys.left, right := rightRot keys.right }

def leftRotKeys (keys : Keys) : Keys :=
  { left := leftRot keys.left, right := leftRot keys.right }

/-! ## The round -/

/-- A nibble of the result of `desCore`. -/
def nibble (data : Word) (K : Block) (i : Fin 8) : UInt8 :=
  let val := (List.range 6).foldl
    (fun (val : UInt8) j =>
      let bit := 32 - entry E i j
      val <<< 1 |||
        if bitOf (data.get (Fin.ofNat 4 (3 - bit / 8))) (bit % 8) then 1 else 0) 0
  let val := (SBOXES.getD (i % 4) []).getD (val ^^^ K.get i).toNat 0
  (if i.val > 3 then val >>> 4 else val) &&& 0x0f

/-- `desCore`. -/
def desCore (data : Word) (K : Block) : Word := Vector.ofFn fun q =>
  (nibble data K (Fin.ofNat 8 (2 * q)) <<< 4) |||
    nibble data K (Fin.ofNat 8 (2 * q + 1))

/-- A turn of `permut32`: the 32 bits of `r` move up by one. -/
def permutStep (data r : Word) (i : Nat) : Word := Vector.ofFn fun q =>
  let bit := 32 - P.getD i 0
  let come :=
    if q = 3 then bitOf (data.get (Fin.ofNat 4 (3 - bit / 8))) (bit % 8)
    else bitOf (r.get (q + 1)) 7
  r.get q <<< 1 ||| if come then 1 else 0

/-- `permut32`. -/
def permut32 (data : Word) : Word :=
  (List.range 32).foldl (permutStep data) (Vector.replicate 4 0)

/-- The bits of `mode`: `DES_IP`, `DES_IP_1`, `DES_RIGHT` and `DES_HASH`. -/
structure Mode where
  ip : Bool
  ipBack : Bool
  right : Bool
  hash : Bool
  deriving DecidableEq, Repr

/-- What `desRound` does with the second half of the block, for the Viaccess
byte `k8` of the key. -/
def roundWord (hash : Bool) (k8 : UInt8) (keys : Keys) (half : Word) : Word :=
  let byte := (half.get 0).toNat
  let temp := (k8.toNat * byte + k8.toNat + byte) % 2 ^ 16
  let low := Int.subNatNat (temp % 256) (temp / 256)
  let first := UInt8.ofInt (if low < 0 then low + 1 else low)
  let tempr := half.set 0 first
  let r := permut32 (desCore tempr (makeK keys))
  if hash then (r.set 0 (r.get 1)).set 1 (r.get 0) else r

def mix (half other : Word) : Word := half.zipWith (· ^^^ ·) other

/-- Key and block in the loop of `des`. -/
abbrev State := Feistel.State Keys Word

/-- `desRound`, with the swap at its end. -/
def desRound (hash : Bool) (k8 : UInt8) (s : State) : State :=
  Feistel.round mix (roundWord hash k8) s

/-- Once or twice, by the top bit of `DESShift`. -/
def turnKeys (rotate : Keys → Keys) (shift : UInt16) (keys : Keys) : Keys :=
  if shift &&& 0x8000 = 0 then rotate (rotate keys) else rotate keys

/-- The loop of `des` up to a `DESShift` of zero; it has 16 bits. -/
def desLoop (mode : Mode) (k8 : UInt8) : Nat → UInt16 → State → State
  | 0, _, s => s
  | fuel + 1, shift, s =>
      let s :=
        if mode.right then
          let s := desRound mode.hash k8 s
          { s with key := turnKeys rightRotKeys shift s.key }
        else desRound mode.hash k8
          { s with key := turnKeys leftRotKeys shift s.key }
      if shift <<< 1 = 0 then s else desLoop mode k8 fuel (shift <<< 1) s

/-! ## One run -/

theorem low_nibble_short (byte : UInt8) : (byte &&& 0x0f).toNat < 16 := by
  have below : byte.toNat &&& 15 ≤ 15 := Nat.and_le_right
  rw [UInt8.toNat_and]
  exact Nat.lt_succ_of_le below

theorem high_nibble_short (byte : UInt8) : (byte >>> 4).toNat < 16 := by
  have below := byte.toNat_lt
  rw [UInt8.toNat_shiftRight]
  show byte.toNat >>> 4 < 16
  rw [Nat.shiftRight_eq_div_pow]
  omega

/-- The halves of a key that `doPC1` has permuted. -/
def keyHalves (key : Memory) : Keys where
  left :=
    { bytes := #v[(key 2 <<< 4) ||| (key 3 >>> 4),
        (key 1 <<< 4) ||| (key 2 >>> 4), (key 0 <<< 4) ||| (key 1 >>> 4),
        key 0 >>> 4]
      short := high_nibble_short (key 0) }
  right :=
    { bytes := #v[key 6, key 5, key 4, key 3 &&& 0x0f]
      short := low_nibble_short (key 3) }

def firstHalf (data : Block) : Word := Vector.ofFn fun i => data.get (i.castAdd 4)

def secondHalf (data : Block) : Word := Vector.ofFn fun i => data.get (i.natAdd 4)

def joinHalves (first second : Word) : Block := first ++ second

/-- `des`. -/
def des (key : Memory) (mode : Mode) (data : Block) : Block :=
  let shift := if mode.right then 0x8103 else 0xc081
  let data := if mode.ip then doIp data else data
  let s := desLoop mode (key 7) 16 shift
    { key := keyHalves key, left := firstHalf data, right := secondHalf data }
  let data := joinHalves s.right s.left
  if mode.ipBack then doIpBack data else data

/-! ## EuroDes -/

/-- The loop in `getmask`: `D` and `B`. -/
def maskStep (M : UInt8) (s : UInt8 × UInt8) : UInt8 × UInt8 :=
  let B := if lowBit s.1 then s.2 + M else s.2
  ((s.1 >>> 1) + ((B &&& 1) <<< 7), B >>> 1)

def getmask (outData : Block) (mask : Memory) (I J : UInt8) : UInt8 :=
  let K := I ^^^ J
  let far := K &&& 4 = 4
  let K := if far then K ^^^ 7 else K
  let DI : UInt8 := if far then 0 else 7
  let MI := 3 &&& J
  let K := (K ^^^ MI) + MI
  if K &&& 4 = 4 then 0
  else
    let D := outData.get (Fin.ofNat 8 (DI ^^^ J).toNat)
    ((maskStep (mask (J ^^^ 4).toNat))^[8] (D, 0)).1 ^^^ mask J.toNat

/-- The byte `I` of `cw` is masked. -/
def v2maskStep (mask : Memory) (cw : Block) (I J : Nat) : Block :=
  cw.set (I % 8)
    (cw.get (Fin.ofNat 8 I) ^^^ getmask cw mask (UInt8.ofNat I) (UInt8.ofNat J))
    (Nat.mod_lt I (by decide))

def v2mask (cw : Block) (mask : Memory) : Block :=
  let cw := (List.range 8).reverse.foldl
    (fun cw i => [7, 6, 5, 4].foldl (fun cw j => v2maskStep mask cw i j) cw) cw
  (List.range 8).foldl
    (fun cw i => [0, 1, 2, 3].foldl (fun cw j => v2maskStep mask cw i j) cw) cw

/-- `HASH` as operating mode. -/
abbrev hashMode : UInt8 := 1

/-- `F_EURO_S2` and `F_TRIPLE_DES` as flags. -/
abbrev flagEuroS2 : UInt8 := 1

abbrev flagTripleDes : UInt8 := 2

def ecmCrypt : Mode :=
  { ip := false, ipBack := false, right := false, hash := false }

def ecmHash : Mode := { ecmCrypt with hash := true }

def ecs2Crypt : Mode := { ecmCrypt with ip := true, ipBack := true }

def ecs2Decrypt : Mode := { ecs2Crypt with right := true }

/-- `EuroDes`; it is always called with a second key. -/
def euroDes (key1 key2 : Memory) (desMode operatingMode : UInt8)
    (data : Block) : Block :=
  let hash := operatingMode = hashMode
  if key1 7 ≠ 0 then -- Viaccess
    let data := v2mask data key2
    let data := des key1 (if hash then ecmHash else ecmCrypt) data
    v2mask data key2
  else if desMode &&& flagTripleDes ≠ 0 then
    let mode := { ecmCrypt with right := !hash }
    let data := des key1 { mode with ip := true } data
    let data := des key2 { mode with right := !mode.right } data
    des key1 { mode with ipBack := true } data
  else
    let mode :=
      if desMode &&& flagEuroS2 ≠ 0 then
        if hash then ecs2Crypt else ecs2Decrypt
      else if hash then ecmHash else ecmCrypt
    des key1 mode data

/-! ## The key of a connection -/

/-- `des_key_parity_adjust` of a byte. -/
def parityAdjust (byte : UInt8) : UInt8 :=
  let parity := (List.range 7).foldl
    (fun parity j => if bitOf byte (j + 1) then ~~~parity &&& 1 else parity)
    (1 : UInt8)
  byte ||| parity

/-- A byte of `des_key_spread`, from the eight bytes that seven are spread
to. -/
def spreadByte (normal : Memory) (i : Nat) : UInt8 :=
  let off := i / 8 * 7
  let j := i % 8
  if j = 0 then normal off &&& 0xfe
  else if j = 7 then normal (off + 6) <<< 1
  else
    ((normal (off + j - 1) <<< UInt8.ofNat (8 - j)) |||
      (normal (off + j) >>> UInt8.ofNat j)) &&& 0xfe

/-- `des_key_spread`. -/
def keySpread (normal : Memory) : Memory :=
  Memory.zero.write 0
    ((List.range 16).map fun i => parityAdjust (spreadByte normal i))

/-- `des14` of `des_login_key_get`: the first key, mixed with the `len` bytes of
the second. -/
def mixedKey (key1 key2 : Memory) (len : Nat) : Memory :=
  (List.range len).foldl
    (fun des14 i =>
      des14.write (i % 14) [des14 (i % 14) ^^^ key2 i]) key1

/-- `des_login_key_get`: the two keys of eight bytes. -/
def loginKeyGet (key1 key2 : Memory) (len : Nat) : Memory × Memory :=
  let des16 := keySpread (mixedKey key1 key2 len)
  (doPC1 des16, doPC1 (des16.shift 8))

end Oscam.Des
