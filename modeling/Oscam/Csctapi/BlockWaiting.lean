import Oscam.Csctapi.Atr
import Oscam.Stat.Records

/-!
# Waiting times of a T=1 card

What `InitCard` takes from the answer to reset of a T=1 card, with the block
waiting time as the code computes it: the product is an `int`, the clock rate
a `uint32_t`, and the field has 16 bits.
-/

namespace Oscam.Reset

open Stat (int32)

/-- `DEFAULT_IFSC`. -/
abbrev defaultIfsc : Nat := 32

/-- `MAX_IFSC`. -/
abbrev maxIfsc : Nat := 251

/-- `DEFAULT_CWI`. -/
abbrev defaultCwi : Nat := 13

/-- `DEFAULT_BWI`. -/
abbrev defaultBwi : Nat := 4

/-- `ICC_Async_GetClockRate`. -/
def getClockRate (cardmhz : Int) : Nat :=
  if cardmhz = 357 ∨ cardmhz = 358 then 372 * 9600
  else if cardmhz = 368 then 384 * 9600
  else (cardmhz * 10000 % 2 ^ 32).toNat

/-- `(1<<bwi) * 960 * 372 * 9600`, one `int` after the other. -/
def bwtProduct (bwi : Nat) : Int :=
  int32 (int32 (int32 (2 ^ bwi * 960) * 372) * 9600)

/-- The value for `reader->BWT`; nothing where it is divided by zero.  The
division is one of unsigned numbers, since the clock rate is. -/
def computeBwt (bwi : Nat) (cardmhz : Int) : Option Nat :=
  let rate := getClockRate cardmhz
  if rate = 0 then none
  else
    some (((bwtProduct bwi % 2 ^ 32).toNat / rate % 2 ^ 16 + 11) % 2 ^ 16)

/-- The fields of a reader that are set for a T=1 card. -/
structure T1Settings where
  ifsc : Nat
  cwt : Nat
  bwt : Nat
  deriving DecidableEq, Repr

/-- The information field size from TA3. -/
def ifscOf (smargopatch : Bool) (ta : Answer UInt8) : Nat :=
  let ifsc :=
    match ta with
    | .ok ta => if ta ≠ 0x00 ∧ ta ≠ 0xFF then ta.toNat else defaultIfsc
    | _ => defaultIfsc
  if smargopatch then min ifsc 28 else min ifsc maxIfsc

/-- CWI from TB3. -/
def cwiOf : Answer UInt8 → Nat
  | .ok tb => (tb &&& 0x0F).toNat
  | _ => defaultCwi

/-- BWI from TB3. -/
def bwiOf : Answer UInt8 → Nat
  | .ok tb => (tb >>> 4).toNat
  | _ => defaultBwi

/-- The case of `InitCard` for T=1, up to the waiting times. -/
def initT1 (atr : Atr) (cardmhz : Int) (smargopatch : Bool) :
    Option T1Settings :=
  (atr.getInterfaceByte 3 .ta).bind fun ta =>
    (atr.getInterfaceByte 3 .tb).bind fun tb =>
      (computeBwt (bwiOf tb) cardmhz).map fun bwt =>
        { ifsc := ifscOf smargopatch ta
          cwt := (2 ^ cwiOf tb + 11) % 2 ^ 16
          bwt }

/-! ## The product -/

/-- The product without a bound. -/
def wholeProduct (bwi : Nat) : Nat := 2 ^ bwi * 960 * 372 * 9600

theorem wholeProduct_eq (bwi : Nat) :
    wholeProduct bwi = 2 ^ bwi * 3428352000 := by
  simp only [wholeProduct, Nat.mul_assoc]

theorem bwtProduct_eq (bwi : Nat) :
    bwtProduct bwi = int32 (wholeProduct bwi) := by
  unfold bwtProduct int32 wholeProduct
  rw [Int.bmod_mul_bmod, Int.mul_assoc _ 372, Int.bmod_mul_bmod,
    ← Int.mul_assoc]
  push_cast
  rfl

theorem le_wholeProduct (bwi : Nat) : 3428352000 ≤ wholeProduct bwi := by
  rw [wholeProduct_eq]
  exact Nat.le_mul_of_pos_left _ (Nat.two_pow_pos bwi)

/-- No BWI is so small that the product is an `int`. -/
theorem bwtProduct_ne (bwi : Nat) : bwtProduct bwi ≠ wholeProduct bwi := by
  have large := le_wholeProduct bwi
  have small : int32 (wholeProduct bwi) < 2 ^ 31 :=
    Int.bmod_lt (by decide)
  rw [bwtProduct_eq]
  omega

theorem bwtProduct_emod (bwi : Nat) :
    (bwtProduct bwi % 2 ^ 32).toNat = wholeProduct bwi % 2 ^ 32 := by
  have residue : bwtProduct bwi % ((2 ^ 32 : Nat) : Int) =
      wholeProduct bwi % ((2 ^ 32 : Nat) : Int) := by
    rw [bwtProduct_eq]
    exact Int.bmod_emod
  change (bwtProduct bwi % ((2 ^ 32 : Nat) : Int)).toNat = _
  rw [residue, ← Int.natCast_emod, Int.toNat_natCast]

theorem getClockRate_lt (cardmhz : Int) : getClockRate cardmhz < 2 ^ 32 := by
  unfold getClockRate
  split
  · decide
  · split
    · decide
    · have small := Int.emod_lt_of_pos (cardmhz * 10000)
        (show (0 : Int) < 2 ^ 32 by decide)
      omega

/-! ## The value that is stored -/

/-- The block waiting time of the standard, in ETU. -/
def blockWaitingTime (bwi rate : Nat) : Nat := wholeProduct bwi / rate + 11

/-- From a product that does not fit into 32 bits, too little is left for any
clock rate. -/
theorem wrapped_lt {product rate : Nat} (positive : 0 < rate)
    (small : rate < 2 ^ 32) (large : 2 ^ 32 ≤ product) :
    product % 2 ^ 32 / rate < product / rate := by
  have parts := Nat.mod_add_div product (2 ^ 32)
  have one : 1 ≤ product / 2 ^ 32 := (Nat.one_le_div_iff (by decide)).mpr large
  have least : product % 2 ^ 32 + rate ≤ product := by omega
  calc product % 2 ^ 32 / rate
    _ < product % 2 ^ 32 / rate + 1 := Nat.lt_succ_self _
    _ = (product % 2 ^ 32 + rate) / rate :=
      (Nat.add_div_right _ positive).symm
    _ ≤ product / rate := Nat.div_le_div_right least

theorem wholeProduct_succ_large (bwi : Nat) :
    2 ^ 32 ≤ wholeProduct (bwi + 1) := by
  have large := le_wholeProduct bwi
  rw [wholeProduct_eq] at large ⊢
  rw [Nat.pow_succ]
  omega

/-- The value is the right one exactly if BWI is zero, the clock rate is not,
and the field is large enough. -/
theorem computeBwt_eq_iff (bwi : Nat) (cardmhz : Int) :
    computeBwt bwi cardmhz =
        some (blockWaitingTime bwi (getClockRate cardmhz)) ↔
      bwi = 0 ∧ getClockRate cardmhz ≠ 0 ∧
        blockWaitingTime 0 (getClockRate cardmhz) < 2 ^ 16 := by
  have fits := getClockRate_lt cardmhz
  unfold computeBwt blockWaitingTime
  generalize getClockRate cardmhz = rate at fits ⊢
  dsimp only
  by_cases zero : rate = 0
  · rw [if_pos zero]
    exact iff_of_false (by simp) fun right => right.2.1 zero
  · rw [if_neg zero, Option.some.injEq, bwtProduct_emod]
    cases bwi with
    | zero =>
        have exact : wholeProduct 0 % 2 ^ 32 = wholeProduct 0 := rfl
        rw [exact]
        generalize wholeProduct 0 / rate = quotient
        omega
    | succ bwi =>
        have less := wrapped_lt (Nat.pos_of_ne_zero zero) fits
          (wholeProduct_succ_large bwi)
        refine iff_of_false ?_ fun right => Nat.succ_ne_zero bwi right.1
        generalize wholeProduct (bwi + 1) % 2 ^ 32 / rate = stored at less ⊢
        omega

/-- What is expected of the block waiting time: the product is an `int`, and
the field holds the whole value. -/
structure BwtRight (bwi : Nat) (cardmhz : Int) (bwt : Option Nat) : Prop where
  product : bwtProduct bwi = wholeProduct bwi
  value : bwt = some (blockWaitingTime bwi (getClockRate cardmhz))

/-- A row that is there has an answer for every character. -/
theorem getInterfaceByte_isSome {atr : Atr} {number : Nat}
    {character : Character} {value : Answer UInt8}
    (found : atr.getInterfaceByte number character = some value)
    (other : Character) :
    ∃ answer, atr.getInterfaceByte number other = some answer := by
  unfold Atr.getInterfaceByte at found ⊢
  by_cases out : atr.pn < number ∨ number < 1
  · rw [if_pos out]
    exact ⟨_, rfl⟩
  · rw [if_neg out] at found ⊢
    obtain ⟨row, here, -⟩ := Option.map_eq_some_iff.mp found
    rw [here]
    exact ⟨_, rfl⟩

theorem initT1_bwt {atr : Atr} {tb : UInt8}
    (found : atr.getInterfaceByte 3 .tb = some (.ok tb)) (cardmhz : Int)
    (smargopatch : Bool) :
    (initT1 atr cardmhz smargopatch).map (·.bwt) =
      computeBwt (tb >>> 4).toNat cardmhz := by
  obtain ⟨ta, here⟩ := getInterfaceByte_isSome found .ta
  unfold initT1
  rw [here, Option.bind_some, found, Option.bind_some, Option.map_map]
  exact Option.map_id'

/-- Whatever TB3 and the clock say, the product wraps.  What is stored is
right all the same exactly if BWI is zero and the value fits into the
field. -/
theorem bwt_product_always_wraps {atr : Atr} {tb : UInt8}
    (found : atr.getInterfaceByte 3 .tb = some (.ok tb)) (cardmhz : Int)
    (smargopatch : Bool) :
    ¬ BwtRight (tb >>> 4).toNat cardmhz
        ((initT1 atr cardmhz smargopatch).map (·.bwt)) ∧
      ((initT1 atr cardmhz smargopatch).map (·.bwt) =
          some (blockWaitingTime (tb >>> 4).toNat (getClockRate cardmhz)) ↔
        (tb >>> 4).toNat = 0 ∧ getClockRate cardmhz ≠ 0 ∧
          blockWaitingTime 0 (getClockRate cardmhz) < 2 ^ 16) := by
  constructor
  · intro right
    exact bwtProduct_ne _ right.product
  · rw [initT1_bwt found]
    exact computeBwt_eq_iff _ cardmhz

theorem two_lt_maxProtocols : 2 < maxProtocols := by decide

/-- The structure of a card with BWI 4 and CWI 5. -/
def atrBwi4 : Atr :=
  { emptyAtr.setIb ⟨2, two_lt_maxProtocols⟩ .tb ⟨0x45, true⟩ with pn := 3 }

theorem bwt_wraps_for_bwi4 : ¬ BwtRight 4 357 (some 938) :=
  (bwt_product_always_wraps (show atrBwi4.getInterfaceByte 3 .tb =
    some (.ok 0x45) from rfl) 357 false).1

/-- With BWI 4 and the usual clock, 938 ETU are stored instead of 15371. -/
theorem bwt_not_right : ¬ ∀ (atr : Atr) (tb : UInt8) (cardmhz : Int)
    (smargopatch : Bool), atr.getInterfaceByte 3 .tb = some (.ok tb) →
    (tb >>> 4).toNat ≤ 9 → 1 ≤ cardmhz →
    BwtRight (tb >>> 4).toNat cardmhz
      ((initT1 atr cardmhz smargopatch).map (·.bwt)) := by
  intro always
  have right := always atrBwi4 0x45 357 false rfl (by decide) (by decide)
  have stored : some 938 = some 15371 := right.value
  simp at stored

end Oscam.Reset
