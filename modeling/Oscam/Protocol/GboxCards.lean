import Oscam.Lib.Holds

/-!
# The cards in a message of gbox

A hello of a gbox peer has the cards in groups of one provider.  `gbox_recv`
goes from group to group as long as one begins in front of a limit.
-/

namespace Oscam.Gbox

open Memory

/-- `struct gbox_card`. -/
@[ext]
structure GboxCard where
  peerId : Nat
  provid : Nat
  slot : Nat
  dist : Nat
  lvl : Nat
  deriving DecidableEq, Repr

/-! ## Reading -/

/-- The card at `ptr`. -/
def cardAt (data : Memory) (provid ptr : Nat) : GboxCard :=
  { provid := provid
    slot := (data ptr).toNat
    dist := (data (ptr + 1) &&& 0xf).toNat
    lvl := (data (ptr + 1) >>> 4).toNat
    peerId := data.number (ptr + 2) 2 }

/-- The loop over the cards of a group: the cards, the place behind them and the
number of calls of `cs_malloc`.  Without memory for a card `ptr` stays. -/
def readCards (memory : Nat → Bool) (data : Memory) (provid : Nat) :
    (ncards ptr calls : Nat) → List GboxCard × Nat × Nat
  | 0, ptr, calls => ([], ptr, calls)
  | ncards + 1, ptr, calls =>
      if memory calls then
        let rest := readCards memory data provid ncards (ptr + 4) (calls + 1)
        (cardAt data provid ptr :: rest.1, rest.2)
      else readCards memory data provid ncards ptr (calls + 1)

theorem le_readCards (memory : Nat → Bool) (data : Memory)
    (provid ncards ptr calls : Nat) :
    ptr ≤ (readCards memory data provid ncards ptr calls).2.1 := by
  induction ncards generalizing ptr calls with
  | zero => exact Nat.le_refl ptr
  | succ ncards induction =>
      unfold readCards
      split
      · exact Nat.le_trans (Nat.le_add_right ptr 4)
          (induction (ptr + 4) (calls + 1))
      · exact induction ptr (calls + 1)

/-- The loop over the groups that begin in front of `limit`. -/
def readGroups (memory : Nat → Bool) (data : Memory) (limit ptr calls : Nat) :
    List GboxCard :=
  if ptr < limit then
    let cards := readCards memory data (data.number ptr 4)
      (data (ptr + 4)).toNat (ptr + 5) calls
    cards.1 ++ readGroups memory data limit cards.2.1 cards.2.2
  else []
termination_by limit - ptr
decreasing_by
  have behind := le_readCards memory data (data.number ptr 4)
    (data (ptr + 4)).toNat (ptr + 5) calls
  omega

/-! ## Writing -/

/-- A card fits in its four bytes. -/
structure GboxCard.Fits (card : GboxCard) : Prop where
  slot : card.slot < 256
  dist : card.dist < 16
  lvl : card.lvl < 16
  peerId : card.peerId < 256 ^ 2

def GboxCard.bytes (card : GboxCard) : List UInt8 :=
  UInt8.ofNat card.slot :: UInt8.ofNat (16 * card.lvl + card.dist) ::
    digits 2 card.peerId

/-- The cards of one provider in a hello. -/
structure CardGroup where
  provid : Nat
  cards : List GboxCard
  provid_lt : provid < 256 ^ 4
  few : cards.length < 256
  own : ∀ card ∈ cards, card.provid = provid
  fits : ∀ card ∈ cards, card.Fits

def CardGroup.bytes (group : CardGroup) : List UInt8 :=
  digits 4 group.provid ++ UInt8.ofNat group.cards.length ::
    group.cards.flatMap GboxCard.bytes

variable {memory : Nat → Bool} {data : Memory} {provid ptr calls : Nat}

theorem length_bytes (card : GboxCard) : card.bytes.length = 4 := by
  unfold GboxCard.bytes
  rw [List.length_cons, List.length_cons, length_digits]

/-- The two halves of the byte with the level and the distance. -/
theorem halves (lvl dist : Nat) (low : dist < 16) (high : lvl < 16) :
    (UInt8.ofNat (16 * lvl + dist) &&& 0xf).toNat = dist ∧
      (UInt8.ofNat (16 * lvl + dist) >>> 4).toNat = lvl := by
  constructor
  · rw [UInt8.toNat_and]
    show ((16 * lvl + dist) % 256) &&& (2 ^ 4 - 1) = dist
    rw [Nat.and_two_pow_sub_one_eq_mod]
    omega
  · rw [UInt8.toNat_shiftRight]
    show ((16 * lvl + dist) % 256) >>> 4 = lvl
    rw [Nat.shiftRight_eq_div_pow]
    omega

theorem length_flatMap_bytes (cards : List GboxCard) :
    (cards.flatMap GboxCard.bytes).length = 4 * cards.length := by
  induction cards with
  | nil => rfl
  | cons card cards induction =>
      rw [List.flatMap_cons, List.length_append, length_bytes, induction,
        List.length_cons]
      omega

theorem CardGroup.length_bytes (group : CardGroup) :
    group.bytes.length = 5 + 4 * group.cards.length := by
  unfold CardGroup.bytes
  rw [List.length_append, length_digits, List.length_cons,
    length_flatMap_bytes]
  omega

end Oscam.Gbox
