import Oscam.Lib.Memory
import Oscam.Lib.StableOrder

/-!
# Sorting nanos

A nano is a tag, the length of its data and the data.  `dvbapi_sort_nanos`
copies the nanos of an area to another one, all with the smallest tag first,
then all with the next one, and so on.
-/

namespace Oscam.Dvbapi

open StableOrder (Stable buckets)

/-! ## Nanos in the memory -/

/-- The size of the nano at `j`. -/
def nanoLen (m : Memory) (j : Nat) : Nat := (m (j + 1)).toNat + 2

/-- The nanos that begin before `stop`. -/
def nanos (m : Memory) (stop j : Nat) : List (List UInt8) :=
  if j < stop then
    m.read j (nanoLen m j) :: nanos m stop (j + nanoLen m j)
  else []
  termination_by stop - j
  decreasing_by unfold nanoLen; omega

/-- Where the last one of these nanos ends. -/
def nanosEnd (m : Memory) (stop j : Nat) : Nat :=
  if j < stop then nanosEnd m stop (j + nanoLen m j) else j
  termination_by stop - j
  decreasing_by unfold nanoLen; omega

def tag (nano : List UInt8) : Nat := (nano.headD 0).toNat

/-! ## The code -/

/-- One pass of `dvbapi_sort_nanos` over the nanos from `j` on, which copies
those with the tag `c`, and finds the next tag.  Nothing comes out when the
sanity check fails. -/
def sortPass (src : Memory) (len : Nat) (c : Int) (j : Nat)
    (dest : List UInt8) (n : Int) : Option (List UInt8 × Int) :=
  if j < len then
    let l := nanoLen src j
    let tag : Int := (src j).toNat
    if tag = c then
      if len < dest.length + l then none
      else sortPass src len c (j + l) (dest ++ src.read j l) n
    else sortPass src len c (j + l) dest (if c < tag ∧ tag < n then tag else n)
  else some (dest, n)
  termination_by len - j
  decreasing_by all_goals unfold nanoLen; omega

/-- The passes of `dvbapi_sort_nanos`, each for a larger tag than before. -/
def sortPasses (src : Memory) (len : Nat) :
    Nat → Int → List UInt8 → List UInt8
  | 0, _, dest => dest
  | passes + 1, c, dest =>
      match sortPass src len c 0 dest 256 with
      | none => List.replicate len 0
      | some (dest, n) =>
          if n = 256 then dest else sortPasses src len passes n dest

/-- `dvbapi_sort_nanos`: what is written to `dest`.  There are 256 tags, and
one pass before the first of them. -/
def dvbapiSortNanos (src : Memory) (len : Nat) : List UInt8 :=
  sortPasses src len 257 (-1) []

/-! ## Areas of whole nanos -/

/-- The bytes are a tag, a length and as many bytes. -/
def IsNano (nano : List UInt8) : Prop :=
  nano.length = (nano.getD 1 0).toNat + 2

instance (nano : List UInt8) : Decidable (IsNano nano) :=
  inferInstanceAs (Decidable (_ = _))

/-- Whole nanos one behind the other. -/
structure Nanos (m : Memory) (off : Nat) (ns : List (List UInt8)) : Prop where
  whole : ∀ nano ∈ ns, IsNano nano
  bytes : m.read off ns.flatten.length = ns.flatten

variable {m src : Memory} {off stop j len k : Nat} {nano dest : List UInt8}
  {ns : List (List UInt8)} {c n : Int}

theorem nanos_of_lt (m : Memory) (inside : j < stop) :
    nanos m stop j =
      m.read j (nanoLen m j) :: nanos m stop (j + nanoLen m j) := by
  rw [nanos, if_pos inside]

theorem nanos_of_not_lt (m : Memory) (outside : ¬ j < stop) :
    nanos m stop j = [] := by
  rw [nanos, if_neg outside]

theorem tag_lt (nano : List UInt8) : tag nano < 256 := UInt8.toNat_lt _

theorem Nanos.nil (m : Memory) (off : Nat) : Nanos m off [] where
  whole _ member := absurd member List.not_mem_nil
  bytes := rfl

/-- The first nano, and those behind it. -/
theorem Nanos.head (stream : Nanos m off (nano :: ns)) :
    m.read off nano.length = nano ∧ nanoLen m off = nano.length ∧
      (m off).toNat = tag nano ∧ Nanos m (off + nano.length) ns := by
  have long : nano.length = (nano.getD 1 0).toNat + 2 :=
    stream.whole nano List.mem_cons_self
  have bytes := stream.bytes
  rw [List.flatten_cons, List.length_append, Memory.read_add] at bytes
  have first : m.read off nano.length = nano :=
    List.append_inj_left bytes (Memory.length_read _ _ _)
  have byte (i : Nat) (inside : i < nano.length) :
      nano.getD i 0 = m (off + i) := by
    conv_lhs => rw [← first]
    exact Memory.getD_read m off inside
  refine ⟨first, ?_, ?_, ?_⟩
  · rw [long, nanoLen, byte 1 (by omega)]
  · have front : nano.headD 0 = nano.getD 0 0 := by cases nano <;> rfl
    unfold tag
    rw [front, byte 0 (by omega), Nat.add_zero]
  · exact ⟨fun other member => stream.whole other
      (List.mem_cons_of_mem nano member),
      List.append_inj_right bytes (Memory.length_read _ _ _)⟩

theorem Nanos.cons (long : nanoLen m off = nano.length)
    (first : m.read off nano.length = nano)
    (behind : Nanos m (off + nano.length) ns) : Nanos m off (nano :: ns) where
  whole other member := by
    rcases List.mem_cons.mp member with rfl | rest
    · unfold IsNano
      have inside : 1 < other.length := by
        rw [← long, nanoLen]
        omega
      have byte : other.getD 1 0 = m (off + 1) := by
        conv_lhs => rw [← first]
        exact Memory.getD_read m off inside
      rw [byte, ← long]
      rfl
    · exact behind.whole other rest
  bytes := by
    rw [List.flatten_cons, List.length_append, Memory.read_add, first,
      behind.bytes]

theorem Nanos.two_le (stream : Nanos m off (nano :: ns)) :
    2 ≤ nano.length := by
  have long : nano.length = (nano.getD 1 0).toNat + 2 :=
    stream.whole nano List.mem_cons_self
  omega

/-- The nanos that a loop finds are whole, as long as the memory goes on. -/
theorem nanos_whole (m : Memory) (stop j : Nat) :
    Nanos m j (nanos m stop j) := by
  fun_induction nanos m stop j with
  | case1 j inside induction =>
      refine .cons ?_ ?_ ?_
      · rw [Memory.length_read]
      · rw [Memory.length_read]
      · rwa [Memory.length_read]
  | case2 j outside => exact .nil m j

theorem nanosEnd_eq (m : Memory) (stop j : Nat) :
    nanosEnd m stop j = j + (nanos m stop j).flatten.length := by
  fun_induction nanos m stop j with
  | case1 j inside induction =>
      rw [nanosEnd, if_pos inside, induction, List.flatten_cons,
        List.length_append, Memory.length_read]
      omega
  | case2 j outside =>
      rw [nanosEnd, if_neg outside]
      rfl

/-! ## One pass -/

/-- The next tag, as far as it is found in some nanos. -/
def nextTag (c : Int) (n : Int) (ns : List (List UInt8)) : Int :=
  ns.foldl (fun n nano =>
    if c < (tag nano : Int) ∧ (tag nano : Int) < n then tag nano else n) n

theorem nextTag_le (c n : Int) (ns : List (List UInt8)) :
    nextTag c n ns ≤ n := by
  induction ns generalizing n with
  | nil => exact le_refl n
  | cons nano ns induction =>
      unfold nextTag
      rw [List.foldl_cons]
      refine (induction _).trans ?_
      split
      · next found => exact Int.le_of_lt found.2
      · exact le_refl n

theorem lt_nextTag (larger : c < n) (ns : List (List UInt8)) :
    c < nextTag c n ns := by
  induction ns generalizing n with
  | nil => exact larger
  | cons nano ns induction =>
      unfold nextTag
      rw [List.foldl_cons]
      apply induction
      split
      · next found => exact found.1
      · exact larger

/-- There is no tag in between. -/
theorem nextTag_gap (c n : Int) (ns : List (List UInt8)) :
    ∀ nano ∈ ns, (tag nano : Int) ≤ c ∨ nextTag c n ns ≤ (tag nano : Int) := by
  induction ns generalizing n with
  | nil => exact fun _ member => absurd member List.not_mem_nil
  | cons nano ns induction =>
      intro other member
      unfold nextTag
      rw [List.foldl_cons]
      rcases List.mem_cons.mp member with rfl | behind
      · by_cases small : (tag other : Int) ≤ c
        · exact .inl small
        · right
          refine (nextTag_le c _ ns).trans ?_
          split
          · exact le_refl _
          · omega
      · exact induction _ other behind

/-- A pass over whole nanos copies those with its tag. -/
theorem sortPass_eq (stream : Nanos src j ns)
    (whole : j + ns.flatten.length = len)
    (room : dest.length + (ns.filter fun nano =>
      (tag nano : Int) = c).flatten.length ≤ len) :
    sortPass src len c j dest n =
      some (dest ++ (ns.filter fun nano => (tag nano : Int) = c).flatten,
        nextTag c n ns) := by
  induction ns generalizing j dest n with
  | nil =>
      have stop : ¬ j < len := by
        rw [← whole]
        exact Nat.lt_irrefl j
      rw [sortPass, if_neg stop]
      simp [nextTag]
  | cons nano ns induction =>
      obtain ⟨bytes, long, first, behind⟩ := stream.head
      have two := stream.two_le
      rw [List.flatten_cons, List.length_append] at whole
      have rest : j + nano.length + ns.flatten.length = len := by omega
      rw [sortPass, if_pos (by omega)]
      simp only [long, first, bytes]
      by_cases here : (tag nano : Int) = c
      · rw [List.filter_cons_of_pos (by simpa using here), List.flatten_cons,
          List.length_append] at room
        have same : nextTag c n (nano :: ns) = nextTag c n ns := by
          unfold nextTag
          rw [List.foldl_cons, if_neg (by omega)]
        rw [if_pos here, if_neg (by omega),
          induction behind rest (by rw [List.length_append]; omega), same,
          List.filter_cons_of_pos (by simpa using here), List.flatten_cons,
          List.append_assoc]
      · rw [List.filter_cons_of_neg (by simpa using here)] at room ⊢
        rw [if_neg here, induction behind rest room]
        rfl

/-! ## All passes -/

theorem length_flatten_perm {first second : List (List UInt8)}
    (same : first.Perm second) :
    first.flatten.length = second.flatten.length := by
  rw [List.length_flatten, List.length_flatten]
  exact (same.map List.length).sum_nat

/-- The nanos in the order of their tags. -/
def sorted (ns : List (List UInt8)) : List (List UInt8) := buckets tag ns 256

theorem sorted_stable (ns : List (List UInt8)) : Stable tag (sorted ns) ns :=
  StableOrder.stable_buckets fun nano _ => tag_lt nano

theorem length_sorted (ns : List (List UInt8)) :
    (sorted ns).flatten.length = ns.flatten.length :=
  length_flatten_perm (sorted_stable ns).perm

theorem length_buckets_le (ns : List (List UInt8)) (below : k ≤ 256) :
    (buckets tag ns k).flatten.length ≤ ns.flatten.length := by
  obtain ⟨rest, whole⟩ := StableOrder.buckets_prefix tag ns below
  rw [← length_sorted ns, sorted, ← whole, List.flatten_append,
    List.length_append]
  exact Nat.le_add_right _ _

/-- What a pass adds, when all smaller tags are there. -/
theorem buckets_next (ns : List (List UInt8)) (start : -1 ≤ c) :
    buckets tag ns (c + 1).toNat = buckets tag ns c.toNat ++
      ns.filter fun nano => (tag nano : Int) = c := by
  rcases Int.lt_or_le c 0 with before | after
  · obtain rfl : c = -1 := by omega
    have none : (ns.filter fun nano => (tag nano : Int) = -1) = [] := by
      rw [List.filter_eq_nil_iff]
      intro nano _ here
      have found := of_decide_eq_true here
      omega
    rw [none]
    rfl
  · obtain ⟨t, rfl⟩ := Int.eq_ofNat_of_zero_le after
    have next : ((t : Int) + 1).toNat = t + 1 := by omega
    rw [next, Int.toNat_natCast, StableOrder.buckets_succ]
    simp only [Nat.cast_inj]

theorem sortPasses_eq (stream : Nanos src 0 ns)
    (whole : ns.flatten.length = len) {passes : Nat} (start : -1 ≤ c)
    (below : c < 256) (enough : 256 - c ≤ passes) :
    sortPasses src len passes c (buckets tag ns c.toNat).flatten =
      (sorted ns).flatten := by
  induction passes generalizing c with
  | zero => omega
  | succ passes induction =>
      have next := buckets_next ns start
      have room : (buckets tag ns c.toNat).flatten.length +
          (ns.filter fun nano => (tag nano : Int) = c).flatten.length ≤
            len := by
        rw [← List.length_append, ← List.flatten_append, ← next, ← whole]
        exact length_buckets_le ns (by omega)
      rw [sortPasses, sortPass_eq stream (by omega) room]
      simp only [← List.flatten_append, ← next]
      have larger := lt_nextTag below ns
      have limit := nextTag_le c 256 ns
      have gap : buckets tag ns (nextTag c 256 ns).toNat =
          buckets tag ns (c + 1).toNat := by
        refine StableOrder.buckets_gap (by omega) fun nano member => ?_
        rcases nextTag_gap c 256 ns nano member with small | large
        · left
          omega
        · right
          omega
      by_cases last : nextTag c 256 ns = 256
      · rw [if_pos last, ← gap, last]
        rfl
      · rw [if_neg last, ← gap]
        exact induction (by omega) (by omega) (by omega)

/-- Whole nanos come out in a stable order. -/
theorem dvbapiSortNanos_eq (stream : Nanos src 0 ns) :
    dvbapiSortNanos src ns.flatten.length = (sorted ns).flatten :=
  sortPasses_eq stream rfl (le_refl _) (by decide) (by decide)

end Oscam.Dvbapi
