import Oscam.Dvbapi.Bounds

/-!
# What the parser of the CAT reads

The length of the buffer is never looked at, and neither is the number of EMM
pids inside a descriptor.  With this the conditions of all parsers are known.
-/

namespace Oscam.Dvbapi

/-! ## Descriptors of the CAT -/

/-- The bytes that are looked at in a CA descriptor lie in the buffer. -/
def CatDescriptorFits (m : Memory) (len i : Nat) : Prop :=
  let length := (m (i + 1)).toNat
  let system := (m (i + 2)).toNat % 32
  i + 6 ≤ len ∧
    if system = 0x01 then
      6 ≤ length → i + 11 + 4 * ((length - 6) / 4) ≤ len
    else if system = 0x05 then
      ∀ k ∈ catViaccessParts m i, k + (if m k = 0x14 then 5 else 2) ≤ len
    else if system = 0x18 ∧ m (i + 1) = 0x07 then i + 9 ≤ len
    else True

/-- The number of EMM pids of a CA descriptor. -/
def catEntries (m : Memory) (i : Nat) : Nat :=
  let system := (m (i + 2)).toNat % 32
  if system = 0x01 then 1 + (catSecaPids m i).length
  else if system = 0x05 then
    (catViaccessParts m i).countP fun k => decide (m k = 0x14)
  else 1

/-- Every descriptor that the loop comes to lies in the buffer, and its pids
have room in the table; with a full table only the tag is looked at. -/
def CatDescriptorsFit (m : Memory) (len : Nat) : List Nat → Demux → Prop
  | [], _ => True
  | i :: rest, d =>
      if m i ≠ 0x09 then i + 2 ≤ len ∧ CatDescriptorsFit m len rest d
      else if ecmPids ≤ d.emmPids.length then i < len
      else
        CatDescriptorFits m len i ∧
          d.emmPids.length + catEntries m i ≤ ecmPids ∧
          CatDescriptorsFit m len rest (addCatDescriptor m d i)

/-- The length of a section lies in the buffer, and all descriptors fit. -/
def CatFits (m : Memory) (len : Nat) (d : Demux) : Prop :=
  3 ≤ len ∧ CatDescriptorsFit m len (catPlaces m) d

/-- `dvbapi_parse_cat` reads inside the buffer and keeps the number of EMM pids
within the table. -/
def CatSafe (m : Memory) (len : Nat) (d : Demux) : Prop :=
  Inside len (parseCatReads m d) ∧
    (d.emmPids.length ≤ ecmPids → (parseCat m d).emmPids.length ≤ ecmPids)

@[simp] theorem length_addEmmpid (d : Demux) (caid emmpid : UInt16)
    (provid : UInt32) (type : EmmType) :
    (d.addEmmpid caid emmpid provid type).emmPids.length =
      d.emmPids.length + 1 := by
  unfold Demux.addEmmpid
  exact List.length_append

theorem length_addCatDescriptor (m : Memory) (d : Demux) (i : Nat) :
    (addCatDescriptor m d i).emmPids.length =
      d.emmPids.length + catEntries m i := by
  unfold addCatDescriptor catEntries
  dsimp only
  split_ifs
  · rw [← Nat.add_assoc, ← length_addEmmpid d _ _ 0 .unique]
    generalize d.addEmmpid _ _ 0 .unique = d
    induction catSecaPids m i generalizing d with
    | nil => rfl
    | cons k rest induction =>
        rw [List.foldl_cons, induction, length_addEmmpid, List.length_cons]
        omega
  · induction catViaccessParts m i generalizing d with
    | nil => rfl
    | cons k rest induction =>
        rw [List.foldl_cons, induction, List.countP_cons]
        by_cases part : m k = 0x14
        · rw [if_pos part, if_pos (decide_eq_true part), length_addEmmpid]
          omega
        · rw [if_neg part, if_neg (by simpa using part)]
          rfl
  · exact length_addEmmpid ..
  · exact length_addEmmpid ..
  · exact length_addEmmpid ..

theorem le_length_addCatDescriptors (m : Memory) (places : List Nat)
    (d : Demux) :
    d.emmPids.length ≤ (addCatDescriptors m places d).emmPids.length := by
  induction places generalizing d with
  | nil => exact le_rfl
  | cons i rest induction =>
      rw [addCatDescriptors]
      split_ifs
      · exact induction d
      · exact le_rfl
      · have more := induction (addCatDescriptor m d i)
        rw [length_addCatDescriptor] at more
        omega

/-! ## Reads -/

theorem mem_catSecaPids {m : Memory} {i k : Nat} :
    k ∈ catSecaPids m i ↔
      k < i + (m (i + 1)).toNat + 2 ∧ ∃ n, k = i + 7 + n * 4 :=
  Places.mem_places_add 4 (by omega) (by omega)

theorem inside_catSecaPids (m : Memory) (i : Nat) {len : Nat} :
    Inside len ((catSecaPids m i).flatMap fun k =>
        [k + 2, k + 3, k, k + 1]) ↔
      (6 ≤ (m (i + 1)).toNat →
        i + 11 + 4 * (((m (i + 1)).toNat - 6) / 4) ≤ len) := by
  rw [inside_flatMap]
  simp only [inside_cons, inside_nil, and_true, mem_catSecaPids]
  constructor
  · intro all some
    have last := all (i + 7 + ((m (i + 1)).toNat - 6) / 4 * 4)
      ⟨by omega, ((m (i + 1)).toNat - 6) / 4, rfl⟩
    omega
  · rintro fits k ⟨below, n, rfl⟩
    have few : n ≤ ((m (i + 1)).toNat - 6) / 4 := by omega
    have last := fits (by omega)
    omega

theorem inside_catViaccessParts (m : Memory) (i : Nat) {len : Nat} :
    Inside len ((catViaccessParts m i).flatMap fun k =>
        k :: ((if m k = 0x14 then [k + 2, k + 3, k + 4] else []) ++
          [k + 1])) ↔
      ∀ k ∈ catViaccessParts m i, k + (if m k = 0x14 then 5 else 2) ≤ len := by
  rw [inside_flatMap]
  refine forall₂_congr fun k _member => ?_
  split <;>
  · simp only [inside_append, inside_cons, inside_nil, and_true, true_and]
    omega

theorem inside_catDescriptorReads (m : Memory) (len i : Nat) :
    (i < len ∧ Inside len (catDescriptorReads m i) ∧ i + 1 < len) ↔
      CatDescriptorFits m len i := by
  unfold catDescriptorReads CatDescriptorFits
  dsimp only
  split_ifs with seca viaccess short both other other other
  · simp only [inside_append, inside_cons, inside_nil, and_true]
    constructor
    · rintro ⟨first, ⟨head, second, pids⟩, -⟩
      exact ⟨by omega, (inside_catSecaPids m i).mp pids⟩
    · rintro ⟨six, pids⟩
      exact ⟨by omega,
        ⟨by omega, by omega, (inside_catSecaPids m i).mpr pids⟩, by omega⟩
  · simp only [inside_append, inside_cons, inside_nil, and_true]
    constructor
    · rintro ⟨first, ⟨head, second, parts⟩, -⟩
      exact ⟨by omega, (inside_catViaccessParts m i).mp parts⟩
    · rintro ⟨six, parts⟩
      exact ⟨by omega,
        ⟨by omega, by omega, (inside_catViaccessParts m i).mpr parts⟩,
        by omega⟩
  · simp only [inside_append, inside_cons, inside_nil, and_true]
    omega
  · exact absurd ⟨short, both⟩ other
  · exact absurd other.2 both
  · simp only [inside_append, inside_cons, inside_nil, and_true]
    omega
  · exact absurd other.1 short
  · simp only [inside_append, inside_cons, inside_nil, and_true]
    omega

theorem catDescriptorsSafe_iff (m : Memory) (len : Nat) (places : List Nat)
    (d : Demux) :
    (Inside len (catRead m places d) ∧
        (d.emmPids.length ≤ ecmPids →
          (addCatDescriptors m places d).emmPids.length ≤ ecmPids)) ↔
      CatDescriptorsFit m len places d := by
  induction places generalizing d with
  | nil => exact iff_of_true ⟨inside_nil len, id⟩ trivial
  | cons i rest induction =>
      rw [catRead, addCatDescriptors, CatDescriptorsFit, inside_cons]
      by_cases tag : m i ≠ 0x09
      · rw [if_pos tag, if_pos tag, if_pos tag, inside_cons, ← induction]
        constructor
        · rintro ⟨⟨first, second, reads⟩, room⟩
          exact ⟨by omega, reads, room⟩
        · rintro ⟨two, reads, room⟩
          exact ⟨⟨by omega, by omega, reads⟩, room⟩
      · rw [if_neg tag, if_neg tag, if_neg tag]
        by_cases full : ecmPids ≤ d.emmPids.length
        · rw [if_pos full, if_pos full, if_pos full]
          exact ⟨fun both => both.1.1,
            fun first => ⟨⟨first, inside_nil len⟩, id⟩⟩
        · rw [if_neg full, if_neg full, if_neg full, inside_append,
            inside_cons, ← inside_catDescriptorReads, ← induction,
            length_addCatDescriptor]
          have grows :=
            le_length_addCatDescriptors m rest (addCatDescriptor m d i)
          rw [length_addCatDescriptor] at grows
          constructor
          · rintro ⟨⟨first, here, second, reads⟩, room⟩
            have kept := room (by omega)
            exact ⟨⟨first, here, second⟩, by omega, reads, fun _ => kept⟩
          · rintro ⟨⟨first, here, second⟩, few, reads, room⟩
            exact ⟨⟨first, here, second, reads⟩, fun _ => room few⟩

theorem catSafe_iff (m : Memory) (len : Nat) (d : Demux) :
    CatSafe m len d ↔ CatFits m len d := by
  unfold CatSafe CatFits parseCatReads parseCat
  rw [inside_append, and_assoc, catDescriptorsSafe_iff]
  refine and_congr_left fun _fits => ?_
  simp only [inside_cons, inside_nil, and_true]
  omega

/-! ## All parsers -/

/-- The loops of the parsers end.  A message and a section of the CAT are read
inside the buffer and add no entry outside a table if and only if they fit. -/
theorem parsers_safe_iff (cfg : Cfg) (m : Memory) (len : Nat) (connfd : Int)
    (s : State) (cat : Memory) (catLen : Nat) (d : Demux) :
    (LoopsEnd m ∧ LoopsEnd cat) ∧
      (MessageSafe cfg m len connfd s ↔ MessageFits cfg m len connfd s) ∧
      (CatSafe cat catLen d ↔ CatFits cat catLen d) :=
  ⟨⟨loopsEnd m, loopsEnd cat⟩, messageSafe_iff cfg m len connfd s,
    catSafe_iff cat catLen d⟩

/-- A message of ten bytes, of which the head of a PMT needs more. -/
def shortMessage : Memory := fun p =>
  [0x9F, 0x80, 0x32, 0x06, 0x03, 0x00, 0x01, 0x00, 0xF0, 0x00].getD p 0

/-- A section with one descriptor, which has 64 EMM pids. -/
def crowdedCat : Memory := fun p =>
  [0x01, 0xB1, 0x0A, 0, 0, 0, 0, 0, 0x09, 0xFF, 0x01, 0x00].getD p 0

/-- The buffers that were read from the devices do not always fit. -/
theorem not_parsers_safe :
    ¬ MessageSafe Cfg.plain shortMessage 10 5 (fun _ => .zero) ∧
      ¬ CatSafe crowdedCat 1024 .zero := by
  constructor
  · rw [messageSafe_iff]
    intro fits
    have here := fits.command 0 (by
      intro n first
      obtain rfl : n = 0 := by omega
      exact ⟨by decide, by decide⟩)
    have head := (here.2.1 (by decide)).1
    revert head
    decide
  · rw [catSafe_iff]
    rintro ⟨-, fits⟩
    have length : bits12 crowdedCat 1 = 265 + 1 := by decide
    rw [catPlaces, length, places, if_pos (by decide), CatDescriptorsFit,
      if_neg (by decide), if_neg (by decide)] at fits
    have few := fits.2.1
    revert few
    decide

end Oscam.Dvbapi
