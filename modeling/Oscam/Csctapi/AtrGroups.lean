import Oscam.Csctapi.Atr
import Mathlib.Logic.Function.Basic
import Mathlib.Tactic.IntervalCases

/-!
# Groups of an answer to reset

Where the groups of a string begin and end, without the structure that they
are stored in, and what `ATR_InitFromArray` leaves in the structure.
-/

namespace Oscam.Reset

/-! ## The characters that a byte announces -/

/-- One for a character that is announced. -/
def takes (tdi : UInt8) (character : Character) : Nat :=
  if announces tdi character then 1 else 0

theorem takes_of_announces {tdi : UInt8} {character : Character}
    (announced : announces tdi character) : takes tdi character = 1 :=
  if_pos announced

theorem takes_of_absent {tdi : UInt8} {character : Character}
    (absent : announces tdi character = false) : takes tdi character = 0 := by
  unfold takes
  rw [absent]
  rfl

/-- The distance of a character from the byte that announces it, if it is
there, and otherwise of the character in front of it. -/
def offset (tdi : UInt8) : Character → Nat
  | .ta => takes tdi .ta
  | .tb => takes tdi .ta + takes tdi .tb
  | .tc => takes tdi .ta + takes tdi .tb + takes tdi .tc
  | .td => takes tdi .ta + takes tdi .tb + takes tdi .tc + takes tdi .td

/-- `atr_num_ib_table` counts the characters. -/
theorem numIb_eq (tdi : UInt8) : numIb tdi = offset tdi .td := by
  have all : (List.range 256).all fun n =>
      numIb (UInt8.ofNat n) == offset (UInt8.ofNat n) .td := by decide +kernel
  have one := List.all_eq_true.mp all tdi.toNat
    (List.mem_range.mpr tdi.toNat_lt)
  rw [UInt8.ofNat_toNat] at one
  exact eq_of_beq one

/-! ## The places of the groups -/

variable (text : List UInt8)

/-- The place of the byte that announces a group: T0 for the first group, and
the last character of the group in front for the others. -/
def tdPointer : Nat → Option Nat
  | 0 => some 1
  | number + 1 =>
    (tdPointer number).bind fun pointer =>
      let tdi := text.getD pointer 0
      if pointer + numIb tdi < text.length ∧ announces tdi .td then
        some (pointer + numIb tdi)
      else none

/-- A character of the group that is announced at a place. -/
def characterAt (pointer : Nat) (character : Character) : Option UInt8 :=
  let tdi := text.getD pointer 0
  if announces tdi character then
    some (text.getD (pointer + offset tdi character) 0)
  else none

/-- A character of a group. -/
def groupCharacter (number : Nat) (character : Character) : Option UInt8 :=
  (tdPointer text number).bind fun pointer =>
    characterAt text pointer character

/-- The group fits into the string. -/
def Fits (pointer : Nat) : Prop :=
  pointer + numIb (text.getD pointer 0) < text.length

/-- The byte at the place announces the last group, and the group fits. -/
structure LastGroup (number pointer : Nat) : Prop where
  announced : tdPointer text number = some pointer
  fits : Fits text pointer
  last : announces (text.getD pointer 0) .td = false

variable {text}

theorem tdPointer_succ {number pointer : Nat}
    (announced : tdPointer text number = some pointer)
    (fits : Fits text pointer)
    (more : announces (text.getD pointer 0) .td) :
    tdPointer text (number + 1) =
      some (pointer + numIb (text.getD pointer 0)) := by
  unfold tdPointer
  rw [announced]
  exact if_pos ⟨fits, more⟩

theorem of_tdPointer_succ {number next : Nat}
    (announced : tdPointer text (number + 1) = some next) :
    ∃ pointer, tdPointer text number = some pointer ∧ Fits text pointer ∧
      announces (text.getD pointer 0) .td ∧
      next = pointer + numIb (text.getD pointer 0) := by
  unfold tdPointer at announced
  obtain ⟨pointer, before, step⟩ := Option.bind_eq_some_iff.mp announced
  dsimp only at step
  split at step
  · rename_i inside
    exact ⟨pointer, before, inside.1, inside.2, (Option.some.inj step).symm⟩
  · contradiction

theorem tdPointer_pos {number pointer : Nat}
    (announced : tdPointer text number = some pointer) : 1 ≤ pointer := by
  induction number generalizing pointer with
  | zero => exact Nat.le_of_eq (Option.some.inj announced)
  | succ number induction =>
      obtain ⟨before, here, -, -, rfl⟩ := of_tdPointer_succ announced
      have positive := induction here
      omega

/-- Behind a group that is not announced there is none. -/
theorem tdPointer_eq_none {number later : Nat} (before : number ≤ later)
    (absent : tdPointer text number = none) : tdPointer text later = none := by
  induction later, before using Nat.le_induction with
  | base => exact absent
  | succ later _ induction =>
      cases announced : tdPointer text (later + 1) with
      | none => rfl
      | some next =>
          obtain ⟨pointer, here, -⟩ := of_tdPointer_succ announced
          rw [induction] at here
          contradiction

theorem LastGroup.tdPointer_succ {number pointer : Nat}
    (last : LastGroup text number pointer) :
    tdPointer text (number + 1) = none := by
  cases announced : tdPointer text (number + 1) with
  | none => rfl
  | some next =>
      obtain ⟨other, here, -, more, -⟩ := of_tdPointer_succ announced
      rw [last.announced] at here
      rw [← Option.some.inj here, last.last] at more
      contradiction

/-- No other group is the last one, or one that does not fit. -/
theorem LastGroup.le {number pointer : Nat}
    (last : LastGroup text number pointer) {other place : Nat}
    (announced : tdPointer text other = some place) : other ≤ number := by
  by_contra behind
  rw [tdPointer_eq_none (by omega) last.tdPointer_succ] at announced
  contradiction

theorem LastGroup.unique {number pointer other place : Nat}
    (first : LastGroup text number pointer)
    (second : LastGroup text other place) :
    number = other ∧ pointer = place := by
  have same : number = other :=
    Nat.le_antisymm (second.le first.announced) (first.le second.announced)
  subst same
  exact ⟨rfl, Option.some.inj
    (first.announced.symm.trans second.announced)⟩

/-- A group that does not fit is announced by the last byte of all. -/
theorem tdPointer_of_not_fits {number pointer : Nat}
    (announced : tdPointer text number = some pointer)
    (long : ¬ Fits text pointer) : tdPointer text (number + 1) = none := by
  cases next : tdPointer text (number + 1) with
  | none => rfl
  | some place =>
      obtain ⟨other, here, fits, -⟩ := of_tdPointer_succ next
      rw [announced] at here
      rw [← Option.some.inj here] at fits
      contradiction

theorem LastGroup.fits_all {number pointer : Nat}
    (last : LastGroup text number pointer) {other place : Nat}
    (announced : tdPointer text other = some place) : Fits text place := by
  by_contra long
  have none := tdPointer_of_not_fits announced long
  rcases Nat.lt_or_eq_of_le (last.le announced) with before | same
  · have absent := tdPointer_eq_none (show other + 1 ≤ number from before) none
    rw [last.announced] at absent
    contradiction
  · subst same
    rw [last.announced] at announced
    exact long (Option.some.inj announced ▸ last.fits)

/-! ## One group of the loop -/

@[simp] theorem setIb_self (atr : Atr) (pn : Fin maxProtocols)
    (character : Character) (byte : InterfaceByte) :
    (atr.setIb pn character byte).ib pn character = byte := by
  simp [Atr.setIb]

theorem setIb_of_ne (atr : Atr) {pn row : Fin maxProtocols}
    {character other : Character} (byte : InterfaceByte)
    (different : row ≠ pn ∨ other ≠ character) :
    (atr.setIb pn character byte).ib row other = atr.ib row other := by
  change Function.update atr.ib pn _ row other = _
  by_cases same : row = pn
  · subst same
    rw [Function.update_self, Function.update_of_ne (by simpa using different)]
  · rw [Function.update_of_ne same]

section

variable (buffer : List UInt8) (tdi : UInt8) (pn : Fin maxProtocols)

/-- The element of `ib` that the test for a character leaves. -/
def extracted (character : Character) (state : Nat × Atr) : InterfaceByte :=
  if announces tdi character then ⟨buffer.getD (state.1 + 1) 0, true⟩
  else { state.2.ib pn character with present := false }

theorem extractByte_eq (character : Character) (state : Nat × Atr) :
    extractByte buffer tdi pn character state =
      (state.1 + takes tdi character,
        state.2.setIb pn character
          (extracted buffer tdi pn character state)) := by
  by_cases announced : announces tdi character
  · simp only [extractByte, extracted, takes, if_pos announced]
  · simp only [extractByte, extracted, takes, if_neg announced, Nat.add_zero]

theorem shown_extracted (character : Character) (state : Nat × Atr) :
    (extracted buffer tdi pn character state).shown =
      if announces tdi character then
        some (buffer.getD (state.1 + takes tdi character) 0)
      else none := by
  unfold extracted takes
  split <;> rfl

variable (pointer : Nat) (atr : Atr)

theorem extractGroup_pointer :
    (extractGroup buffer tdi pn pointer atr).1 = pointer + numIb tdi := by
  simp only [extractGroup, extractByte_eq, numIb_eq, offset, Nat.add_assoc]

/-- The row of `ib` holds the characters that stand behind the byte. -/
theorem extractGroup_row (character : Character) :
    ((extractGroup buffer tdi pn pointer atr).2.ib pn character).shown =
      if announces tdi character then
        some (buffer.getD (pointer + offset tdi character) 0)
      else none := by
  simp only [extractGroup, extractByte_eq]
  cases character with
  | td => simp only [setIb_self, shown_extracted, offset, Nat.add_assoc]
  | tc =>
      rw [setIb_of_ne _ _ (.inr (by simp)), setIb_self, shown_extracted]
      simp only [offset, Nat.add_assoc]
  | tb =>
      rw [setIb_of_ne _ _ (.inr (by simp)), setIb_of_ne _ _ (.inr (by simp)),
        setIb_self, shown_extracted]
      simp only [offset, Nat.add_assoc]
  | ta =>
      rw [setIb_of_ne _ _ (.inr (by simp)), setIb_of_ne _ _ (.inr (by simp)),
        setIb_of_ne _ _ (.inr (by simp)), setIb_self, shown_extracted]
      simp only [offset]

theorem extractGroup_of_ne {row : Fin maxProtocols} (different : row ≠ pn)
    (character : Character) :
    (extractGroup buffer tdi pn pointer atr).2.ib row character =
      atr.ib row character := by
  simp only [extractGroup, extractByte_eq,
    setIb_of_ne _ _ (Or.inl different)]

/-- Only `ib` is written. -/
theorem extractGroup_other :
    (extractGroup buffer tdi pn pointer atr).2 =
      { atr with ib := (extractGroup buffer tdi pn pointer atr).2.ib } := by
  simp only [extractGroup, extractByte_eq]
  rfl

end

/-! ## The whole loop -/

/-- A check character is there: the last group was announced for another
protocol than T=0. -/
def hasTck (text : List UInt8) (number pointer : Nat) : Bool :=
  number != 0 && text.getD pointer 0 &&& 0x0F != protocolT0

/-- The structure with the first `count` groups stored. -/
structure Stored (text : List UInt8) (start : Atr) (count : Nat)
    (check : Bool) (atr : Atr) : Prop where
  rows : ∀ row : Fin maxProtocols, row.val < count → ∀ character,
    (atr.ib row character).shown = groupCharacter text row character
  behind : ∀ row : Fin maxProtocols, count ≤ row.val →
    atr.ib row = start.ib row
  tck : atr.tck.present = check
  other : atr = { start with ib := atr.ib, tck := atr.tck }

theorem Stored.extractGroup {text : List UInt8} {start atr : Atr}
    {count pointer : Nat} {check : Bool}
    (stored : Stored text start count check atr)
    (announced : tdPointer text count = some pointer)
    (row : Fin maxProtocols) (here : row.val = count) :
    Stored text start (count + 1) check
      (extractGroup text (text.getD pointer 0) row pointer atr).2 := by
  have other := extractGroup_other text (text.getD pointer 0) row pointer atr
  constructor
  · intro some before character
    by_cases same : some = row
    · subst same
      rw [extractGroup_row, groupCharacter, here, announced]
      rfl
    · rw [extractGroup_of_ne _ _ _ _ _ same]
      apply stored.rows
      have different : some.val ≠ row.val := fun equal =>
        same (Fin.ext equal)
      omega
  · intro some after
    have different : some ≠ row := by
      rintro rfl
      omega
    funext character
    rw [extractGroup_of_ne _ _ _ _ _ different,
      stored.behind some (by omega)]
  · rw [other]
    exact stored.tck
  · rw [other, stored.other]

/-- What the loop says about the string. -/
def Loop.Reads (text : List UInt8) (start : Atr) : Loop → Prop
  | .done pointer row atr =>
    ∃ base, LastGroup text row.val base ∧
      pointer = base + numIb (text.getD base 0) ∧
      Stored text start (row.val + 1) (hasTck text row.val base) atr
  | .malformed _ =>
    ∃ number place, number ≤ maxProtocols ∧
      tdPointer text number = some place ∧ ¬ Fits text place
  | .outside =>
    ∃ place, tdPointer text maxProtocols = some place ∧ Fits text place

theorem extractGroups_reads {text : List UInt8} {start : Atr}
    (left : Nat) {pn pointer : Nat} {atr : Atr}
    (whole : pn + left = maxProtocols)
    (announced : tdPointer text pn = some pointer)
    (stored : Stored text start pn (hasTck text pn pointer) atr) :
    (extractGroups text left pn pointer (text.getD pointer 0) atr).Reads text
      start := by
  induction left generalizing pn pointer atr with
  | zero =>
      unfold extractGroups
      have last : pn = maxProtocols := whole
      by_cases long : pointer + numIb (text.getD pointer 0) ≥ text.length
      · rw [if_pos long]
        exact ⟨pn, pointer, by omega, announced, Nat.not_lt.mpr long⟩
      · rw [if_neg long]
        exact ⟨pointer, last ▸ announced, Nat.lt_of_not_le long⟩
  | succ left induction =>
      unfold extractGroups
      by_cases long : pointer + numIb (text.getD pointer 0) ≥ text.length
      · rw [if_pos long]
        exact ⟨pn, pointer, by omega, announced, Nat.not_lt.mpr long⟩
      · have fits : Fits text pointer := Nat.lt_of_not_le long
        have inside : pn < maxProtocols := by omega
        have row : (Fin.ofNat maxProtocols pn).val = pn :=
          Nat.mod_eq_of_lt inside
        have next := stored.extractGroup announced _ row
        have place := extractGroup_pointer text (text.getD pointer 0)
          (Fin.ofNat maxProtocols pn) pointer atr
        rw [if_neg long]
        dsimp only
        by_cases more : announces (text.getD pointer 0) .td
        · rw [if_pos more, place]
          apply induction (by omega) (tdPointer_succ announced fits more)
          exact ⟨next.rows, next.behind, by simp [hasTck], by
            rw [next.other]⟩
        · rw [if_neg more, place]
          exact ⟨pointer, ⟨row.symm ▸ announced, fits, by simpa using more⟩,
            rfl, by rw [row]; exact next⟩

/-! ## What is accepted -/

section

variable (text : List UInt8)

/-- The last byte of the group that is announced at a place. -/
def groupEnd (pointer : Nat) : Nat := pointer + numIb (text.getD pointer 0)

/-- The number of historical bytes that T0 announces. -/
def announcedHbn : Nat := (text.getD 1 0 &&& 0x0F).toNat

/-- The number of historical bytes that are taken. -/
def takenHbn (pointer : Nat) : Nat :=
  if text.length ≤ groupEnd text pointer + announcedHbn text then
    text.length - groupEnd text pointer - 2
  else announcedHbn text

/-- TA1 and TB1 of a card with one protocol have values that are allowed. -/
structure FirstRight (ta tb : Option UInt8) : Prop where
  fi : ∀ ta1, ta = some ta1 →
    fsTable.getD ((ta1 &&& 0xF0) >>> 4).toNat 0 ≠ 0
  tb1 : ∀ value, tb = some value → value ≤ 0x80

/-- The string is a complete answer to reset, with `number` groups behind the
first one. -/
structure Accepted (number pointer : Nat) : Prop where
  few : number < maxProtocols
  last : LastGroup text number pointer
  historical : groupEnd text pointer + announcedHbn text < text.length ∨
    2 ≤ text.length - groupEnd text pointer
  check : hasTck text number pointer →
    groupEnd text pointer + takenHbn text pointer + 1 < text.length
  first : number = 0 →
    FirstRight (groupCharacter text 0 .ta) (groupCharacter text 0 .tb)

/-- The structure with the groups and the historical bytes. -/
structure Copied (start : Atr) (number pointer : Nat) (atr : Atr) : Prop where
  ts : atr.ts = text.getD 0 0
  t0 : atr.t0 = text.getD 1 0
  pn : atr.pn = number + 1
  rows : ∀ row : Fin maxProtocols, row.val < number + 1 → ∀ character,
    (atr.ib row character).shown = groupCharacter text row character
  behind : ∀ row : Fin maxProtocols, number + 1 ≤ row.val →
    atr.ib row = start.ib row
  hbn : atr.hbn = takenHbn text pointer
  hb : atr.hb.read 0 atr.hbn =
    (text.drop (groupEnd text pointer + 1)).take (takenHbn text pointer)

/-- The structure after an answer to reset that is accepted. -/
structure Filled (start : Atr) (number pointer : Nat) (atr : Atr) : Prop
    extends Copied text start number pointer atr where
  tck : atr.tck.shown =
    if hasTck text number pointer then
      some (text.getD (groupEnd text pointer + takenHbn text pointer + 1) 0)
    else none
  length : atr.length = groupEnd text pointer + takenHbn text pointer + 1 +
    if hasTck text number pointer then 1 else 0

/-- What `ATR_InitFromArray` says about the string. -/
def Init.Reads (start : Atr) : Init → Prop
  | .ok atr =>
    ∃ number pointer, Accepted text number pointer ∧
      Filled text start number pointer atr
  | .malformed _ =>
    (∀ number pointer, ¬ Accepted text number pointer) ∧
      ∀ place, tdPointer text maxProtocols = some place → ¬ Fits text place
  | .outside =>
    ∃ place, tdPointer text maxProtocols = some place ∧ Fits text place

end

theorem takenHbn_le (text : List UInt8) (pointer : Nat) :
    takenHbn text pointer ≤ maxHistorical := by
  have nibble : announcedHbn text ≤ 15 := by
    unfold announcedHbn
    rw [UInt8.toNat_and]
    exact Nat.and_le_right
  change takenHbn text pointer ≤ 15
  unfold takenHbn
  split
  · omega
  · exact nibble

/-- The end of the bytes that are taken is a byte of the string. -/
theorem Accepted.inside {text : List UInt8} {number pointer : Nat}
    (accepted : Accepted text number pointer) :
    groupEnd text pointer + takenHbn text pointer < text.length := by
  have historical := accepted.historical
  unfold takenHbn
  split <;> omega

section

variable {text : List UInt8} {start : Atr} {number pointer : Nat}

theorem shown_eq_some {byte : InterfaceByte} {value : UInt8} :
    byte.shown = some value ↔ byte.present ∧ byte.value = value := by
  unfold InterfaceByte.shown
  split <;> simp_all

theorem checkFirst_of_right {atr : Atr}
    (right : atr.pn = 1 →
      FirstRight (atr.ib 0 .ta).shown (atr.ib 0 .tb).shown) :
    checkFirst atr = .ok atr := by
  unfold checkFirst
  rw [if_neg, if_neg]
  · rintro ⟨one, present, large⟩
    have small := (right one).tb1 _ (shown_eq_some.mpr ⟨present, rfl⟩)
    exact UInt8.not_le.mpr large small
  · rintro ⟨one, present, zero⟩
    exact (right one).fi _ (shown_eq_some.mpr ⟨present, rfl⟩) zero

theorem checkFirst_of_wrong {atr : Atr}
    (wrong : ¬ (atr.pn = 1 →
      FirstRight (atr.ib 0 .ta).shown (atr.ib 0 .tb).shown)) :
    checkFirst atr = .malformed atr := by
  by_contra other
  apply wrong
  intro one
  unfold checkFirst at other
  constructor
  · intro ta1 shown zero
    obtain ⟨present, rfl⟩ := shown_eq_some.mp shown
    exact other (if_pos ⟨one, present, zero⟩)
  · intro value shown
    obtain ⟨present, rfl⟩ := shown_eq_some.mp shown
    by_contra large
    apply other
    split
    · rfl
    · exact if_pos ⟨one, present, UInt8.not_le.mp large⟩

/-- Where the last group leaves room in `ib`, a string is refused if it is
not accepted with this group. -/
theorem LastGroup.reads_malformed {atr : Atr}
    (last : LastGroup text number pointer) (few : number < maxProtocols)
    (refused : ¬ Accepted text number pointer) :
    (Init.malformed atr).Reads text start := by
  constructor
  · intro other place accepted
    obtain ⟨rfl, rfl⟩ := last.unique accepted.last
    exact refused accepted
  · intro place announced
    have before := last.le announced
    omega

theorem Copied.checkFirst {atr : Atr}
    (copied : Copied text start number pointer atr)
    (last : LastGroup text number pointer) (few : number < maxProtocols)
    (historical : groupEnd text pointer + announcedHbn text < text.length ∨
      2 ≤ text.length - groupEnd text pointer)
    (check : hasTck text number pointer →
      groupEnd text pointer + takenHbn text pointer + 1 < text.length)
    (tck : atr.tck.shown =
      if hasTck text number pointer then
        some (text.getD (groupEnd text pointer + takenHbn text pointer + 1) 0)
      else none)
    (length : atr.length =
      groupEnd text pointer + takenHbn text pointer + 1 +
        if hasTck text number pointer then 1 else 0) :
    (checkFirst atr).Reads text start := by
  have ta := copied.rows 0 (Nat.succ_pos number) .ta
  have tb := copied.rows 0 (Nat.succ_pos number) .tb
  have one : atr.pn = 1 ↔ number = 0 := by
    rw [copied.pn]
    omega
  by_cases right : atr.pn = 1 →
      FirstRight (atr.ib 0 .ta).shown (atr.ib 0 .tb).shown
  · rw [checkFirst_of_right right]
    refine ⟨number, pointer, ⟨few, last, historical, check, ?_⟩,
      copied, tck, length⟩
    intro zero
    rw [← show ((0 : Fin maxProtocols) : Nat) = 0 from rfl, ← ta, ← tb]
    exact right (one.mpr zero)
  · rw [checkFirst_of_wrong right]
    apply last.reads_malformed few
    intro accepted
    apply right
    intro first
    rw [ta, tb]
    exact accepted.first (one.mp first)

theorem Copied.storeTck {atr : Atr}
    (copied : Copied text start number pointer atr)
    (last : LastGroup text number pointer) (few : number < maxProtocols)
    (historical : groupEnd text pointer + announcedHbn text < text.length ∨
      2 ≤ text.length - groupEnd text pointer)
    (present : atr.tck.present = hasTck text number pointer) :
    (storeTck text (groupEnd text pointer + atr.hbn) atr).Reads text
      start := by
  have behind : groupEnd text pointer + atr.hbn =
      groupEnd text pointer + takenHbn text pointer := by rw [copied.hbn]
  unfold Reset.storeTck
  rw [present, behind]
  by_cases check : hasTck text number pointer
  · rw [if_pos check]
    by_cases short : groupEnd text pointer + takenHbn text pointer + 1 ≥
        text.length
    · rw [if_pos short]
      apply last.reads_malformed few
      intro accepted
      exact Nat.not_lt.mpr short (accepted.check check)
    · rw [if_neg short]
      refine Copied.checkFirst ?_ last few historical
        (fun _ => Nat.lt_of_not_le short) ?_ ?_
      · exact ⟨copied.ts, copied.t0, copied.pn, copied.rows, copied.behind,
          copied.hbn, copied.hb⟩
      · rw [if_pos check]
        rfl
      · rw [if_pos check]
  · rw [if_neg check]
    refine Copied.checkFirst ?_ last few historical
      (fun present => absurd present check) ?_ ?_
    · exact ⟨copied.ts, copied.t0, copied.pn, copied.rows, copied.behind,
        copied.hbn, copied.hb⟩
    · rw [if_neg check]
      unfold InterfaceByte.shown
      rw [present, if_neg check]
    · rw [if_neg check]

theorem Stored.copyHistorical {atr : Atr} {row : Fin maxProtocols}
    (stored : Stored text start (row.val + 1) (hasTck text row.val pointer) atr)
    (last : LastGroup text row.val pointer)
    (historical : groupEnd text pointer + announcedHbn text < text.length ∨
      2 ≤ text.length - groupEnd text pointer)
    (ts : start.ts = text.getD 0 0) (t0 : start.t0 = text.getD 1 0) :
    (copyHistorical text (groupEnd text pointer)
      { atr with pn := row.val + 1, hbn := takenHbn text pointer }).Reads text
        start := by
  have small := takenHbn_le text pointer
  have other := stored.other
  have inside :
      groupEnd text pointer + 1 + takenHbn text pointer ≤ text.length := by
    unfold takenHbn
    split <;> omega
  unfold Reset.copyHistorical
  rw [if_neg (Nat.not_lt.mpr small)]
  refine Copied.storeTck ?_ last row.isLt historical stored.tck
  refine ⟨?_, ?_, rfl, stored.rows, stored.behind, rfl, ?_⟩
  · rw [other]
    exact ts
  · rw [other]
    exact t0
  · have length : ((text.drop (groupEnd text pointer + 1)).take
        (takenHbn text pointer)).length = takenHbn text pointer := by
      rw [List.length_take, List.length_drop]
      omega
    have read := Memory.read_write atr.hb 0
      ((text.drop (groupEnd text pointer + 1)).take (takenHbn text pointer))
    rwa [length] at read

theorem Stored.storeHistorical {atr : Atr} {row : Fin maxProtocols}
    (stored : Stored text start (row.val + 1) (hasTck text row.val pointer) atr)
    (last : LastGroup text row.val pointer)
    (ts : start.ts = text.getD 0 0) (t0 : start.t0 = text.getD 1 0)
    (hbn : start.hbn = announcedHbn text) :
    (storeHistorical text (groupEnd text pointer)
      { atr with pn := row.val + 1 }).Reads text start := by
  have announced : atr.hbn = announcedHbn text := by
    rw [stored.other]
    exact hbn
  unfold Reset.storeHistorical
  rw [announced]
  by_cases long : groupEnd text pointer + announcedHbn text ≥ text.length
  · rw [if_pos long]
    by_cases two : text.length - groupEnd text pointer ≥ 2
    · have taken : takenHbn text pointer =
          text.length - groupEnd text pointer - 2 := if_pos long
      rw [if_pos two, ← taken]
      exact stored.copyHistorical last (.inr two) ts t0
    · rw [if_neg two]
      apply last.reads_malformed row.isLt
      intro accepted
      have historical := accepted.historical
      omega
  · have taken : takenHbn text pointer = announcedHbn text := if_neg long
    rw [if_neg long]
    have copied := stored.copyHistorical last
      (.inl (Nat.lt_of_not_le long)) ts t0
    rwa [taken] at copied

end

theorem Init.reads_of_ib {text : List UInt8} {first start : Atr}
    (same : first.ib = start.ib) {init : Init}
    (reads : init.Reads text first) : init.Reads text start := by
  cases init with
  | malformed atr => exact reads
  | outside => exact reads
  | ok atr =>
      obtain ⟨number, pointer, accepted, filled⟩ := reads
      refine ⟨number, pointer, accepted, ⟨?_, filled.tck, filled.length⟩⟩
      exact { filled.toCopied with
        behind := fun row after => same ▸ filled.behind row after }

/-- What `ATR_InitFromArray` answers and stores, in terms of the string. -/
theorem initFromArray_reads (start : Atr) (atrBuffer : List UInt8) :
    (initFromArray start atrBuffer).Reads (toDirect atrBuffer) start := by
  unfold initFromArray
  by_cases short : atrBuffer.length < 2
  · rw [if_pos short]
    have nowhere {number pointer : Nat}
        (announced : tdPointer (toDirect atrBuffer) number = some pointer) :
        ¬ Fits (toDirect atrBuffer) pointer := by
      unfold Fits
      rw [length_toDirect]
      have positive := tdPointer_pos announced
      omega
    exact ⟨fun _ _ accepted => nowhere accepted.last.announced
      accepted.last.fits, fun _ announced => nowhere announced⟩
  · rw [if_neg short]
    dsimp only
    generalize fresh : ({ start with
      ts := (toDirect atrBuffer).getD 0 0
      t0 := (toDirect atrBuffer).getD 1 0
      hbn := ((toDirect atrBuffer).getD 1 0 &&& 0x0F).toNat
      tck := { start.tck with present := false } } : Atr) = first
    have stored : Stored (toDirect atrBuffer) first 0
        (hasTck (toDirect atrBuffer) 0 1) first :=
      ⟨fun row before => absurd before (Nat.not_lt_zero row),
        fun _ _ => rfl, by rw [← fresh]; rfl, rfl⟩
    have reads := extractGroups_reads maxProtocols rfl rfl stored
    apply Init.reads_of_ib (show first.ib = start.ib by rw [← fresh])
    cases loop : extractGroups (toDirect atrBuffer) maxProtocols 0 1
        ((toDirect atrBuffer).getD 1 0) first with
    | outside =>
        rw [loop] at reads
        exact reads
    | malformed atr =>
        rw [loop] at reads
        obtain ⟨number, place, inside, announced, long⟩ := reads
        constructor
        · intro other pointer accepted
          exact long (accepted.last.fits_all announced)
        · intro pointer eighth fits
          rcases Nat.lt_or_eq_of_le inside with before | same
          · have none := tdPointer_eq_none
              (show number + 1 ≤ maxProtocols from before)
              (tdPointer_of_not_fits announced long)
            rw [eighth] at none
            contradiction
          · rw [same, eighth] at announced
            exact long (Option.some.inj announced ▸ fits)
    | done pointer row atr =>
        rw [loop] at reads
        obtain ⟨base, last, rfl, stored⟩ := reads
        exact stored.storeHistorical last (by rw [← fresh]) (by rw [← fresh])
          (by rw [← fresh]; rfl)

theorem initFromArray_ok_iff (start : Atr) (atrBuffer : List UInt8) :
    (∃ atr, initFromArray start atrBuffer = .ok atr) ↔
      ∃ number pointer, Accepted (toDirect atrBuffer) number pointer := by
  have reads := initFromArray_reads start atrBuffer
  constructor
  · rintro ⟨atr, ok⟩
    rw [ok] at reads
    obtain ⟨number, pointer, accepted, -⟩ := reads
    exact ⟨number, pointer, accepted⟩
  · rintro ⟨number, pointer, accepted⟩
    cases result : initFromArray start atrBuffer with
    | ok atr => exact ⟨atr, rfl⟩
    | malformed atr =>
        rw [result] at reads
        exact absurd accepted (reads.1 number pointer)
    | outside =>
        rw [result] at reads
        obtain ⟨place, announced, -⟩ := reads
        have before := accepted.last.le announced
        have few := accepted.few
        omega

theorem filled_of_initFromArray {start atr : Atr} {atrBuffer : List UInt8}
    (ok : initFromArray start atrBuffer = .ok atr) :
    ∃ number pointer, Accepted (toDirect atrBuffer) number pointer ∧
      Filled (toDirect atrBuffer) start number pointer atr := by
  have reads := initFromArray_reads start atrBuffer
  rwa [ok] at reads

end Oscam.Reset
