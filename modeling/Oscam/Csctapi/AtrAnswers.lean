import Oscam.Csctapi.AtrGroups

/-!
# Answers about a card

What the getters say after `ATR_InitFromArray`: they answer from the string,
but two of them look at the second group even if the string has only one.
-/

namespace Oscam.Reset

/-! ## The string as it was -/

section

variable {text : List UInt8} {start atr : Atr} {number pointer : Nat}

theorem toList_slice {place : Nat} (inside : place < text.length) :
    [text.getD place 0] = (text.drop place).take 1 := by
  rw [List.getD_eq_getElem _ _ inside, List.drop_eq_getElem_cons inside]
  rfl

/-- The bytes of one row are a piece of the string. -/
theorem rawRow_eq {row : Character → InterfaceByte}
    (fits : Fits text pointer)
    (shown : ∀ character,
      (row character).shown = characterAt text pointer character) :
    Atr.rawRow row =
      (text.drop (pointer + 1)).take (numIb (text.getD pointer 0)) := by
  have whole : pointer + numIb (text.getD pointer 0) < text.length := fits
  have counts := numIb_eq (text.getD pointer 0)
  -- the bytes in front of a character, and with it
  have piece (character : Character) (front : Nat)
      (behind : front + takes (text.getD pointer 0) character =
        offset (text.getD pointer 0) character)
      (inside : offset (text.getD pointer 0) character ≤
        numIb (text.getD pointer 0)) :
      (text.drop (pointer + 1)).take front ++
          (row character).shown.toList =
        (text.drop (pointer + 1)).take
          (offset (text.getD pointer 0) character) := by
    rw [shown, characterAt, ← behind, List.take_add, List.drop_drop]
    by_cases announced : announces (text.getD pointer 0) character
    · rw [if_pos announced, takes_of_announces announced,
        show pointer + 1 + front = pointer + (front + 1) by omega,
        ← toList_slice (by
          have one := takes_of_announces announced
          omega)]
      rfl
    · rw [if_neg announced, takes_of_absent (by simpa using announced)]
      rfl
  have bounds : offset (text.getD pointer 0) .ta ≤
        offset (text.getD pointer 0) .tb ∧
      offset (text.getD pointer 0) .tb ≤
        offset (text.getD pointer 0) .tc ∧
      offset (text.getD pointer 0) .tc ≤
        offset (text.getD pointer 0) .td :=
    ⟨Nat.le_add_right _ _, Nat.le_add_right _ _, Nat.le_add_right _ _⟩
  unfold Atr.rawRow
  have ta := piece .ta 0 (Nat.zero_add _) (by omega)
  rw [List.take_zero, List.nil_append] at ta
  rw [ta, piece .tb (offset _ .ta) rfl (by omega),
    piece .tc (offset _ .tb) rfl (by omega),
    piece .td (offset _ .tc) rfl (by omega), counts]

theorem mapM_row? (atr : Atr) {count : Nat} (inside : count ≤ maxProtocols) :
    (List.range count).mapM atr.row? =
      some ((List.range count).map fun number =>
        atr.ib (Fin.ofNat maxProtocols number)) := by
  induction count with
  | zero => rfl
  | succ count induction =>
      have here : Fin.ofNat maxProtocols count =
          ⟨count, inside⟩ := Fin.ext (Nat.mod_eq_of_lt inside)
      rw [List.range_succ, List.mapM_append, induction (by omega),
        List.map_append]
      have row : atr.row? count =
          some (atr.ib (Fin.ofNat maxProtocols count)) := by
        rw [here]
        exact dif_pos inside
      have one : [count].mapM atr.row? =
          some [atr.ib (Fin.ofNat maxProtocols count)] := by
        rw [List.mapM_cons, row]
        rfl
      rw [one]
      rfl

/-- The first rows are the beginning of the string behind T0. -/
theorem Filled.flatMap_rawRow
    (filled : Filled text start number pointer atr)
    (accepted : Accepted text number pointer) {count place : Nat}
    (inside : count ≤ number + 1)
    (ends : count = number + 1 ∧ place = groupEnd text pointer ∨
      tdPointer text count = some place) :
    ((List.range count).map fun number =>
        atr.ib (Fin.ofNat maxProtocols number)).flatMap Atr.rawRow =
      (text.drop 2).take (place - 1) := by
  induction count generalizing place with
  | zero =>
      obtain ⟨impossible, -⟩ | first := ends
      · omega
      · rw [← Option.some.inj first]
        rfl
  | succ count induction =>
      have few := accepted.few
      have row : (Fin.ofNat maxProtocols count).val = count :=
        Nat.mod_eq_of_lt (by omega)
      -- the byte that announces the last of these rows
      have step : ∃ base, tdPointer text count = some base ∧
          place = base + numIb (text.getD base 0) := by
        rcases ends with ⟨last, rfl⟩ | announced
        · have same : count = number := by omega
          exact ⟨pointer, same ▸ accepted.last.announced, rfl⟩
        · obtain ⟨base, here, -, -, equal⟩ := of_tdPointer_succ announced
          exact ⟨base, here, equal⟩
      obtain ⟨base, announced, rfl⟩ := step
      have positive := tdPointer_pos announced
      have shown (character : Character) :
          (atr.ib (Fin.ofNat maxProtocols count) character).shown =
            characterAt text base character := by
        rw [filled.rows _ (by omega), row, groupCharacter, announced]
        rfl
      rw [List.range_succ, List.map_append, List.flatMap_append,
        induction (by omega) (.inr announced), List.map_singleton,
        List.flatMap_singleton,
        rawRow_eq (accepted.last.fits_all announced) shown,
        show base + numIb (text.getD base 0) - 1 =
          base - 1 + numIb (text.getD base 0) by omega,
        List.take_add, List.drop_drop, show 2 + (base - 1) = base + 1 by omega]

theorem Filled.getRaw (filled : Filled text start number pointer atr)
    (accepted : Accepted text number pointer) :
    atr.getRaw = some (text.take atr.length) ∧ atr.length ≤ text.length := by
  have few := accepted.few
  have inside := accepted.inside
  have positive := tdPointer_pos accepted.last.announced
  have ends : pointer ≤ groupEnd text pointer := Nat.le_add_right _ _
  have rows := filled.flatMap_rawRow accepted (Nat.le_refl _)
    (.inl ⟨rfl, rfl⟩)
  have first : atr.ts :: atr.t0 :: (text.drop 2).take
      (groupEnd text pointer - 1) = text.take (groupEnd text pointer + 1) := by
    rw [filled.ts, filled.t0,
      show groupEnd text pointer + 1 = 2 + (groupEnd text pointer - 1) by
        omega, List.take_add]
    obtain ⟨ts, t0, rest, rfl⟩ : ∃ ts t0 rest, text = ts :: t0 :: rest := by
      match text, inside with
      | [_], inside => simp at inside; omega
      | ts :: t0 :: rest, _ => exact ⟨ts, t0, rest, rfl⟩
    rfl
  have second : text.take (groupEnd text pointer + 1) ++
        atr.hb.read 0 atr.hbn =
      text.take (groupEnd text pointer + takenHbn text pointer + 1) := by
    rw [filled.hb, ← List.take_add]
    congr 1
    omega
  have whole : text.take (groupEnd text pointer + takenHbn text pointer + 1) ++
      atr.tck.shown.toList = text.take atr.length := by
    rw [filled.tck, filled.length]
    by_cases check : hasTck text number pointer
    · have last := toList_slice (accepted.check check)
      rw [if_pos check, if_pos check, Option.toList_some, last,
        ← List.take_add]
    · rw [if_neg check, if_neg check]
      exact List.append_nil _
  constructor
  · unfold Atr.getRaw
    rw [filled.pn, mapM_row? atr (by omega), Option.map_some, rows, first,
      second, whole]
  · rw [filled.length]
    split
    · rename_i check
      have last := accepted.check check
      omega
    · omega

end

/-! ## The other answers -/

theorem one_lt_maxProtocols : 1 < maxProtocols := by decide

/-- The row of `ib` for the first group, and the one for the second. -/
def firstRow : Fin maxProtocols :=
  ⟨0, Nat.lt_of_succ_lt one_lt_maxProtocols⟩

def secondRow : Fin maxProtocols := ⟨1, one_lt_maxProtocols⟩

/-- The element of `ib` that an integer value is read from. -/
def IntegerValue.source : IntegerValue → Fin maxProtocols × Character
  | .fi => (firstRow, .ta)
  | .di => (firstRow, .ta)
  | .ii => (firstRow, .tb)
  | .pi1 => (firstRow, .tb)
  | .n => (firstRow, .tc)
  | .pi2 => (secondRow, .tb)

/-- The part of the byte that an integer value is. -/
def IntegerValue.part (value : UInt8) : IntegerValue → UInt8
  | .fi => (value &&& 0xF0) >>> 4
  | .di => value &&& 0x0F
  | .ii => (value &&& 0x60) >>> 5
  | .pi1 => value &&& 0x1F
  | .n => value
  | .pi2 => value

theorem ofOption_map_shown {α : Type} (part : UInt8 → α)
    (byte : InterfaceByte) :
    (if byte.present then Answer.ok (part byte.value) else .notFound) =
      .ofOption (byte.shown.map part) := by
  unfold InterfaceByte.shown
  split <;> rfl

theorem getIntegerValue_eq (atr : Atr) (name : IntegerValue) :
    atr.getIntegerValue name =
      .ofOption ((atr.ib name.source.1 name.source.2).shown.map
        fun value => name.part value) := by
  rw [← ofOption_map_shown]
  cases name <;> rfl

/-- The same answer of all getters but `ATR_GetRaw`. -/
structure SameAnswers (first second : Atr) : Prop where
  convention : first.getConvention = second.getConvention
  size : first.getSize = second.getSize
  numberOfProtocols :
    first.getNumberOfProtocols = second.getNumberOfProtocols
  protocolType : ∀ number,
    first.getProtocolType number = second.getProtocolType number
  interfaceByte : ∀ number character,
    first.getInterfaceByte number character =
      second.getInterfaceByte number character
  integerValue : ∀ name,
    first.getIntegerValue name = second.getIntegerValue name
  parameter : ∀ name, first.getParameter name = second.getParameter name
  historicalBytes : first.getHistoricalBytes = second.getHistoricalBytes
  checkByte : first.getCheckByte = second.getCheckByte
  fsMax : first.getFsMax = second.getFsMax

section

variable {text : List UInt8} {start other first second : Atr}
variable {number pointer : Nat}

theorem Filled.row? (filled : Filled text start number pointer first)
    (again : Filled text other number pointer second)
    (few : number < maxProtocols) {group : Nat} (inside : group < number + 1)
    (character : Character) :
    ∃ left right, first.row? group = some left ∧
      second.row? group = some right ∧
      (left character).shown = (right character).shown := by
  have place : group < maxProtocols := by omega
  refine ⟨_, _, dif_pos place, dif_pos place, ?_⟩
  rw [filled.rows ⟨group, place⟩ inside, again.rows ⟨group, place⟩ inside]

/-- A getter for one row that looks at one character. -/
theorem Filled.map_row? (filled : Filled text start number pointer first)
    (again : Filled text other number pointer second)
    (few : number < maxProtocols) {group : Nat} (inside : group < number + 1)
    (character : Character) {α : Type} (answer : Option UInt8 → α) :
    ((first.row? group).map fun row => answer (row character).shown) =
      (second.row? group).map fun row => answer (row character).shown := by
  obtain ⟨left, right, here, there, same⟩ :=
    filled.row? again few inside character
  rw [here, there, Option.map_some, Option.map_some, same]

theorem Filled.getProtocolType (filled : Filled text start number pointer first)
    (again : Filled text other number pointer second)
    (few : number < maxProtocols) (group : Nat) :
    first.getProtocolType group = second.getProtocolType group := by
  have answer (row : Character → InterfaceByte) :
      (if (row .td).present then Answer.ok ((row .td).value &&& 0x0F)
        else .ok protocolT0) =
        match (row .td).shown with
        | some value => .ok (value &&& 0x0F)
        | none => .ok protocolT0 := by
    unfold InterfaceByte.shown
    split <;> rfl
  unfold Atr.getProtocolType
  simp only [filled.pn, again.pn, answer]
  by_cases out : number + 1 < group ∨ group < 1
  · rw [if_pos out, if_pos out]
  · have inside : group - 1 < number + 1 := by omega
    rw [if_neg out, if_neg out]
    exact filled.map_row? again few inside .td
      fun shown => match shown with
        | some value => Answer.ok (value &&& 0x0F)
        | none => .ok protocolT0

theorem Filled.sameInterfaceByte
    (filled : Filled text start number pointer first)
    (again : Filled text other number pointer second)
    (few : number < maxProtocols) (group : Nat) (character : Character) :
    first.getInterfaceByte group character =
      second.getInterfaceByte group character := by
  unfold Atr.getInterfaceByte
  simp only [filled.pn, again.pn, ofOption_map_shown fun value => value]
  by_cases out : number + 1 < group ∨ group < 1
  · rw [if_pos out, if_pos out]
  · have inside : group - 1 < number + 1 := by omega
    rw [if_neg out, if_neg out]
    exact filled.map_row? again few inside character
      fun shown => Answer.ofOption (shown.map fun value => value)

/-- An integer value that is read from a group that the string has. -/
theorem Filled.sameIntegerValue
    (filled : Filled text start number pointer first)
    (again : Filled text other number pointer second) {name : IntegerValue}
    (inside : name.source.1.val < number + 1) :
    first.getIntegerValue name = second.getIntegerValue name := by
  rw [getIntegerValue_eq, getIntegerValue_eq, filled.rows _ inside,
    again.rows _ inside]

theorem getParameter_eq
    (same : ∀ name, first.getIntegerValue name = second.getIntegerValue name)
    (name : Parameter) :
    first.getParameter name = second.getParameter name := by
  cases name <;> simp only [Atr.getParameter, same]

/-- With a second group, everything is answered from the string. -/
theorem Filled.sameAnswers (filled : Filled text start number pointer first)
    (again : Filled text other number pointer second)
    (few : number < maxProtocols) (two : number ≠ 0) :
    SameAnswers first second := by
  have integers (name : IntegerValue) :
      first.getIntegerValue name = second.getIntegerValue name := by
    apply filled.sameIntegerValue again
    cases name with
    | pi2 => exact Nat.succ_lt_succ (Nat.pos_of_ne_zero two)
    | _ => exact Nat.succ_pos number
  have check : first.tck.shown = second.tck.shown := by
    rw [filled.tck, again.tck]
  constructor
  · simp only [Atr.getConvention, filled.ts, again.ts]
  · simp only [Atr.getSize, filled.length, again.length]
  · simp only [Atr.getNumberOfProtocols, filled.pn, again.pn]
  · exact filled.getProtocolType again few
  · exact filled.sameInterfaceByte again few
  · exact integers
  · exact getParameter_eq integers
  · unfold Atr.getHistoricalBytes
    rw [filled.hb, again.hb, filled.hbn, again.hbn]
  · unfold Atr.getCheckByte
    rw [ofOption_map_shown fun value => value,
      ofOption_map_shown fun value => value, check]
  · simp only [Atr.getFsMax, integers]

end

/-- `ATR_GetRaw` gives back the beginning of the string, and the other getters
answer the same whatever the structure held before. -/
structure FromString (atrBuffer : List UInt8) : Prop where
  raw : ∀ start atr, initFromArray start atrBuffer = .ok atr →
    atr.getRaw = some ((toDirect atrBuffer).take atr.length) ∧
      atr.length ≤ atrBuffer.length
  answers : ∀ start atr other second,
    initFromArray start atrBuffer = .ok atr →
    initFromArray other atrBuffer = .ok second → SameAnswers atr second

theorem getRaw_of_initFromArray {start atr : Atr} {atrBuffer : List UInt8}
    (ok : initFromArray start atrBuffer = .ok atr) :
    atr.getRaw = some ((toDirect atrBuffer).take atr.length) ∧
      atr.length ≤ atrBuffer.length := by
  obtain ⟨number, pointer, accepted, filled⟩ := filled_of_initFromArray ok
  rw [← length_toDirect atrBuffer]
  exact filled.getRaw accepted

/-- The structure with a TB2 of the card before. -/
def withTb2 (value : UInt8) (start : Atr) : Atr :=
  start.setIb secondRow .tb ⟨value, true⟩

theorem pi2_of_one_group {text : List UInt8} {start atr : Atr} {pointer : Nat}
    {value : UInt8} (filled : Filled text (withTb2 value start) 0 pointer atr) :
    atr.getIntegerValue .pi2 = .ok value := by
  rw [getIntegerValue_eq]
  change Answer.ofOption (((atr.ib secondRow .tb).shown).map _) = _
  rw [filled.behind secondRow (Nat.le_refl 1), withTb2, setIb_self]
  rfl

/-- All getters answer from the string exactly if T0 announces TD1: without a
second group, PI2 is the one of the card before. -/
theorem getters_from_string_iff {start atr : Atr} {atrBuffer : List UInt8}
    (ok : initFromArray start atrBuffer = .ok atr) :
    (FromString atrBuffer ↔
        announces ((toDirect atrBuffer).getD 1 0) .td) ∧
      atr.getRaw = some ((toDirect atrBuffer).take atr.length) := by
  refine ⟨?_, (getRaw_of_initFromArray ok).1⟩
  obtain ⟨number, pointer, accepted, -⟩ := filled_of_initFromArray ok
  constructor
  · intro settled
    by_contra single
    have first : tdPointer (toDirect atrBuffer) 0 = some 1 := rfl
    have last : LastGroup (toDirect atrBuffer) 0 1 :=
      ⟨first, accepted.last.fits_all first, by simpa using single⟩
    obtain ⟨zero, one⟩ := accepted.last.unique last
    subst zero one
    have accepts (value : UInt8) : ∃ first,
        initFromArray (withTb2 value start) atrBuffer = .ok first ∧
        first.getIntegerValue .pi2 = .ok value := by
      obtain ⟨first, here⟩ := (initFromArray_ok_iff (withTb2 value start)
        atrBuffer).mpr ⟨0, 1, accepted⟩
      obtain ⟨other, place, again, filled⟩ := filled_of_initFromArray here
      obtain ⟨rfl, rfl⟩ := again.last.unique last
      exact ⟨first, here, pi2_of_one_group filled⟩
    obtain ⟨first, left, zero⟩ := accepts 0
    obtain ⟨second, right, one⟩ := accepts 1
    have same := (settled.answers _ _ _ _ left right).integerValue .pi2
    rw [zero, one] at same
    simp at same
  · intro more
    refine ⟨fun _ _ => getRaw_of_initFromArray, ?_⟩
    intro start first other second left right
    obtain ⟨number, pointer, accepted, filled⟩ := filled_of_initFromArray left
    obtain ⟨again, place, twice, refilled⟩ := filled_of_initFromArray right
    obtain ⟨rfl, rfl⟩ := twice.last.unique accepted.last
    apply filled.sameAnswers refilled accepted.few
    rintro rfl
    have single := accepted.last.last
    rw [← Option.some.inj accepted.last.announced, more] at single
    contradiction

/-- An answer to reset with two groups, of which the second is empty. -/
def atrT1 : List UInt8 := [0x3B, 0x80, 0x01, 0x81]

theorem getters_from_string_atrT1 : FromString atrT1 :=
  (getters_from_string_iff
    (show initFromArray emptyAtr atrT1 = .ok _ from rfl)).1.mpr rfl

/-- The shortest answer to reset says nothing about PI2, and the getter
answers with the one of the card before. -/
theorem pi2_of_the_card_before : ¬ ∀ (start atr : Atr) (atrBuffer : List UInt8),
    initFromArray start atrBuffer = .ok atr → FromString atrBuffer := by
  intro always
  have settled := always emptyAtr _ [0x3B, 0x00] rfl
  have same := (settled.answers (withTb2 0 emptyAtr) _ (withTb2 1 emptyAtr) _
    rfl rfl).integerValue .pi2
  have left : Answer.ok (0 : UInt8) = Answer.ok 1 := same
  simp at left

end Oscam.Reset
