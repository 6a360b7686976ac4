import Oscam.Lib.Memory

/-!
# The answer to reset

`ATR_InitFromArray` takes an answer to reset to pieces: groups of interface
characters, of which the last one announces the next group, historical bytes
and a check character.  The structure is the one of the card before.
-/

namespace Oscam.Reset

/-- `ATR_INTERFACE_BYTE_TA` to `ATR_INTERFACE_BYTE_TD`. -/
inductive Character where
  | ta
  | tb
  | tc
  | td
  deriving DecidableEq, Repr

/-- `ATR_INTEGER_VALUE_FI` to `ATR_INTEGER_VALUE_PI2`. -/
inductive IntegerValue where
  | fi
  | di
  | ii
  | pi1
  | n
  | pi2
  deriving DecidableEq, Repr

/-- `ATR_PARAMETER_F` to `ATR_PARAMETER_N`. -/
inductive Parameter where
  | f
  | d
  | i
  | p
  | n
  deriving DecidableEq, Repr

/-- `ATR_CONVENTION_DIRECT` and `ATR_CONVENTION_INVERSE`. -/
inductive Convention where
  | direct
  | inverse
  deriving DecidableEq, Repr

/-- `ATR_MAX_PROTOCOLS`. -/
abbrev maxProtocols : Nat := 7

/-- `ATR_MAX_HISTORICAL`. -/
abbrev maxHistorical : Nat := 15

/-- `ATR_PROTOCOL_TYPE_T0`. -/
abbrev protocolT0 : UInt8 := 0

/-- `ATR_PROTOCOL_TYPE_T14`. -/
abbrev protocolT14 : UInt8 := 14

structure InterfaceByte where
  value : UInt8
  present : Bool
  deriving DecidableEq, Repr

/-- A byte that is present. -/
def InterfaceByte.shown (byte : InterfaceByte) : Option UInt8 :=
  if byte.present then some byte.value else none

/-- `ATR`. -/
structure Atr where
  length : Nat
  ts : UInt8
  t0 : UInt8
  ib : Fin maxProtocols → Character → InterfaceByte
  tck : InterfaceByte
  pn : Nat
  hb : Memory
  hbn : Nat

/-- The structure before the first card. -/
def emptyAtr : Atr where
  length := 0
  ts := 0
  t0 := 0
  ib := fun _ _ => ⟨0, false⟩
  tck := ⟨0, false⟩
  pn := 0
  hb := Memory.zero
  hbn := 0

/-- `atr_fs_table`. -/
def fsTable : List Nat :=
  [4000000, 5000000, 6000000, 8000000, 12000000, 16000000, 20000000, 0, 0,
    5000000, 7500000, 10000000, 15000000, 20000000, 0, 0]

/-- `atr_num_ib_table`. -/
def numIbTable : List Nat := [0, 1, 1, 2, 1, 2, 2, 3, 1, 2, 2, 3, 2, 3, 3, 4]

/-- `atr_f_table`. -/
def fTable : List Nat :=
  [372, 372, 558, 744, 1116, 1488, 1860, 0, 0, 512, 768, 1024, 1536, 2048, 0,
    0]

/-- `atr_d_table`. -/
def dTable : List Rat :=
  [0, 1, 2, 4, 8, 16, 32, 64, 12, 20, 1 / 2, 1 / 4, 1 / 8, 1 / 16, 1 / 32,
    1 / 64]

/-- `atr_i_table`. -/
def iTable : List Nat := [25, 50, 100, 0]

/-- The number of interface characters that a character announces. -/
def numIb (tdi : UInt8) : Nat := numIbTable.getD ((0xF0 &&& tdi) >>> 4).toNat 0

/-! ## Reading the string -/

/-- `INVERT_BYTE`. -/
def invertByte (a : UInt8) : UInt8 :=
  let left (places mask : UInt8) : UInt8 := (a <<< places) &&& mask
  let right (places mask : UInt8) : UInt8 := (a >>> places) &&& mask
  left 7 0x80 ||| left 5 0x40 ||| left 3 0x20 ||| left 1 0x10 |||
    right 1 0x08 ||| right 3 0x04 ||| right 5 0x02 ||| right 7 0x01

/-- The string in direct convention. -/
def toDirect (atrBuffer : List UInt8) : List UInt8 :=
  if atrBuffer.getD 0 0 = 0x03 then
    atrBuffer.map fun byte => ~~~ invertByte byte
  else atrBuffer

@[simp] theorem length_toDirect (atrBuffer : List UInt8) :
    (toDirect atrBuffer).length = atrBuffer.length := by
  unfold toDirect
  split
  · exact List.length_map _
  · rfl

/-- What a function that fills the structure ends with.  It is `outside`
where it would write to an element that an array does not have. -/
inductive Init where
  | ok (atr : Atr)
  | malformed (atr : Atr)
  | outside

/-- What the loop over the groups ends with. -/
inductive Loop where
  | done (pointer : Nat) (pn : Fin maxProtocols) (atr : Atr)
  | malformed (atr : Atr)
  | outside

/-- The bits that are not looked at for a character. -/
def Character.mask : Character → UInt8
  | .ta => 0xEF
  | .tb => 0xDF
  | .tc => 0xBF
  | .td => 0x7F

/-- `TDi` announces the character. -/
def announces (tdi : UInt8) (character : Character) : Bool :=
  tdi ||| character.mask == 0xFF

namespace Atr

/-- One element of `ib` gets another value. -/
def setIb (atr : Atr) (pn : Fin maxProtocols) (character : Character)
    (byte : InterfaceByte) : Atr :=
  { atr with
    ib := Function.update atr.ib pn
      (Function.update (atr.ib pn) character byte) }

end Atr

/-- The test for one character: the next byte is taken, or the character is
marked as absent. -/
def extractByte (buffer : List UInt8) (tdi : UInt8) (pn : Fin maxProtocols)
    (character : Character) (state : Nat × Atr) : Nat × Atr :=
  let (pointer, atr) := state
  if announces tdi character then
    (pointer + 1,
      atr.setIb pn character ⟨buffer.getD (pointer + 1) 0, true⟩)
  else
    (pointer, atr.setIb pn character
      { atr.ib pn character with present := false })

/-- The characters of one group. -/
def extractGroup (buffer : List UInt8) (tdi : UInt8) (pn : Fin maxProtocols)
    (pointer : Nat) (atr : Atr) : Nat × Atr :=
  extractByte buffer tdi pn .td <|
    extractByte buffer tdi pn .tc <|
      extractByte buffer tdi pn .tb <|
        extractByte buffer tdi pn .ta (pointer, atr)

/-- The loop that extracts the interface bytes, with `left` rows of `ib` left
from row `pn` on.  A character that announces a group stands in front of the
end, so the loop only ends by its `break`.  The test for `ATR_MAX_PROTOCOLS`
comes behind the writing of the row. -/
def extractGroups (buffer : List UInt8) :
    Nat → Nat → Nat → UInt8 → Atr → Loop
  | left, pn, pointer, tdi, atr =>
    if pointer + numIb tdi ≥ buffer.length then .malformed atr
    else
      match left with
      | 0 => .outside
      | left + 1 =>
        let row := Fin.ofNat maxProtocols pn
        let (pointer, atr) := extractGroup buffer tdi row pointer atr
        if announces tdi .td then
          let tdi := buffer.getD pointer 0
          let atr := { atr with
            tck := { atr.tck with present := tdi &&& 0x0F != protocolT0 } }
          extractGroups buffer left (pn + 1) pointer tdi atr
        else .done pointer row atr

/-- TA1 and TB1 of a card with one protocol. -/
def checkFirst (atr : Atr) : Init :=
  if atr.pn = 1 ∧ (atr.ib 0 .ta).present ∧
      fsTable.getD (((atr.ib 0 .ta).value &&& 0xF0) >>> 4).toNat 0 = 0 then
    .malformed atr
  else if atr.pn = 1 ∧ (atr.ib 0 .tb).present ∧
      0x80 < (atr.ib 0 .tb).value then
    .malformed atr
  else .ok atr

/-- The check character. -/
def storeTck (buffer : List UInt8) (pointer : Nat) (atr : Atr) : Init :=
  if atr.tck.present then
    if pointer + 1 ≥ buffer.length then .malformed atr
    else
      checkFirst { atr with
        tck := ⟨buffer.getD (pointer + 1) 0, true⟩
        length := pointer + 1 + 1 }
  else checkFirst { atr with length := pointer + 1 }

/-- The copy to `hb`. -/
def copyHistorical (buffer : List UInt8) (pointer : Nat) (atr : Atr) : Init :=
  if maxHistorical < atr.hbn then .outside
  else
    storeTck buffer (pointer + atr.hbn) { atr with
      hb := atr.hb.write 0 ((buffer.drop (pointer + 1)).take atr.hbn) }

/-- The historical bytes, of which there may be fewer than announced. -/
def storeHistorical (buffer : List UInt8) (pointer : Nat) (atr : Atr) : Init :=
  if pointer + atr.hbn ≥ buffer.length then
    if buffer.length - pointer ≥ 2 then
      copyHistorical buffer pointer
        { atr with hbn := buffer.length - pointer - 2 }
    else .malformed { atr with hbn := 0, length := pointer + 1 }
  else copyHistorical buffer pointer atr

/-- `ATR_InitFromArray`. -/
def initFromArray (atr : Atr) (atrBuffer : List UInt8) : Init :=
  if atrBuffer.length < 2 then .malformed atr
  else
    let buffer := toDirect atrBuffer
    let tdi := buffer.getD 1 0
    let atr := { atr with
      ts := buffer.getD 0 0
      t0 := tdi
      hbn := (tdi &&& 0x0F).toNat
      tck := { atr.tck with present := false } }
    match extractGroups buffer maxProtocols 0 1 tdi atr with
    | .outside => .outside
    | .malformed atr => .malformed atr
    | .done pointer pn atr =>
      storeHistorical buffer pointer { atr with pn := pn.val + 1 }

/-! ## The getters -/

/-- What a getter answers. -/
inductive Answer (α : Type) where
  | ok (value : α)
  | notFound
  | malformed
  deriving DecidableEq, Repr

namespace Answer

variable {α : Type}

/-- A value, or `ATR_NOT_FOUND`. -/
def ofOption : Option α → Answer α
  | some value => .ok value
  | none => .notFound

/-- The value of an answer, or a default. -/
def getD : Answer α → α → α
  | .ok value, _ => value
  | _, default => default

end Answer

namespace Atr

variable (atr : Atr)

/-- A row of `ib`, if the array has it. -/
def row? (number : Nat) : Option (Character → InterfaceByte) :=
  if inside : number < maxProtocols then some (atr.ib ⟨number, inside⟩)
  else none

/-- `ATR_GetConvention`. -/
def getConvention : Answer Convention :=
  if atr.ts = 0x3B then .ok .direct
  else if atr.ts = 0x3F then .ok .inverse
  else .malformed

/-- `ATR_GetSize`. -/
def getSize : Answer Nat := .ok atr.length

/-- `ATR_GetNumberOfProtocols`. -/
def getNumberOfProtocols : Answer Nat := .ok atr.pn

/-- `ATR_GetProtocolType`; nothing where a row is read that `ib` does not
have. -/
def getProtocolType (number : Nat) : Option (Answer UInt8) :=
  if atr.pn < number ∨ number < 1 then some .notFound
  else
    (atr.row? (number - 1)).map fun row =>
      if (row .td).present then .ok ((row .td).value &&& 0x0F)
      else .ok protocolT0

/-- `ATR_GetInterfaceByte`; nothing where a row is read that `ib` does not
have. -/
def getInterfaceByte (number : Nat) (character : Character) :
    Option (Answer UInt8) :=
  if atr.pn < number ∨ number < 1 then some .notFound
  else
    (atr.row? (number - 1)).map fun row =>
      if (row character).present then .ok (row character).value
      else .notFound

/-- `ATR_GetIntegerValue`. -/
def getIntegerValue : IntegerValue → Answer UInt8
  | .fi =>
    if (atr.ib 0 .ta).present then
      .ok (((atr.ib 0 .ta).value &&& 0xF0) >>> 4)
    else .notFound
  | .di =>
    if (atr.ib 0 .ta).present then .ok ((atr.ib 0 .ta).value &&& 0x0F)
    else .notFound
  | .ii =>
    if (atr.ib 0 .tb).present then
      .ok (((atr.ib 0 .tb).value &&& 0x60) >>> 5)
    else .notFound
  | .pi1 =>
    if (atr.ib 0 .tb).present then .ok ((atr.ib 0 .tb).value &&& 0x1F)
    else .notFound
  | .pi2 =>
    if (atr.ib 1 .tb).present then .ok (atr.ib 1 .tb).value else .notFound
  | .n =>
    if (atr.ib 0 .tc).present then .ok (atr.ib 0 .tc).value else .notFound

/-- `ATR_GetParameter`. -/
def getParameter : Parameter → Answer Rat
  | .f => .ok (fTable.getD ((atr.getIntegerValue .fi).getD 1).toNat 0)
  | .d =>
    match atr.getIntegerValue .di with
    | .ok di => .ok (dTable.getD di.toNat 0)
    | _ => .ok 1
  | .i =>
    match atr.getIntegerValue .ii with
    | .ok ii => .ok (iTable.getD ii.toNat 0)
    | _ => .ok 50
  | .p =>
    match atr.getIntegerValue .pi2 with
    | .ok pi2 => .ok pi2.toNat
    | _ =>
      match atr.getIntegerValue .pi1 with
      | .ok pi1 => .ok pi1.toNat
      | _ => .ok 5
  | .n =>
    match atr.getIntegerValue .n with
    | .ok n => .ok n.toNat
    | _ => .ok 0

/-- `ATR_GetHistoricalBytes`. -/
def getHistoricalBytes : Answer (List UInt8) :=
  if atr.hbn = 0 then .notFound else .ok (atr.hb.read 0 atr.hbn)

/-- `ATR_GetCheckByte`. -/
def getCheckByte : Answer UInt8 :=
  if atr.tck.present then .ok atr.tck.value else .notFound

/-- `ATR_GetFsMax`. -/
def getFsMax : Answer Nat :=
  .ok (fsTable.getD ((atr.getIntegerValue .fi).getD 1).toNat 0)

/-- The bytes of one row that `ATR_GetRaw` writes. -/
def rawRow (row : Character → InterfaceByte) : List UInt8 :=
  (row .ta).shown.toList ++ (row .tb).shown.toList ++
    (row .tc).shown.toList ++ (row .td).shown.toList

/-- `ATR_GetRaw`; nothing where a row is read that `ib` does not have. -/
def getRaw : Option (List UInt8) :=
  ((List.range atr.pn).mapM atr.row?).map fun rows =>
    atr.ts :: atr.t0 :: rows.flatMap rawRow ++ atr.hb.read 0 atr.hbn ++
      atr.tck.shown.toList

end Atr

end Oscam.Reset
