import Oscam.Lib.Memory

/-!
# Blocks of the T=1 protocol

A block has a head of three bytes (node address, type, length), an information
field, and a checksum.
-/

namespace Oscam.T1

/-- `T1_Block_LRC`. -/
def lrc (data : List UInt8) : UInt8 := data.foldl (· ^^^ ·) 0

/-- A `T1_Block`, as long as its length byte says. -/
structure Block where
  data : List UInt8
  whole : data.length = (data.getD 2 0).toNat + 4
  deriving DecidableEq

/-! ## Types of blocks -/

/-- `T1_BLOCK_I`. -/
abbrev typeI : UInt8 := 0x00

/-- `T1_BLOCK_R_OK`. -/
abbrev typeROk : UInt8 := 0x80

/-- `T1_BLOCK_S_RESYNCH_REQ`. -/
abbrev typeSResynchReq : UInt8 := 0xC0

/-- `T1_BLOCK_S_RESYNCH_RES`. -/
abbrev typeSResynchRes : UInt8 := 0xE0

/-- `T1_BLOCK_S_IFS_REQ`. -/
abbrev typeSIfsReq : UInt8 := 0xC1

/-- `T1_BLOCK_S_IFS_RES`. -/
abbrev typeSIfsRes : UInt8 := 0xE1

/-- `T1_BLOCK_S_WTX_REQ`. -/
abbrev typeSWtxReq : UInt8 := 0xC3

/-- `T1_BLOCK_S_WTX_RES`. -/
abbrev typeSWtxRes : UInt8 := 0xE3

namespace Block

/-! ## Reading a block -/

variable (block : Block)

/-- `T1_Block_GetType`. -/
def getType : UInt8 :=
  if block.data.getD 1 0 &&& 0x80 = typeI then typeI
  else block.data.getD 1 0 &&& 0xEF

/-- `T1_Block_GetNS`. -/
def getNS : UInt8 := (block.data.getD 1 0 >>> 6) &&& 0x01

/-- `T1_Block_GetMore`. -/
def getMore : Bool := (block.data.getD 1 0 >>> 5) &&& 0x01 != 0

/-- `T1_Block_GetLen`. -/
def getLen : UInt8 := block.data.getD 2 0

/-- `T1_Block_GetInf`: the information field. -/
def getInf : List UInt8 := (block.data.drop 3).take block.getLen.toNat

/-- The checksum of the block is right. -/
def lrcOk : Bool :=
  block.data.getLast? == some (lrc block.data.dropLast)

@[simp] theorem length_getInf : block.getInf.length = block.getLen.toNat := by
  have whole : block.data.length = block.getLen.toNat + 4 := block.whole
  unfold getInf
  rw [List.length_take, List.length_drop]
  omega

/-! ## Making a block -/

/-- A block of some type with its checksum. -/
def make (type len : UInt8) (inf : Memory) : Block where
  data :=
    let head := [0, type, len] ++ inf.read 0 len.toNat
    head ++ [lrc head]
  whole := by simp

/-- `T1_Block_NewIBlock`. -/
def newIBlock (len : UInt8) (inf : Memory) (ns : UInt8) (more : Bool) : Block :=
  make ((typeI ||| ((ns <<< 6) &&& 0x40)) ||| if more then 0x20 else 0) len inf

/-- `T1_Block_NewRBlock`. -/
def newRBlock (type nr : UInt8) : Block :=
  make (type ||| ((nr <<< 4) &&& 0x10)) 0 Memory.zero

/-- `T1_Block_NewSBlock`. -/
def newSBlock (type len : UInt8) (inf : Memory) : Block := make type len inf

variable {type len ns : UInt8} {inf : Memory} {more : Bool}

theorem data_make : (make type len inf).data =
    [0, type, len] ++ inf.read 0 len.toNat ++
      [lrc ([0, type, len] ++ inf.read 0 len.toNat)] := rfl

theorem type_make : (make type len inf).data.getD 1 0 = type := rfl

@[simp] theorem getLen_make : (make type len inf).getLen = len := rfl

@[simp] theorem getInf_make :
    (make type len inf).getInf = inf.read 0 len.toNat := by
  have field : (make type len inf).data.drop 3 =
      inf.read 0 len.toNat ++
        [lrc ([0, type, len] ++ inf.read 0 len.toNat)] := rfl
  rw [getInf, field, getLen_make]
  exact List.take_left' (Memory.length_read _ _ _)

theorem lrcOk_make : (make type len inf).lrcOk = true := by
  rw [lrcOk, data_make, List.getLast?_append_of_ne_nil _ (List.cons_ne_nil _ _),
    List.dropLast_concat]
  simp

/-! ### I-blocks -/

/-- A block with information. -/
def isI : Bool := block.getType == typeI

/-- The send sequence number is one bit. -/
def IsBit (ns : UInt8) : Prop := ns = 0 ∨ ns = 1

theorem getType_make : (make type len inf).getType =
    if type &&& 0x80 = typeI then typeI else type &&& 0xEF := by
  rw [getType, type_make]

theorem isI_newIBlock (bit : IsBit ns) :
    (newIBlock len inf ns more).isI = true := by
  rw [isI, newIBlock, getType_make]
  rcases bit with rfl | rfl <;> cases more <;> decide

theorem getNS_newIBlock (bit : IsBit ns) :
    (newIBlock len inf ns more).getNS = ns := by
  rw [getNS, newIBlock, type_make]
  rcases bit with rfl | rfl <;> cases more <;> decide

theorem getMore_newIBlock (bit : IsBit ns) :
    (newIBlock len inf ns more).getMore = more := by
  rw [getMore, newIBlock, type_make]
  rcases bit with rfl | rfl <;> cases more <;> decide

theorem isI_newRBlock {nr : UInt8} (bit : IsBit nr) :
    (newRBlock typeROk nr).isI = false := by
  rw [isI, newRBlock, getType_make]
  rcases bit with rfl | rfl <;> decide

theorem isI_newSBlock : (newSBlock typeSWtxRes len inf).isI = false := by
  rw [isI, newSBlock, getType_make]
  decide

end Block

end Oscam.T1
