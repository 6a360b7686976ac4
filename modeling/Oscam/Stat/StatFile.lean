import Oscam.Numerals
import Oscam.Stat.Records

/-!
# The file with the statistics

`save_stat_to_file_thread` writes a line for each record of each reader, and
`load_stat_from_file` reads such a file, or one in the older format.
-/

namespace Oscam.Stat

open Monitor (ascii cstr)
open Serial (gethexval)

/-- A reader of `configured_readers` with its records. -/
structure StatReader where
  label : List UInt8
  lbStat : List StatNode
  text : 0 ∉ label
  short : label.length < 64
  deriving DecidableEq, Repr

namespace StatReader

def records (rdr : StatReader) : List ReaderStat := rdr.lbStat.map (·.stat)

/-- The reader as it is at the start. -/
def cleared (rdr : StatReader) : StatReader := { rdr with lbStat := [] }

end StatReader

/-- The values of the fields fit into their types. -/
structure ReaderStat.Typed (stat : ReaderStat) : Prop where
  rc : int32 stat.rc = stat.rc
  caid : stat.caid < 2 ^ 16
  prid : stat.prid < 2 ^ 32
  srvid : stat.srvid < 2 ^ 16
  ecmlen : int16 stat.ecmlen = stat.ecmlen
  lastReceived : stat.lastReceived.bmod (2 ^ 64) = stat.lastReceived
  ecmCount : int32 stat.ecmCount = stat.ecmCount
  timeAvg : int32 stat.timeAvg = stat.timeAvg
  failFactor : int32 stat.failFactor = stat.failFactor

/-! ## Writing -/

/-- The fields behind the label, as `fprintf` writes them. -/
def statFields (stat : ReaderStat) : List (List UInt8) :=
  [decimal stat.rc, hexadecimal 4 stat.caid, hexadecimal 6 stat.prid,
    hexadecimal 4 stat.srvid, decimal stat.timeAvg, decimal stat.ecmCount,
    decimal stat.lastReceived, decimal stat.failFactor,
    hexadecimal 2 (stat.ecmlen % 2 ^ 16).toNat]

/-- The line of a record. -/
def statLine (label : List UInt8) (stat : ReaderStat) : List UInt8 :=
  [44].intercalate (label :: statFields stat) ++ [10]

/-- `save_stat_to_file_thread`: the readers without their old records, and the
file. -/
def saveStatToFileThread (cleanupTime : Int) (readers : List StatReader) :
    List StatReader × List UInt8 :=
  let readers := readers.map fun rdr =>
    { rdr with
      lbStat := rdr.lbStat.filter fun node =>
        cleanupTime ≤ node.stat.lastReceived }
  (readers, readers.flatMap fun rdr => rdr.records.flatMap (statLine rdr.label))

/-! ## Reading the older format -/

/-- The directives of `sscanf` in the format; `blank` is white space. -/
inductive Directive where
  | blank
  | literal (c : UInt8)
  | word
  | decimal
  | hexadecimal (width : Nat)
  deriving DecidableEq, Repr

/-- What a directive stores. -/
inductive Conversion where
  | word (txt : List UInt8)
  | number (value : Int)
  deriving DecidableEq, Repr

def Conversion.value : Conversion → Int
  | .word _ => 0
  | .number value => value

/-- The sign of a number, and what comes behind it. -/
def scanSign : List UInt8 → Int × List UInt8
  | 45 :: txt => (-1, txt)
  | 43 :: txt => (1, txt)
  | txt => (1, txt)

/-- The characters `0x` may stand in front of hexadecimal digits. -/
def scanBase : List UInt8 → List UInt8
  | 48 :: 120 :: txt => txt
  | 48 :: 88 :: txt => txt
  | txt => txt

/-- `%d` and `%ld`: the number, and the text behind it. -/
def scanDecimal (txt : List UInt8) : Option (Int × List UInt8) :=
  let (sign, txt) := scanSign (txt.dropWhile isSpace)
  if txt.takeWhile isDigit = [] then none
  else some (sign * leadingNumber txt, txt.dropWhile isDigit)

/-- `%X` with a width. -/
def scanHexadecimal (width : Nat) (txt : List UInt8) :
    Option (Int × List UInt8) :=
  let txt := txt.dropWhile isSpace
  let (sign, field) := scanSign (txt.take width)
  let field := scanBase field
  let digits := field.takeWhile fun c => (gethexval c).isSome
  match digits, hexValue digits.reverse with
  | _ :: _, some value =>
      some (sign * value, field.drop digits.length ++ txt.drop width)
  | _, _ => none

/-- `sscanf`: the values up to the first directive that does not match. -/
def sscanf : List Directive → List UInt8 → List Conversion
  | [], _ => []
  | .blank :: format, txt => sscanf format (txt.dropWhile isSpace)
  | .literal c :: format, txt =>
      if txt.head? = some c then sscanf format txt.tail else []
  | .word :: format, txt =>
      let txt := txt.dropWhile isSpace
      let word := txt.takeWhile fun c => !isSpace c
      if word = [] then []
      else .word word :: sscanf format (txt.dropWhile fun c => !isSpace c)
  | .decimal :: format, txt =>
      match scanDecimal txt with
      | none => []
      | some (value, txt) => .number value :: sscanf format txt
  | .hexadecimal width :: format, txt =>
      match scanHexadecimal width txt with
      | none => []
      | some (value, txt) => .number value :: sscanf format txt

/-- Words that the format has between two fields. -/
def literals (text : String) : List Directive :=
  .blank :: (ascii text).map .literal

/-- The format of the older lines. -/
def oldFormat : List Directive :=
  List.flatten
    [[.word], literals "rc", [.blank, .decimal],
      literals "caid", [.blank, .hexadecimal 4],
      literals "prid", [.blank, .hexadecimal 6],
      literals "srvid", [.blank, .hexadecimal 4],
      literals "time", literals "avg", [.blank, .decimal],
      (ascii "ms").map .literal, literals "ecms", [.blank, .decimal],
      literals "last", [.blank, .decimal],
      literals "fail", [.blank, .decimal],
      literals "len", [.blank, .hexadecimal 2, .blank]]

/-- `buf` and the record of an older line.  Fields that were not reached are
zero. -/
def readOld (line : List UInt8) : Option (List UInt8 × ReaderStat) :=
  match sscanf oldFormat line with
  | .word buf :: fields =>
      let value := fun place => (fields[place]?.map (·.value)).getD 0
      if fields.length + 1 > 5 then
        some (buf,
          { rc := int32 (value 0)
            caid := (value 1 % 2 ^ 16).toNat
            prid := (value 2 % 2 ^ 32).toNat
            srvid := (value 3 % 2 ^ 16).toNat
            timeAvg := int32 (value 4)
            ecmCount := int32 (value 5)
            lastReceived := value 6
            failFactor := int32 (value 7)
            ecmlen := int16 (value 8) })
      else none
  | _ => none

/-! ## Reading -/

/-- `atoi`. -/
def atoi (txt : List UInt8) : Int := int32 (atol txt)

/-- What `a2i` returns. -/
def a2iValue (txt : List UInt8) (bytes : Nat) : Nat :=
  (a2i txt bytes).getD a2iError

/-- `buf` and the record of a line. -/
def readNew (line : List UInt8) : Option (List UInt8 × ReaderStat) :=
  match (strtok 44 line).take 10 with
  | [label, rc, caid, prid, srvid, timeAvg, ecmCount, lastReceived, failFactor,
      ecmlen] =>
      some (label.take 255,
        { rc := atoi rc
          caid := a2iValue caid 4 % 2 ^ 16
          prid := a2iValue prid 6
          srvid := a2iValue srvid 4 % 2 ^ 16
          timeAvg := atoi timeAvg
          ecmCount := atoi ecmCount
          lastReceived := atol lastReceived
          failFactor := atoi failFactor
          ecmlen := int16 (a2iValue ecmlen 2) })
  | _ => none

/-- `type`, the variant of the format. -/
inductive FileType where
  | new
  | old
  deriving DecidableEq, Repr

/-- The variant that the first line shows: `strstr(line, " rc ")`. -/
def fileType (line : List UInt8) : FileType :=
  if ascii " rc " <:+: line then .old else .new

def FileType.read : FileType → List UInt8 → Option (List UInt8 × ReaderStat)
  | .new => readNew
  | .old => readOld

/-- A record behind the others, with full debug only if `get_stat` finds none
for it. -/
def appendStat (cfg : LbCfg) (fullDebug : Bool) (nodes : List StatNode)
    (stat : ReaderStat) : List StatNode :=
  if fullDebug then
    match getStatNodes cfg nodes stat.caid stat.prid stat.srvid stat.ecmlen with
    | (nodes, some _) => nodes
    | (nodes, none) => nodes ++ [{ stat, flag := 0 }]
  else nodes ++ [{ stat, flag := 0 }]

/-- The reader with the label: the last one, or else the first that has it. -/
def findReader (readers : List StatReader) (rdr : Option Nat)
    (buf : List UInt8) : Option Nat :=
  if (rdr.bind fun place => readers[place]?).map (·.label) = some buf then rdr
  else readers.findIdx? (·.label == buf)

/-- The variables of `load_stat_from_file`; `rdr` is a place in the list of
the readers, `type` is `none` before the first line. -/
structure LoadState where
  readers : List StatReader
  rdr : Option Nat
  type : Option FileType

/-- A record that was read goes to the reader with the label. -/
def LoadState.addStat (cfg : LbCfg) (fullDebug : Bool) (s : LoadState)
    (buf : List UInt8) (stat : ReaderStat) : LoadState :=
  match findReader s.readers s.rdr buf with
  | none => { s with rdr := none }
  | some place =>
      { s with
        rdr := some place
        readers := s.readers.modify place fun rdr =>
          { rdr with lbStat := appendStat cfg fullDebug rdr.lbStat stat } }

/-- The line is neither empty nor a comment. -/
def kept (line : List UInt8) : Bool :=
  line.head? != none && line.head? != some 35 && line.head? != some 59

/-- One turn of the loop over the lines. -/
def LoadState.loadLine (cfg : LbCfg) (fullDebug : Bool) (s : LoadState)
    (line : List UInt8) : LoadState :=
  let line := cstr line
  if kept line then
    let type := s.type.getD (fileType line)
    let s := { s with type := some type }
    match type.read line with
    | none => s
    | some (buf, stat) => s.addStat cfg fullDebug buf stat
  else s

/-- `load_stat_from_file`; `fullDebug` is `cs_dblevel == 0xFF`. -/
def loadStatFromFile (cfg : LbCfg) (fullDebug : Bool) (file : List UInt8)
    (readers : List StatReader) : List StatReader :=
  ((fgetsLines 1024 file).foldl (LoadState.loadLine cfg fullDebug)
    { readers, rdr := none, type := none }).readers

end Oscam.Stat
