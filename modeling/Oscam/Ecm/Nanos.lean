import Oscam.Lib.Prefix
import Oscam.Protocol.EcmLength

/-!
# The nanos of an ECM

`chk_class` walks through the class nanos of a Viaccess ECM, and `chk_provid`
takes the provider out of the nanos of an ECM.  Both jump by lengths that are
bytes of the section.  A read outside of the 512 bytes of `er->ecm` is `none`.
-/

namespace Oscam.Nanos

/-- A byte of `er->ecm`. -/
def byteAt (ecm : Memory) (i : Nat) : Option UInt8 := ecm.within 512 i

/-! ## `chk_class` -/

/-- The loop of `find_nano`, with `n` bytes of the section left.  It reads a
byte before it compares the place with the length. -/
def scan (ecm : Memory) (nano : UInt8) : Nat → Nat → Option Nat
  | 0, s => (byteAt ecm s).map fun _ => 0
  | n + 1, s =>
      (byteAt ecm s).bind fun byte =>
        if byte = nano then some (s + 1)
        else if byte = 0xEA then some 0
        else scan ecm nano n (s + 1)

/-- `find_nano`: the place behind the next nano, 0 if there is none. -/
def findNano (ecm : Memory) (l : Nat) (nano : UInt8) (s : Nat) : Option Nat :=
  if l ≤ s then some 0
  else if s = 0 then
    (byteAt ecm 4).bind fun tpsflag =>
      let s := if tpsflag = 0xD2 then 12 else 9
      scan ecm nano (l - s) s
  else scan ecm nano (l - s) s

/-- `CS_NANO_CLASS`. -/
abbrev csNanoClass : UInt8 := 0xE2

/-- `CLASSTAB`: two arrays of 31 bytes. -/
structure Classtab where
  aclass : List UInt8
  bclass : List UInt8
  an : aclass.length ≤ 31
  bn : bclass.length ≤ 31

/-- The end of `chk_class`: `clN` classes have been found, `an` of them
allowed. -/
def Classtab.verdict (tab : Classtab) (clN an : Nat) : Bool :=
  !(decide (0 < clN) && !tab.aclass.isEmpty && decide (an = 0))

/-- The loop of `chk_class`.  Every turn comes at least one byte further, so
that `n` turns are enough for as many bytes. -/
def classLoop (tab : Classtab) (ecm : Memory) (l : Nat) :
    Nat → Nat → Nat → Nat → Option Bool
  | 0, _, clN, an => some (tab.verdict clN an)
  | n + 1, j, clN, an =>
      (findNano ecm l csNanoClass j).bind fun j =>
        if j = 0 then some (tab.verdict clN an)
        else
          (byteAt ecm j).bind fun len =>
          (byteAt ecm (j + len.toNat)).bind fun ecmClass =>
            if ecmClass ∈ tab.bclass then some false
            else
              classLoop tab ecm l n (j + len.toNat) (clN + 1)
                (if ecmClass ∈ tab.aclass then an + 1 else an)

/-- `chk_class`. -/
def chkClass (caid : Nat) (tab : Classtab) (ecm : Memory) (l : Nat) :
    Option Bool :=
  if caid ≠ 0x0500 then some true
  else if tab.bclass.isEmpty && tab.aclass.isEmpty then some true
  else classLoop tab ecm l l 0 0 0

/-! ## `chk_provid` -/

/-- `b2i` for two and three bytes. -/
def b2i : Nat → Memory → Nat → Option Nat
  | 2, ecm, i =>
      (byteAt ecm i).bind fun first => (byteAt ecm (i + 1)).map fun second =>
        first.toNat * 256 + second.toNat
  | 3, ecm, i =>
      (byteAt ecm i).bind fun first => (byteAt ecm (i + 1)).bind fun second =>
      (byteAt ecm (i + 2)).map fun third =>
        first.toNat * 65536 + second.toNat * 256 + third.toNat
  | _, _, _ => some 0

/-- The provider nano of Viaccess behind a d2 nano that may stand at `start`:
a provider in place of the one so far if it is there. -/
def viaccessNano (ecm : Memory) (start : Nat) (length : UInt8)
    (provid : Nat) : Option Nat :=
  (byteAt ecm start).bind fun nano =>
  (if nano = 0xD2 then (byteAt ecm (start + 1)).map fun skip => skip.toNat + 2
    else some 0).bind fun i =>
  (byteAt ecm (start + 1 + i)).bind fun len =>
    if len = length then
      (byteAt ecm (start + i)).bind fun nano =>
        if nano = 0x90 ∨ nano = 0x40 then
          (b2i 3 ecm (start + 2 + i)).map fun value => value &&& 0xFFFFF0
        else some provid
    else some provid

/-- The loop for cryptoworks, with the length of the section. -/
def cryptoworksLoop (ecm : Memory) (len : Nat) : Nat → Nat → Option Nat
  | 0, _ => some 0
  | n + 1, i =>
      if i < len then
        (byteAt ecm (i + 1)).bind fun descriptorLength =>
        (byteAt ecm i).bind fun descriptor =>
          if descriptor = 0x83 then
            (byteAt ecm (i + 2)).map fun provid => provid.toNat &&& 0xFE
          else
            cryptoworksLoop ecm len n (i + (descriptorLength.toNat + 2))
      else some 0

/-- `chk_provid`; the caids of the load balancer only set a zero to zero. -/
def chkProvid (ecm : Memory) (caid : Nat) : Option Nat :=
  if caid / 256 = 0x01 then b2i 2 ecm 3
  else if caid / 256 = 0x05 then
    (viaccessNano ecm 4 3 0).bind fun provid => viaccessNano ecm 6 7 provid
  else if caid / 256 = 0x0D then
    (byteAt ecm 1).bind fun high => (byteAt ecm 2).bind fun low =>
      let len := (high.toNat &&& 0xf) * 256 + low.toNat + 3
      cryptoworksLoop ecm len len 8
  else some 0

end Oscam.Nanos
