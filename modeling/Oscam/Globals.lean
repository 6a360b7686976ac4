import Mathlib.Data.BitVec

/-!
# Shared data of the card server

Return codes, control words, time stamps and the ECM request of `globals.h`.
A request keeps the fields that the ECM path reads or writes; the list of
matching readers is kept by value, because only the request in the client
table ever changes it.
-/

namespace Oscam

/-! Reader return codes (`E_RDR_*`) and client return codes (`E_*`) share the
field `rc` of a request. -/

abbrev eRdrNotfound : Int := 0
abbrev eRdrFound : Int := 1

abbrev eFound : Int := 0
abbrev eCache1 : Int := 1
abbrev eCache2 : Int := 2
abbrev eEmu : Int := 3
/-- For selection of found, use `< eNotfound`. -/
abbrev eNotfound : Int := 4
abbrev eTimeout : Int := 5
abbrev eSleeping : Int := 6
abbrev eFake : Int := 7
abbrev eInvalid : Int := 8
abbrev eCorrupt : Int := 9
abbrev eExpdate : Int := 11
abbrev eDisabled : Int := 12
abbrev eStopped : Int := 13
abbrev e99 : Int := 99
/-- For selection of unhandled, use `≥ eUnhandled`. -/
abbrev eUnhandled : Int := 100

/-! Extended return codes. -/

abbrev e2Group : Nat := 1
abbrev e2Caid : Nat := 2
abbrev e2CccamNok1 : Nat := 0x28
abbrev e2WrongChksum : Nat := 0x31

/-- Pending requests of a client whose module handles several at a time. -/
abbrev csMaxpending : Nat := 32

/-- Seconds after which a cached answer is useless. -/
abbrev csCacheTimeout : Int := 60

abbrev ClientId := Nat
abbrev ReaderId := Nat

/-- Bit mask of the groups of a client, a reader or a cache entry. -/
abbrev Grp := BitVec 64

/-- The MD5 digest under which an ECM is known. -/
abbrev Digest := BitVec 128

/-- Seconds and milliseconds, as `cs_ftime` delivers them. -/
structure Timeb where
  time : Int
  millitm : Int
  deriving DecidableEq, Repr

/-- `cs_ftime` on a clock counting milliseconds. -/
def Timeb.ofMs (now : Nat) : Timeb :=
  { time := (now / 1000 : Nat), millitm := (now % 1000 : Nat) }

/-- `comp_timeb`: the sign of the lexicographic comparison. -/
def compTimeb (left right : Timeb) : Int :=
  if left.time > right.time then 1
  else if left.time < right.time then -1
  else if left.millitm > right.millitm then 1
  else if left.millitm < right.millitm then -1
  else 0

/-- Four bytes of a control word; the last one is the checksum byte. -/
structure CwGroup where
  b0 : UInt8
  b1 : UInt8
  b2 : UInt8
  b3 : UInt8
  deriving DecidableEq, Repr

namespace CwGroup

/-- The byte `write_ecm_answer` expects in the last place. -/
def checksum (group : CwGroup) : UInt8 :=
  group.b0 + group.b1 + group.b2

def fixed (group : CwGroup) : CwGroup :=
  { group with b3 := group.checksum }

theorem fixed_eq_self {group : CwGroup}
    (correct : group.b3 = group.checksum) : group.fixed = group := by
  simp [fixed, ← correct]

end CwGroup

/-- The sixteen bytes `cw[16]`, in the four groups that carry a checksum. -/
structure Cw where
  g0 : CwGroup
  g1 : CwGroup
  g2 : CwGroup
  g3 : CwGroup
  deriving DecidableEq, Repr

namespace Cw

def zero : Cw :=
  { g0 := ⟨0, 0, 0, 0⟩, g1 := ⟨0, 0, 0, 0⟩
    g2 := ⟨0, 0, 0, 0⟩, g3 := ⟨0, 0, 0, 0⟩ }

/-- All four checksum bytes are right. -/
def ChecksumOk (cw : Cw) : Prop :=
  cw.g0.b3 = cw.g0.checksum ∧ cw.g1.b3 = cw.g1.checksum ∧
    cw.g2.b3 = cw.g2.checksum ∧ cw.g3.b3 = cw.g3.checksum

instance (cw : Cw) : Decidable cw.ChecksumOk :=
  inferInstanceAs (Decidable (_ ∧ _ ∧ _ ∧ _))

/-- The control word with its four checksum bytes corrected. -/
def fixed (cw : Cw) : Cw :=
  { g0 := cw.g0.fixed, g1 := cw.g1.fixed
    g2 := cw.g2.fixed, g3 := cw.g3.fixed }

theorem checksumOk_fixed (cw : Cw) : cw.fixed.ChecksumOk :=
  ⟨rfl, rfl, rfl, rfl⟩

theorem fixed_eq_self {cw : Cw} (correct : cw.ChecksumOk) :
    cw.fixed = cw := by
  obtain ⟨first, second, third, fourth⟩ := correct
  simp [fixed, CwGroup.fixed_eq_self first, CwGroup.fixed_eq_self second,
    CwGroup.fixed_eq_self third, CwGroup.fixed_eq_self fourth]

end Cw

/-- `ECM_REQUEST`.  `client` is the pointer to the asking client, `cpti` its
slot in the table of that client; `fallback` names the reader of the first
fallback node of `matchingRdr`, and `ecmcacheptr` is the address of the cache
entry the request belongs to. -/
structure EcmRequest where
  ecm : List UInt8
  cw : Cw
  ecmd5 : Digest
  l : Int
  caid : Nat
  ocaid : Nat
  srvid : Nat
  chid : Nat
  pid : Nat
  prid : Nat
  selectedReader : Option ReaderId
  matchingRdr : List ReaderId
  fallback : Option ReaderId
  client : Option ClientId
  cpti : Nat
  stage : Nat
  level : Nat
  rc : Int
  rcEx : Nat
  tps : Timeb
  localsDone : Bool
  btun : Bool
  readerAvail : Nat
  readerCount : Nat
  ecmcacheptr : Option Nat
  msglog : String
  deriving DecidableEq, Repr

/-- A request after `memset(er, 0, sizeof(ECM_REQUEST))`. -/
def EcmRequest.zero : EcmRequest :=
  { ecm := [], cw := Cw.zero, ecmd5 := 0, l := 0, caid := 0, ocaid := 0
    srvid := 0, chid := 0, pid := 0, prid := 0, selectedReader := none
    matchingRdr := [], fallback := none, client := none, cpti := 0
    stage := 0, level := 0, rc := 0, rcEx := 0
    tps := { time := 0, millitm := 0 }, localsDone := false, btun := false
    readerAvail := 0, readerCount := 0, ecmcacheptr := none, msglog := "" }

/-- Byte `index` of the ECM buffer, zero beyond what was received. -/
def EcmRequest.ecmByte (er : EcmRequest) (index : Nat) : Nat :=
  (er.ecm.getD index 0).toNat

end Oscam
