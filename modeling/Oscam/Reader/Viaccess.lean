import Oscam.Config.AesKeys
import Oscam.Lib.Reach
import Oscam.Reader.Seca

/-!
# The nanos of a Viaccess ECM

`viaccess_do_ecm` walks through the nanos of an ECM until the card answers with
a control word.  The lengths of the nanos are taken as they are, so the walk
stays in the section, and ends, as long as each nano lies in what is left.
-/

namespace Oscam.Viaccess

open AesKeys (AesEntry selected aesDecryptFromList)

/-! ## The walk -/

/-- `struct geo_cache`. -/
structure GeoCache where
  provid : Nat
  geo : Memory
  geoLen : UInt8
  numberEcm : Nat

/-- The variables of the loop of `viaccess_do_ecm`; the pointers are places in
`er->ecm`. -/
structure Walk where
  ecm : Memory
  ecm88Data : Nat
  ecm88Len : Int
  nextEcm : Nat
  curEcm88len : Int
  hasD2 : Bool
  nanoD2 : Nat
  d2KeyId : UInt8
  /-- `DE04` holds a nano. -/
  de04 : Bool
  lastGeo : GeoCache

/-- The reader: its card, its AES keys and the decryption of a block. -/
structure Env where
  reader : CardReader
  aesList : List AesEntry
  aesDecrypt : List UInt8 → List UInt8 → List UInt8

/-- What the card does in one round of the loop: whether it takes the provider,
the geographic nanos and the ECM, and `cta_res` after the control word was
read. -/
structure Turn where
  provider : Bool
  geo : Bool
  ecm : Bool
  dcw : Option Memory

/-- What a round reads of `er->ecm`, and copies into `last_geo.geo` and into
`DE04` behind its first six bytes. -/
inductive Access where
  | read (place count : Nat)
  | copyGeo (count : Nat)
  | copyDe04 (count : Int)
  deriving DecidableEq

def Access.Inside (l : Nat) : Access → Prop
  | .read place count => place + count ≤ l
  | .copyGeo count => count ≤ 256
  | .copyDe04 count => 0 ≤ count ∧ 6 + count ≤ 256

instance (l : Nat) : DecidablePred (Access.Inside l) := fun access =>
  match access with
  | .read _ _ | .copyGeo _ => inferInstanceAs (Decidable (_ ≤ _))
  | .copyDe04 _ => inferInstanceAs (Decidable (_ ∧ _))

/-- `SCT_LEN`. -/
def sctLen (ecm : Memory) : Nat :=
  (ecm 1).toNat % 16 * 256 + (ecm 2).toNat + 3

/-- `chk_prov`. -/
def chkProv (reader : CardReader) (id : List UInt8) (keynr : UInt8) : Bool :=
  (List.range reader.nprov).any fun i =>
    (reader.prid i).read 1 3 = id ∧ keynr ∈ (reader.availkeys i).read 0 16

namespace Walk

variable (env : Env) (w : Walk)

/-- The byte `i` bytes on. -/
def byte (i : Nat) : UInt8 := w.ecm (w.ecm88Data + i)

/-- Some bytes are passed, and counted. -/
def pass (n : Nat) : Walk :=
  { w with
    ecm88Data := w.ecm88Data + n
    ecm88Len := w.ecm88Len - n
    curEcm88len := w.curEcm88len - n }

/-- On to the next ECM. -/
def leave : Walk :=
  { w with
    ecm88Data := w.nextEcm
    ecm88Len := w.ecm88Len - w.curEcm88len }

def invalid : Bool := w.byte 0 = 0 ∧ w.byte 1 = 0

/-- The bytes of the first test and of nano 80. -/
def headCount : Nat := if w.byte 0 = 0 ∨ w.byte 0 = 0x80 then 2 else 1

/-- Nano 80 gives the length of the ECM in it. -/
def nano80 : Walk :=
  if w.byte 0 = 0x80 then
    { w with
      curEcm88len := (w.byte 1).toNat
      nextEcm := w.ecm88Data + (w.byte 1).toNat + 2
      ecm88Data := w.ecm88Data + 2
      ecm88Len := w.ecm88Len - 2 }
  else w

/-- Without nano 80 the ECM is all that is left. -/
def enter : Walk :=
  if w.nano80.curEcm88len = 0 then
    { w.nano80 with curEcm88len := w.nano80.ecm88Len }
  else w.nano80

def isD2 : Bool := w.byte 0 = 0xd2

/-- The length of a nano with its head. -/
def nanoLen : Nat := (w.byte 1).toNat + 2

def takeD2 : Walk :=
  if w.isD2 then
    { w.pass w.nanoLen with
      nanoD2 :=
        if w.byte 2 = 0x0b then 1 else if w.byte 2 = 0x0d then 2 else w.nanoD2
      d2KeyId := w.byte 3
      hasD2 := true }
  else { w with hasD2 := false }

/-- The bytes that a nano D2 is tested for, and those it is used for. -/
def d2Count : Nat := if w.isD2 then 4 else 1

def isNano : Bool :=
  (w.byte 0 = 0x90 ∨ w.byte 0 = 0x40) ∧ (w.byte 1 = 0x03 ∨ w.byte 1 = 0x07)

def typeCount : Nat := if w.byte 0 = 0x90 ∨ w.byte 0 = 0x40 then 2 else 1

def provid : Nat := w.ecm.number (w.ecm88Data + 2) 3

/-- The providers of which only one of two ECMs is used. -/
def picksEcm : Bool :=
  5 < w.nanoLen ∧ 0 < w.lastGeo.numberEcm ∧
    w.provid ∈ [0x030B00, 0x032920, 0x032940]

/-- The ECM is not the one of the card. -/
def skips : Bool :=
  w.picksEcm ∧
    ¬(w.lastGeo.numberEcm = w.ecm.number (w.ecm88Data + 6) 2 ∧
      w.byte (w.nanoLen - 1) ≠ 0x01)

def keynr : UInt8 :=
  if 5 < w.nanoLen ∧ (w.lastGeo.numberEcm = 0 ∨ w.picksEcm) then w.byte 5
  else w.byte 4 &&& 0x0F

def keyProvid : Nat := w.provid / 16 * 16

/-- There is no AES key, or the card has no such provider and key. -/
def refused : Bool :=
  (w.hasD2 ∧ env.aesList ≠ [] ∧
      (selected env.aesList 0x500 w.keyProvid w.d2KeyId.toNat).isNone) ∨
    ¬ chkProv env.reader [w.byte 2, w.byte 3, w.byte 4 &&& 0xF0] w.keynr

def isDe04 : Bool := w.byte 0 = 0xDE ∧ w.byte 1 = 0x04

/-- A nano DE 04 is copied; it is passed, but not counted. -/
def takeDe04 : Walk :=
  if w.isDe04 then { w with de04 := true, ecm88Data := w.ecm88Data + 6 }
  else w

def de04Count : Nat :=
  if w.isDe04 then 6 else if w.byte 0 = 0xDE then 2 else 1

/-- `last_geo` is of this provider. -/
def setProvider (provid : Nat) : Walk :=
  if w.lastGeo.provid = provid then w
  else
    { w with
      lastGeo := { w.lastGeo with
        provid := provid
        geo := w.lastGeo.geo.write 0 [0]
        geoLen := 0 } }

def decrypts : Bool := w.hasD2 ∧ w.nanoD2 = 1

/-- Where the control word starts. -/
def cwStart : Nat :=
  w.ecm88Data +
    (((List.range (w.curEcm88len - 1).toNat).find? fun i =>
      w.byte i = 0xEA ∧ w.byte (i + 1) = 0x10).map (· + 2)).getD 0

def decryptCw (keyProvid : Nat) : Walk :=
  if w.decrypts then
    { w with
      ecm := w.ecm.write w.cwStart
        (aesDecryptFromList env.aesDecrypt env.aesList 0x500 keyProvid
          w.d2KeyId.toNat (w.ecm.read w.cwStart 16)).2 }
  else w

/-- The length of the geographic nanos, of which each is passed. -/
def geoLength (ecm : Memory) : Nat → Nat → Int → Nat
  | 0, _, _ => 0
  | fuel + 1, place, left =>
      let nanoLen := (ecm (place + 1)).toNat + 2
      if 0 < left ∧ ecm place < 0xA0 then
        nanoLen + geoLength ecm fuel (place + nanoLen) (left - nanoLen)
      else 0

def ecmf8Len : Nat :=
  geoLength w.ecm w.ecm88Len.toNat w.ecm88Data w.ecm88Len

/-- The card does not have these geographic nanos yet. -/
def newGeo : Bool :=
  w.ecmf8Len ≠ 0 ∧
    (w.lastGeo.geoLen.toNat ≠ w.ecmf8Len ∨
      w.lastGeo.geo.read 0 w.ecmf8Len ≠ w.ecm.read w.ecm88Data w.ecmf8Len)

def takeGeo : Walk :=
  { w.pass w.ecmf8Len with
    lastGeo :=
      if w.newGeo then
        { w.lastGeo with
          geo := w.lastGeo.geo.write 0 (w.ecm.read w.ecm88Data w.ecmf8Len)
          geoLen := UInt8.ofNat w.ecmf8Len }
      else w.lastGeo }

/-- The bytes of the ECM that the card is sent. -/
def sent : List Access :=
  if w.de04 then
    [.copyDe04 (w.curEcm88len - 6),
      .read w.ecm88Data (w.curEcm88len - 6).toNat]
  else [.read w.ecm88Data (w.curEcm88len % 256).toNat]

/-- A control word of the wrong length is left where it is. -/
def answered (ctaRes : Memory) : Option Walk :=
  if ctaRes 0 = 0xe8 ∨ ctaRes 0 = 0xe9 then
    if ctaRes 1 = 8 then none else some w
  else if ctaRes 0 = 0xea then
    if ctaRes 1 = 16 then none else some w
  else some w.leave

/-- The geographic nanos, with the byte that ends them. -/
def geoNanos : List Access :=
  [.read w.ecm88Data w.ecmf8Len] ++
    (if 0 < w.takeGeo.ecm88Len then [.read w.takeGeo.ecm88Data 1] else []) ++
    if w.newGeo then [.copyGeo w.ecmf8Len] else []

/-- The geographic nanos and the ECM are sent to the card. -/
def ask (turn : Turn) : List Access × Option Walk :=
  if w.newGeo ∧ ¬ turn.geo then (w.geoNanos, none)
  else
    (w.geoNanos ++ w.takeGeo.sent,
      if turn.ecm then turn.dcw.bind w.takeGeo.answered else none)

/-- What is searched for a control word, at most, and decrypted. -/
def decrypted : List Access :=
  if w.decrypts then
    [.read w.ecm88Data w.curEcm88len.toNat, .read w.cwStart 16]
  else []

/-- The nano with the provider is behind. -/
def atNano : Walk := (w.pass w.nanoLen).takeDe04.setProvider w.provid

def useNano (turn : Turn) : List Access × Option Walk :=
  let de04 := [.read (w.pass w.nanoLen).ecm88Data (w.pass w.nanoLen).de04Count]
  if w.lastGeo.provid ≠ w.provid ∧ ¬ turn.provider then (de04, none)
  else
    let asked := (w.atNano.decryptCw env w.keyProvid).ask turn
    (de04 ++ w.atNano.decrypted ++ asked.1, asked.2)

/-- From the type of the nano on. -/
def useEcm (turn : Turn) : List Access × Option Walk :=
  let type := [.read w.ecm88Data w.typeCount]
  if ¬ w.isNano then (type, some w.leave)
  else
    let nano := type ++ [.read w.ecm88Data w.nanoLen]
    if w.skips then (nano, some w.leave)
    else if w.refused env then (nano, none)
    else (nano ++ (w.useNano env turn).1, (w.useNano env turn).2)

/-- A round of the loop: what it reads and copies, and the walk after it if
there is neither an error nor a control word. -/
def round (turn : Turn) : List Access × Option Walk :=
  let head := [.read w.ecm88Data w.headCount]
  if w.invalid then (head, none)
  else
    let used := w.enter.takeD2.useEcm env turn
    (head ++ [.read w.enter.ecm88Data w.enter.d2Count] ++ used.1, used.2)

end Walk

/-! ## Nanos that lie in what is left -/

namespace Walk

variable (l : Nat) (env : Env) (w : Walk)

/-- So many bytes are left of the section and of the ECM. -/
def Left (n : Nat) : Prop := w.ecm88Data + n ≤ l ∧ n ≤ w.curEcm88len

instance (n : Nat) : Decidable (w.Left l n) :=
  inferInstanceAs (Decidable (_ ∧ _))

/-- The geographic nanos and the ECM behind them fit; behind a nano DE 04 the
ECM counts six bytes more than are left. -/
def AskFits : Prop :=
  w.Left l w.ecmf8Len ∧ w.ecmf8Len ≤ 256 ∧
    (0 < w.takeGeo.ecm88Len → w.takeGeo.ecm88Data + 1 ≤ l) ∧
    if w.de04 then
      6 ≤ w.takeGeo.curEcm88len ∧ w.takeGeo.curEcm88len ≤ 256 ∧
        w.takeGeo.ecm88Data + w.takeGeo.curEcm88len ≤ l + 6
    else w.takeGeo.ecm88Data + w.takeGeo.curEcm88len ≤ l

instance : Decidable (w.AskFits l) :=
  inferInstanceAs (Decidable (_ ∧ _ ∧ _ ∧ ite _ _ _))

/-- A nano with a provider fits, and what its use looks at. -/
def NanoFits : Prop :=
  w.Left l w.nanoLen ∧
    (w.skips = false → w.refused env = false →
      (w.pass w.nanoLen).ecm88Data + (w.pass w.nanoLen).de04Count ≤ l ∧
        (w.atNano.decrypts →
          w.atNano.ecm88Data + w.atNano.curEcm88len ≤ l ∧
            w.atNano.cwStart + 16 ≤ l) ∧
        (w.atNano.decryptCw env w.keyProvid).AskFits l)

instance : Decidable (w.NanoFits l env) :=
  inferInstanceAs (Decidable (_ ∧ _))

/-- The nanos that a round comes to lie in what is left of the section, and of
the ECM that they belong to. -/
def Fits : Prop :=
  w.ecm88Data + w.headCount ≤ l ∧
    (w.invalid = false →
      (0 < w.enter.curEcm88len ∧ w.enter.curEcm88len ≤ w.enter.ecm88Len) ∧
        w.enter.ecm88Data + w.enter.d2Count ≤ l ∧
        (w.enter.isD2 → (w.enter.nanoLen : Int) ≤ w.enter.curEcm88len) ∧
        w.enter.takeD2.ecm88Data + w.enter.takeD2.typeCount ≤ l ∧
        (w.enter.takeD2.isNano → w.enter.takeD2.NanoFits l env))

instance : Decidable (w.Fits l env) :=
  inferInstanceAs (Decidable (_ ∧ _))

end Walk

/-! ## Rounds -/

/-- Everything in a list of accesses is inside. -/
def AllInside (l : Nat) (accesses : List Access) : Prop :=
  ∀ access ∈ accesses, access.Inside l

/-- The loop before it starts. -/
def start (lastGeo : GeoCache) (ecm : Memory) : Walk where
  ecm := ecm
  ecm88Data := 4
  ecm88Len := sctLen ecm - 4
  nextEcm := 4
  curEcm88len := 0
  hasD2 := false
  nanoD2 := 0
  d2KeyId := 0
  de04 := false
  lastGeo := lastGeo

/-- The loop goes on. -/
def running (state : Option Walk) : Option Walk :=
  state.filter fun w => w.ecm88Len ≠ 0

/-- A round, unless the loop has ended. -/
def step (env : Env) (state : Option Walk) (turn : Turn) : Option Walk :=
  (running state).bind fun w => (w.round env turn).2

/-- What the round reads and copies is inside. -/
def StaysInside (l : Nat) (env : Env) (state : Option Walk) (turn : Turn) :
    Prop :=
  ∀ w ∈ running state, AllInside l (w.round env turn).1

/-- The loop ends after at most as many rounds as the section has bytes, and
only reads the section and copies no more than there is room for. -/
def Sound (env : Env) (lastGeo : GeoCache) (ecm : Memory)
    (turns : List Turn) : Prop :=
  StepSystem.Along (step env) (StaysInside (sctLen ecm) env)
      (some (start lastGeo ecm)) turns ∧
    (sctLen ecm ≤ turns.length →
      running (turns.foldl (step env) (some (start lastGeo ecm))) = none)

theorem AllInside.append {l : Nat} {first second : List Access}
    (inFirst : AllInside l first) (inSecond : AllInside l second) :
    AllInside l (first ++ second) := by
  intro access member
  rcases List.mem_append.mp member with here | there
  · exact inFirst access here
  · exact inSecond access there

theorem AllInside.ite {l : Nat} {c : Prop} [Decidable c]
    {accesses : List Access} (inside : c → AllInside l accesses) :
    AllInside l (if c then accesses else []) := by
  split
  · rename_i holds
    exact inside holds
  · intro access member
    cases member

namespace Walk

variable {l : Nat} {env : Env} {w next : Walk} {turn : Turn}

/-! ### What is read and copied -/

end Walk

/-! ## The loop -/

variable {env : Env} {l : Nat} {w : Walk} {turns : List Turn}

def newCard : GeoCache where
  provid := 0
  geo := .zero
  geoLen := 0
  numberEcm := 0

end Oscam.Viaccess
