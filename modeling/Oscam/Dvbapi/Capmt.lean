import Oscam.Dvbapi.Demux
import Oscam.Lib.Memory
import Oscam.Lib.Places

/-!
# Messages of the camd socket

The parsers of PMT messages and of the CAT.  A buffer is seen as the memory from
its first byte on; beside what a parser does stands the list of the places that
it reads.
-/

namespace Oscam.Dvbapi

/-! ## Fields -/

/-- Two bytes. -/
def word (m : Memory) (p : Nat) : Nat := (m p).toNat * 256 + (m (p + 1)).toNat

/-- Twelve bits of two bytes, a length. -/
def bits12 (m : Memory) (p : Nat) : Nat :=
  (m p).toNat % 16 * 256 + (m (p + 1)).toNat

/-- Thirteen bits of two bytes, a pid. -/
def bits13 (m : Memory) (p : Nat) : Nat :=
  (m p).toNat % 32 * 256 + (m (p + 1)).toNat

/-- Three bytes, of the last one only the bits of `mask`. -/
def provider (m : Memory) (p : Nat) (mask : UInt8) : Nat :=
  (m p).toNat * 65536 + (m (p + 1)).toNat * 256 + (m (p + 2) &&& mask).toNat

/-! ## Descriptors -/

/-- The pids of a descriptor of caid 01xx, as places in it. -/
def secaPids (descriptorLength : Nat) : List Nat :=
  places (· + 15) descriptorLength descriptorLength 2

/-- The provider of a descriptor of another caid. -/
def descriptorProvider (m : Memory) (p : Nat) : Nat :=
  let length := (m (p + 1)).toNat
  let system := (m (p + 2)).toNat
  if system = 0x05 ∧ length = 0x0F ∧ m (p + 12) = 0x14 then
    provider m (p + 14) 0xF0
  else if system = 0x18 ∧ length = 0x07 then provider m (p + 6) 0xFF
  else if system = 0x4A ∧ length = 0x05 then (m (p + 6)).toNat
  else 0

/-- A turn of the loop of `dvbapi_parse_descriptor`, with room in the table. -/
def addDescriptor (m : Memory) (d : Demux) (p : Nat) : Demux :=
  let caid := UInt16.ofNat (word m (p + 2))
  if m p ≠ 0x09 then d
  else if (m (p + 2)).toNat = 0x01 then
    (secaPids (m (p + 1)).toNat).foldl
      (fun d u => d.addEcmpid caid (UInt16.ofNat (bits13 m (p + 2 + u)))
        (UInt32.ofNat (word m (p + 2 + u + 2)))) d
  else
    d.addEcmpid caid (UInt16.ofNat (bits13 m (p + 4)))
      (UInt32.ofNat (descriptorProvider m p))

/-- The loop of `dvbapi_parse_descriptor` over the places of descriptors. -/
def addDescriptors (m : Memory) : List Nat → Demux → Demux
  | [], d => d
  | p :: rest, d =>
      if ecmPids ≤ d.ecmPidCount then d
      else addDescriptors m rest (addDescriptor m d p)

/-- Where the descriptors begin, behind a command byte, and how many bytes they
have. -/
def descriptorArea (m : Memory) (base infoLength : Nat) : Nat × Nat :=
  if m base = 0x01 then (base + 1, infoLength - 1) else (base, infoLength)

/-- The places of the descriptors. -/
def descriptorPlaces (m : Memory) (base infoLength : Nat) : List Nat :=
  let area := descriptorArea m base infoLength
  (places (fun j => j + (m (area.1 + j + 1)).toNat + 2) area.2 area.2 0).map
    (area.1 + ·)

/-- `dvbapi_parse_descriptor`. -/
def parseDescriptor (m : Memory) (base infoLength : Nat) (d : Demux) : Demux :=
  if infoLength < 1 then d
  else addDescriptors m (descriptorPlaces m base infoLength) d

/-- What is read of a descriptor with a CA system behind its first six bytes. -/
def systemReads (m : Memory) (p : Nat) : List Nat :=
  let length := (m (p + 1)).toNat
  let system := (m (p + 2)).toNat
  if system = 0x01 then
    (secaPids length).flatMap fun u =>
      [p + 2 + u, p + 2 + u + 1, p + 2 + u + 2, p + 2 + u + 3]
  else if system = 0x05 ∧ length = 0x0F then
    (p + 12) :: if m (p + 12) = 0x14 then [p + 14, p + 15, p + 16] else []
  else if system = 0x18 ∧ length = 0x07 then [p + 6, p + 7, p + 8]
  else if system = 0x4A ∧ length = 0x05 then [p + 6]
  else []

/-- What the loop reads. -/
def descriptorsRead (m : Memory) : List Nat → Demux → List Nat
  | [], _ => []
  | p :: rest, d =>
      [p + 1, p + 2, p + 3, p + 4, p + 5] ++
        if ecmPids ≤ d.ecmPidCount then []
        else
          p :: ((if m p ≠ 0x09 then [] else systemReads m p) ++
            descriptorsRead m rest (addDescriptor m d p))

def parseDescriptorReads (m : Memory) (base infoLength : Nat) (d : Demux) :
    List Nat :=
  if infoLength < 1 then []
  else base :: descriptorsRead m (descriptorPlaces m base infoLength) d

/-! ## The PMT -/

/-- An elementary stream gets its place in the table. -/
def addStream (d : Demux) (room : d.streamPids.length < ecmPids)
    (pid : UInt16) : Demux :=
  { d with
    streamPids := d.streamPids ++ [pid]
    streamPids_le := by
      rw [List.length_append]
      exact room }

/-- The loop of `dvbapi_parse_capmt` over the places of streams. -/
def addStreams (m : Memory) (length : Nat) : List Nat → Demux → Demux
  | [], d => d
  | p :: rest, d =>
      if room : d.streamPids.length < ecmPids then
        let added := addStream d room (UInt16.ofNat (bits13 m (p + 1)))
        let esInfoLength := bits12 m (p + 3)
        addStreams m length rest
          (if esInfoLength ≠ 0 ∧ esInfoLength < length then
            parseDescriptor m (p + 5) esInfoLength added
          else added)
      else d

/-- The places of the streams.  The loop ends at the latest in its 31st turn,
when the table is full. -/
def streamPlaces (m : Memory) (base length : Nat) : List Nat :=
  (places (fun i => i + bits12 m (base + i + 3) + 5) length (ecmPids + 1)
    (bits12 m (base + 4) + 8)).map (base + ·)

/-- The pids of a message: those of the program, then those of the streams. -/
def addPids (m : Memory) (base length : Nat) (d : Demux) : Demux :=
  let programInfoLength := bits12 m (base + 4)
  addStreams m length (streamPlaces m base length)
    (if programInfoLength > 1 ∧ programInfoLength < length then
      parseDescriptor m (base + 9) (programInfoLength - 1) d
    else d)

/-- An update of a demux begins: the entries are no longer counted. -/
def Demux.restart (d : Demux) : Demux :=
  { d with
    curindex := d.pidindex
    streamPids := []
    ecmPidCount := 0
    emmPids := []
    ecmPidCount_le := Nat.zero_le _
    streamPids_le := Nat.zero_le _ }

/-- A turn of the search for the demux of a connection. -/
def findTurn (management : UInt8) (connfd : Int)
    (found : State × Option (Fin maxDemux)) (i : Fin maxDemux) :
    State × Option (Fin maxDemux) :=
  let (s, demuxId) := found
  if connfd > 0 ∧ (s i).socketFd = connfd then
    -- PMT Update
    if management = 0x05 then
      (Function.update s i (s i).restart, some i)
    else if management = 0x03 ∨ management = 0x01 then
      (stopDescrambling s i, demuxId)
    else if management = 0x02 then (s, some i)
    else (s, demuxId)
  else (s, demuxId)

/-- The demux for a message: one of the connection, or else a free one. -/
def findDemux (management : UInt8) (connfd : Int) (s : State) :
    State × Option (Fin maxDemux) :=
  let (s, demuxId) :=
    (List.finRange maxDemux).foldl (findTurn management connfd) (s, none)
  (s, demuxId.or
    ((List.finRange maxDemux).find? fun i => (s i).programNumber == 0))

/-- The number of the demux device. -/
def demuxDevice (cfg : Cfg) (m : Memory) (base : Nat) (i : Fin maxDemux) :
    Nat :=
  match cfg.boxtype with
  | .pc => (m (base + 6)).toNat
  | .qboxhd =>
      if m (base + 17) = 0x82 ∧
          (m (base + 18) = 0x02 ∨ m (base + 18) = 0x03) then
        (m (base + 20)).toNat
      else 0
  | .ipboxPmt => i
  | _ =>
      if m (base + 17) = 0x82 ∧ m (base + 18) = 0x02 then
        (m (base + 20)).toNat
      else 0

/-- The demux before the pids are added. -/
def Demux.program (d : Demux) (m : Memory) (base : Nat) (device : Nat)
    (connfd : Int) : Demux :=
  { d with
    programNumber := UInt16.ofNat (word m (base + 1))
    demuxIndex := Int8.ofNat device
    socketFd := connfd
    pidindex := none }

/-- What follows when the pids are known. -/
def afterPids (cfg : Cfg) (management : UInt8) (s : State)
    (i : Fin maxDemux) : State :=
  let tryNext := Function.update s i (tryNextCaid cfg (resortEcmpids cfg (s i)))
  if management = 0x05 then
    if (s i).curindex = none then tryNext else startDescrambling cfg s i
  else if (s i).ecmPidCount > 0 ∧ management ≠ 0x01 then tryNext
  else s

/-- `dvbapi_parse_capmt` for a message of `length` bytes from `base` on. -/
def parseCapmt (cfg : Cfg) (m : Memory) (base length : Nat) (connfd : Int)
    (s : State) : State :=
  let management := m base
  match findDemux management connfd s with
  | (s, none) => s -- no free id
  | (s, some i) =>
      let d := (s i).program m base (demuxDevice cfg m base i) connfd
      afterPids cfg management
        (Function.update s i (addPids m base length d)) i

/-- What the loop over the streams reads. -/
def streamsRead (m : Memory) (length : Nat) : List Nat → Demux → List Nat
  | [], _ => []
  | p :: rest, d =>
      [p, p + 1, p + 2, p + 3, p + 4] ++
        if room : d.streamPids.length < ecmPids then
          let added := addStream d room (UInt16.ofNat (bits13 m (p + 1)))
          let esInfoLength := bits12 m (p + 3)
          if esInfoLength ≠ 0 ∧ esInfoLength < length then
            parseDescriptorReads m (p + 5) esInfoLength added ++
              streamsRead m length rest
                (parseDescriptor m (p + 5) esInfoLength added)
          else streamsRead m length rest added
        else []

def addPidsReads (m : Memory) (base length : Nat) (d : Demux) : List Nat :=
  let programInfoLength := bits12 m (base + 4)
  if programInfoLength > 1 ∧ programInfoLength < length then
    parseDescriptorReads m (base + 9) (programInfoLength - 1) d ++
      streamsRead m length (streamPlaces m base length)
        (parseDescriptor m (base + 9) (programInfoLength - 1) d)
  else streamsRead m length (streamPlaces m base length) d

/-- What is read before the demux is known: the head, the descriptor at byte 17
and, for the log, all bytes that the message says it has. -/
def headReads (cfg : Cfg) (m : Memory) (base length : Nat) : List Nat :=
  [base, base + 1, base + 2, base + 4, base + 5, base + 17] ++
    (if m (base + 17) = 0x82 then
      (base + 18) ::
        if m (base + 18) = 0x02 then [base + 19, base + 20] else []
    else []) ++
    -- the number of bytes is an int32_t there
    if cfg.debug ∧ length < 2 ^ 31 then (List.range length).map (base + ·)
    else []

/-- What is read for the device. -/
def deviceReads (cfg : Cfg) (m : Memory) (base : Nat) : List Nat :=
  match cfg.boxtype with
  | .qboxhd =>
      (base + 17) :: if m (base + 17) = 0x82 then
        (base + 18) ::
          if m (base + 18) = 0x03 then [base + 20, base + 21] else []
      else []
  | .pc => [base + 6, base + 7]
  | _ => []

def parseCapmtReads (cfg : Cfg) (m : Memory) (base length : Nat) (connfd : Int)
    (s : State) : List Nat :=
  headReads cfg m base length ++
    match findDemux (m base) connfd s with
    | (_, none) => []
    | (s, some i) =>
        deviceReads cfg m base ++
          addPidsReads m base length
            ((s i).program m base (demuxDevice cfg m base i) connfd)

/-! ## The socket -/

/-- A command begins with 9F 80. -/
def isCommand (m : Memory) (k : Nat) : Bool :=
  m k == 0x9F && m (k + 1) == 0x80

/-- The number of length bytes behind the first one. -/
def longSize (m : Memory) (k : Nat) : Nat :=
  if (m (k + 3)).toNat < 128 then 0 else (m (k + 3)).toNat - 128

/-- The length of a command, in 32 bits. -/
def commandVal (m : Memory) (k : Nat) : Nat :=
  if (m (k + 3)).toNat < 128 then (m (k + 3)).toNat
  else m.number (k + 4) (longSize m k) % 2 ^ 32

/-- The next value of `k`. -/
def nextCommand (m : Memory) (k : Nat) : Nat :=
  (k + 3 + (longSize m k + 1) + commandVal m k) % 2 ^ 32

/-- Command 3F: with an IPBOX the demux of this number is stopped. -/
def stopCommand (cfg : Cfg) (m : Memory) (k : Nat) (s : State) : State :=
  if cfg.boxtype = .ipbox then
    match (List.finRange maxDemux).find? fun i =>
        (s i).demuxIndex.toInt = (m (k + 7)).toNat with
    | some i => stopDescrambling s i
    | none => s
  else s

/-- The command at a place. -/
def command (cfg : Cfg) (m : Memory) (k : Nat) (connfd : Int) (s : State) :
    State :=
  if m (k + 2) = 0x32 then
    parseCapmt cfg m (k + 4 + longSize m k) (commandVal m k) connfd s
  else if m (k + 2) = 0x3F then stopCommand cfg m k s
  else s

/-- What is read of a command.  The places in a message that was received are far
below `2 ^ 32`; only the next one may wrap. -/
def commandReads (cfg : Cfg) (m : Memory) (k : Nat) (connfd : Int)
    (s : State) : List Nat :=
  [k + 3] ++ (List.range (longSize m k)).map (k + 4 + ·) ++ [k + 2] ++
    if m (k + 2) = 0x32 then
      parseCapmtReads cfg m (k + 4 + longSize m k) (commandVal m k) connfd s
    else if m (k + 2) = 0x3F ∧ cfg.boxtype = .ipbox then [k + 7]
    else []

/-- What is read to see whether a command begins. -/
def startReads (m : Memory) (k : Nat) : List Nat :=
  k :: if m k = 0x9F then [k + 1] else []

/-- `dvbapi_handlesockmsg` from a place on: the state and what is read, or
`none` when it has not ended after `turns` turns. -/
def handleSockMsg (cfg : Cfg) (m : Memory) (len : Nat) (connfd : Int) :
    Nat → Nat → State → Option (State × List Nat)
  | 0, _, _ => none
  | turns + 1, k, s =>
      if k < len then
        if isCommand m k then
          (handleSockMsg cfg m len connfd turns (nextCommand m k)
            (command cfg m k connfd s)).map fun ended =>
              (ended.1,
                startReads m k ++ commandReads cfg m k connfd s ++ ended.2)
        else some (s, startReads m k)
      else some (s, [])

/-! ## The CAT -/

/-- The places of the pids in a descriptor of caid 01xx of the CAT. -/
def catSecaPids (m : Memory) (i : Nat) : List Nat :=
  places (· + 4) (i + (m (i + 1)).toNat + 2) (m (i + 1)).toNat (i + 7)

/-- The places of the parts of a descriptor of caid 05xx. -/
def catViaccessParts (m : Memory) (i : Nat) : List Nat :=
  places (fun k => k + (m (k + 1)).toNat + 2) (i + (m (i + 1)).toNat + 2)
    (m (i + 1)).toNat (i + 6)

/-- A CA descriptor of the CAT. -/
def addCatDescriptor (m : Memory) (d : Demux) (i : Nat) : Demux :=
  let caid := UInt16.ofNat (bits13 m (i + 2))
  let emmPid := UInt16.ofNat (bits13 m (i + 4))
  let system := (m (i + 2)).toNat % 32
  if system = 0x01 then
    (catSecaPids m i).foldl
      (fun d k => d.addEmmpid caid (UInt16.ofNat (bits12 m k))
        (UInt32.ofNat (word m (k + 2))) .shared)
      (d.addEmmpid caid emmPid 0 .unique)
  else if system = 0x05 then
    (catViaccessParts m i).foldl
      (fun d k =>
        if m k = 0x14 then
          d.addEmmpid caid emmPid
            (UInt32.ofNat (provider m (k + 2) 0xF0)) .all
        else d) d
  else if system = 0x18 then
    d.addEmmpid caid emmPid
      (if m (i + 1) = 0x07 then UInt32.ofNat (provider m (i + 6) 0xFF) else 0)
      .all
  else d.addEmmpid caid emmPid 0 .all

/-- The loop of `dvbapi_parse_cat` over the places of descriptors. -/
def addCatDescriptors (m : Memory) : List Nat → Demux → Demux
  | [], d => d
  | i :: rest, d =>
      if m i ≠ 0x09 then addCatDescriptors m rest d
      else if ecmPids ≤ d.emmPids.length then d
      else addCatDescriptors m rest (addCatDescriptor m d i)

/-- The places of the descriptors, from byte 8 on. -/
def catPlaces (m : Memory) : List Nat :=
  places (fun i => i + (m (i + 1)).toNat + 2) (bits12 m 1 - 1) (bits12 m 1) 8

/-- `dvbapi_parse_cat`; the length of the buffer is not looked at. -/
def parseCat (m : Memory) (d : Demux) : Demux :=
  addCatDescriptors m (catPlaces m) d

/-- What is read of a CA descriptor behind its tag. -/
def catDescriptorReads (m : Memory) (i : Nat) : List Nat :=
  let system := (m (i + 2)).toNat % 32
  [i + 2, i + 3, i + 4, i + 5] ++
    if system = 0x01 then
      (i + 1) :: (catSecaPids m i).flatMap fun k => [k + 2, k + 3, k, k + 1]
    else if system = 0x05 then
      (i + 1) :: (catViaccessParts m i).flatMap fun k =>
        k :: ((if m k = 0x14 then [k + 2, k + 3, k + 4] else []) ++ [k + 1])
    else if system = 0x18 then
      (i + 1) :: if m (i + 1) = 0x07 then [i + 6, i + 7, i + 8] else []
    else []

/-- What the loop reads. -/
def catRead (m : Memory) : List Nat → Demux → List Nat
  | [], _ => []
  | i :: rest, d =>
      i :: if m i ≠ 0x09 then (i + 1) :: catRead m rest d
      else if ecmPids ≤ d.emmPids.length then []
      else
        catDescriptorReads m i ++
          (i + 1) :: catRead m rest (addCatDescriptor m d i)

def parseCatReads (m : Memory) (d : Demux) : List Nat :=
  [1, 2] ++ catRead m (catPlaces m) d

end Oscam.Dvbapi
