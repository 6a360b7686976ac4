import Oscam.Stat.Records

/-!
# The demuxes of the dvbapi

The tables of the five demuxes and the functions that fill them, choose an
entry and give it a descrambler index.  What they do with the devices (filters,
`CA_SET_PID`, `CA_SET_DESCR`) is left out, and so are the chids of Irdeto.
-/

namespace Oscam.Dvbapi

/-- `MAX_DEMUX`. -/
abbrev maxDemux : Nat := 5

/-- `ECM_PIDS`, the size of all three tables of a demux. -/
abbrev ecmPids : Nat := 30

/-! ## The state -/

/-- `struct s_ecmpids`. -/
structure EcmPid where
  caid : UInt16
  provid : UInt32
  ecmPid : UInt16
  checked : Bool
  status : Int8
  index : Int8
  streams : UInt32
  deriving DecidableEq, Repr

/-- The bits of `EmmPid.type`. -/
inductive EmmType where
  | unique
  | shared
  | all
  deriving DecidableEq, Repr

/-- `struct s_emmpids`. -/
structure EmmPid where
  pid : UInt16
  caid : UInt16
  provid : UInt32
  type : EmmType
  deriving DecidableEq, Repr

/-- `DEMUXTYPE`.  An entry behind the number of entries keeps what it has.  The
index of an entry is `none` where the code has -1. -/
structure Demux where
  demuxIndex : Int8
  socketFd : Int
  ecmPidCount : Nat
  ecmPid : Fin ecmPids → EcmPid
  emmPids : List EmmPid
  streamPids : List UInt16
  pidindex : Option (Fin ecmPids)
  curindex : Option (Fin ecmPids)
  tries : Int8
  maxStatus : Int8
  programNumber : UInt16
  ecmPidCount_le : ecmPidCount ≤ ecmPids
  streamPids_le : streamPids.length ≤ ecmPids

abbrev State : Type := Fin maxDemux → Demux

namespace EcmPid

/-- An entry after `memset`. -/
def zero : EcmPid where
  caid := 0
  provid := 0
  ecmPid := 0
  checked := false
  status := 0
  index := 0
  streams := 0

end EcmPid

namespace Demux

/-- A demux after `memset`. -/
def zero : Demux where
  demuxIndex := 0
  socketFd := 0
  ecmPidCount := 0
  ecmPid := fun _ => .zero
  emmPids := []
  streamPids := []
  pidindex := some 0
  curindex := some 0
  tries := 0
  maxStatus := 0
  programNumber := 0
  ecmPidCount_le := Nat.zero_le _
  streamPids_le := Nat.zero_le _

/-- A demux that `dvbapi_stop_descrambling` has cleared. -/
def cleared : Demux := { zero with pidindex := none }

/-- The entry is in use. -/
def InUse (d : Demux) (n : Fin ecmPids) : Prop := n.val < d.ecmPidCount

instance (d : Demux) (n : Fin ecmPids) : Decidable (d.InUse n) :=
  inferInstanceAs (Decidable (_ < _))

end Demux

/-! ## Settings -/

/-- The types of box that the parser looks at. -/
inductive BoxType where
  | ipbox
  | ipboxPmt
  | qboxhd
  | pc
  | other
  deriving DecidableEq, Repr

/-- The type of an entry of `oscam.dvbapi`. -/
inductive PrioType where
  | prefer
  | ignore
  | map
  | delay
  | length
  deriving DecidableEq, Repr

/-- `struct s_dvbapi_priority`. -/
structure Priority where
  type : PrioType
  caid : UInt16
  provid : UInt32
  srvid : UInt16
  chid : UInt16
  ecmpid : UInt16
  force : Int8
  deriving DecidableEq, Repr

/-- The settings.  `debug` is set when messages are dumped to the log; `stack` is
what the ECM request of `dvbapi_resort_ecmpids` holds where nothing is assigned,
`below` what lies in front of the table of ECM pids. -/
structure Cfg where
  debug : Bool
  boxtype : BoxType
  requestmode : Nat
  priority : List Priority
  sidtab : List Cccam.Sidtab
  sidtabok : Nat
  sidtabno : Nat
  stack : EcmRequest
  below : EcmPid

/-- A box with nothing set. -/
def Cfg.plain : Cfg where
  debug := false
  boxtype := .other
  requestmode := 0
  priority := []
  sidtab := []
  sidtabok := 0
  sidtabno := 0
  stack := .zero
  below := .zero

/-! ## The tables -/

namespace Demux

/-- The bit of the last stream, none where there is no stream yet. -/
def streamBit (d : Demux) : UInt32 :=
  if d.streamPids = [] then 0
  else 1 <<< UInt32.ofNat (d.streamPids.length - 1)

/-- The last stream is added to this entry: it has the pid and is not a global
one. -/
def addsStream (d : Demux) (caid ecmpid : UInt16) (n : Fin ecmPids) : Bool :=
  d.streamPids != [] && decide (d.InUse n) && (d.ecmPid n).caid == caid &&
    (d.ecmPid n).ecmPid == ecmpid && (d.ecmPid n).streams != 0

/-- `dvbapi_add_ecmpid`. -/
def addEcmpid (d : Demux) (caid ecmpid : UInt16) (provid : UInt32) : Demux :=
  if room : d.ecmPidCount < ecmPids then
    if (List.finRange ecmPids).any (d.addsStream caid ecmpid) then
      { d with
        ecmPid := fun n =>
          if d.addsStream caid ecmpid n then
            { d.ecmPid n with streams := (d.ecmPid n).streams ||| d.streamBit }
          else d.ecmPid n }
    else
      let next : Fin ecmPids := ⟨d.ecmPidCount, room⟩
      { d with
        -- only these fields are set, the others keep what they have
        ecmPid := Function.update d.ecmPid next
          { d.ecmPid next with
            ecmPid := ecmpid, caid := caid, provid := provid
            streams := (d.ecmPid next).streams ||| d.streamBit }
        ecmPidCount := d.ecmPidCount + 1
        ecmPidCount_le := room }
  else d

/-- `dvbapi_add_emmpid`, which does not look at the number of entries. -/
def addEmmpid (d : Demux) (caid emmpid : UInt16) (provid : UInt32)
    (type : EmmType) : Demux :=
  { d with emmPids := d.emmPids ++ [{ pid := emmpid, caid, provid, type }] }

end Demux

/-! ## Descrambling -/

/-- `dvbapi_stop_descrambling`; nothing happens without a program number. -/
def stopDescrambling (s : State) (i : Fin maxDemux) : State :=
  if (s i).programNumber = 0 then s else Function.update s i .cleared

/-- An entry in use of a demux has this index. -/
def hasIndex (d : Demux) (idx : Nat) : Bool :=
  (List.finRange ecmPids).any fun j =>
    decide (d.InUse j) && decide ((d.ecmPid j).index.toInt = idx)

/-- One pass of `dvbapi_get_descindex` over the demuxes. -/
def descindexPass (s : State) (idx : Nat) : Nat :=
  (List.finRange maxDemux).foldl
    (fun idx i => if hasIndex (s i) idx then idx + 1 else idx) idx

/-- The passes until one changes nothing. -/
def descindexLoop (s : State) : Nat → Nat → Nat
  | 0, idx => idx
  | fuel + 1, idx =>
      if descindexPass s idx = idx then idx
      else descindexLoop s fuel (descindexPass s idx)

/-- `dvbapi_get_descindex`; from 128 on no index of eight bits is equal. -/
def getDescindex (s : State) : Nat := descindexLoop s 128 1

/-- `ECMpids[index]`. -/
def Demux.entry (cfg : Cfg) (d : Demux) : Option (Fin ecmPids) → EcmPid
  | none => cfg.below
  | some n => d.ecmPid n

/-- The entry is descrambled along with the one that was chosen. -/
def Demux.goesAlong (cfg : Cfg) (d : Demux) (j : Fin ecmPids) : Bool :=
  let current := d.entry cfg d.curindex
  d.curindex == some j ||
    (current.caid == (d.ecmPid j).caid &&
      current.provid == (d.ecmPid j).provid &&
      decide (0 < (d.ecmPid j).provid) &&
      !(decide ((d.ecmPid j).status < 0) || current.streams == 0))

def setEcmPid (s : State) (i : Fin maxDemux) (j : Fin ecmPids)
    (entry : EcmPid) : State :=
  Function.update s i
    { s i with ecmPid := Function.update (s i).ecmPid j entry }

/-- A turn of the loop of `dvbapi_start_descrambling`. -/
def startTurn (cfg : Cfg) (i : Fin maxDemux) (s : State) (j : Fin ecmPids) :
    State :=
  if (s i).InUse j ∧ (s i).goesAlong cfg j then
    let entry := (s i).ecmPid j
    setEcmPid s i j
      { entry with
        index :=
          if entry.index = 0 then Int8.ofNat (getDescindex s) else entry.index
        checked := true }
  else s

/-- `dvbapi_start_descrambling`. -/
def startDescrambling (cfg : Cfg) (s : State) (i : Fin maxDemux) : State :=
  (List.finRange ecmPids).foldl (startTurn cfg i)
    (Function.update s i { s i with pidindex := (s i).curindex })

/-! ## The choice of an entry -/

/-- The fields of a priority that are set fit the entry. -/
def Priority.fits (p : Priority) (d : Demux) (entry : EcmPid) : Bool :=
  (p.caid == 0 || p.caid == entry.caid) &&
    (p.provid == 0 || p.provid == entry.provid) &&
    (p.ecmpid == 0 || p.ecmpid == entry.ecmPid) &&
    (p.srvid == 0 || p.srvid == d.programNumber)

/-- `dvbapi_check_prio_match`. -/
def checkPrioMatch (cfg : Cfg) (d : Demux) (pidindex : Option (Fin ecmPids))
    (type : PrioType) : Option Priority :=
  cfg.priority.find? fun p =>
    p.type == type && p.fits d (d.entry cfg pidindex) &&
      !(p.type == .ignore && p.chid != 0)

/-- The statuses that `dvbapi_resort_ecmpids` gives, and the next one. -/
structure Sorting where
  status : Fin ecmPids → Int8
  newStatus : Nat

def Sorting.set (sorting : Sorting) (n : Fin ecmPids) (status : Int8) :
    Sorting :=
  { sorting with status := Function.update sorting.status n status }

/-- `status = new_status++`. -/
def Sorting.prioritize (sorting : Sorting) (n : Fin ecmPids) : Sorting :=
  { sorting.set n (Int8.ofNat sorting.newStatus) with
    newStatus := sorting.newStatus + 1 }

/-- An entry of the priority file and an ECM pid without a status yet. -/
def sortByPriority (d : Demux) (p : Priority) (sorting : Sorting)
    (n : Fin ecmPids) : Sorting :=
  if d.InUse n ∧ sorting.status n = 0 ∧ p.fits d (d.ecmPid n) then
    match p.type with
    | .prefer => sorting.prioritize n
    | .ignore => if p.chid ≠ 0 then sorting else sorting.set n (-1)
    | _ => sorting
  else sorting

/-- A service and an ECM pid. -/
def sortByService (cfg : Cfg) (d : Demux) (n : Fin ecmPids)
    (sorting : Sorting) (service : Cccam.Sidtab × Nat) : Sorting :=
  let (sidtab, nr) := service
  let er := { cfg.stack with
    caid := (d.ecmPid n).caid.toNat
    prid := (d.ecmPid n).provid.toNat
    srvid := d.programNumber.toNat }
  if sidtab.caid.isEmpty ∧ sidtab.provid.isEmpty ∧ sidtab.srvid.isEmpty then
    sorting
  else
    let sorting :=
      if cfg.sidtabno.testBit nr ∧ Stat.chkSrvidMatch er sidtab then
        sorting.set n (-1) -- ignore
      else sorting
    if cfg.sidtabok.testBit nr ∧ Stat.chkSrvidMatch er sidtab then
      sorting.prioritize n -- priority
    else sorting

/-- `dvbapi_resort_ecmpids`. -/
def resortEcmpids (cfg : Cfg) (d : Demux) : Demux :=
  let start : Sorting :=
    { status := fun n => if d.InUse n then 0 else (d.ecmPid n).status
      newStatus := 1 }
  let byPriority := cfg.priority.foldl
    (fun sorting p =>
      (List.finRange ecmPids).foldl (sortByPriority d p) sorting) start
  let sorted := (List.finRange ecmPids).foldl
    (fun sorting n =>
      if d.InUse n then
        cfg.sidtab.zipIdx.foldl (sortByService cfg d n) sorting
      else sorting) byPriority
  { d with
    ecmPid := fun n => { d.ecmPid n with status := sorted.status n }
    maxStatus := Int8.ofNat sorted.newStatus }

/-- The next ECM pid to try: an unchecked one of the lowest status from 1 on,
or else of status 0. -/
def Demux.nextPid (d : Demux) : Option (Fin ecmPids) :=
  let unchecked (status : Int) (n : Fin ecmPids) : Bool :=
    decide (d.InUse n) && !(d.ecmPid n).checked &&
      decide ((d.ecmPid n).status.toInt = status)
  let best := (List.range d.maxStatus.toInt.toNat).findSome? fun j =>
    (List.finRange ecmPids).find? (unchecked (j + 1))
  best.or ((List.finRange ecmPids).find? (unchecked 0))

/-- The turns of `dvbapi_try_next_caid`, which calls itself. -/
def tryTurns (cfg : Cfg) : Nat → Demux → Demux
  | 0, d => d
  | turns + 1, d =>
      if d.tries > 2 then d
      else
        match d.nextPid with
        | none =>
            if cfg.requestmode = 1 then d
            else
              tryTurns cfg turns
                { d with
                  tries := d.tries + 1
                  ecmPid := fun n =>
                    if d.InUse n then { d.ecmPid n with checked := false }
                    else d.ecmPid n }
        | some num =>
            let tried := { d with
              curindex := some num
              ecmPid := Function.update d.ecmPid num
                { d.ecmPid num with checked := true } }
            if cfg.requestmode = 1 then tryTurns cfg turns tried else tried

/-- `dvbapi_try_next_caid`: there are at most 131 turns until `tries` is 3, or
30 until every entry is checked. -/
def tryNextCaid (cfg : Cfg) (d : Demux) : Demux := tryTurns cfg 200 d

/-! ## Control words -/

/-- What `dvbapi_send_dcw` looks at in a request: the answer is good, or there
are chids of Irdeto left to try. -/
structure Dcw where
  srvid : UInt16
  caid : UInt16
  pid : UInt16
  found : Bool
  chidsLeft : Bool
  deriving DecidableEq, Repr

/-- The entry for which a control word is. -/
def Demux.entryOf (d : Demux) (er : Dcw) : Option (Fin ecmPids) :=
  (List.finRange ecmPids).find? fun j =>
    decide (d.InUse j) && (d.ecmPid j).caid == er.caid &&
      (d.ecmPid j).ecmPid == er.pid

/-- A good answer starts the descrambling. -/
def dcwFound (cfg : Cfg) (er : Dcw) (s : State) (i : Fin maxDemux)
    (j : Fin ecmPids) : State :=
  if (s i).pidindex = none ∧ er.caid ≠ 0 then
    if cfg.requestmode = 1 then
      startDescrambling cfg
        (Function.update s i { s i with curindex := some j }) i
    else startDescrambling cfg s i
  else s

/-- An answer without a control word: the next entry is tried. -/
def dcwNotFound (cfg : Cfg) (s : State) (i : Fin maxDemux) : State :=
  let forceentry := checkPrioMatch cfg (s i) (s i).curindex .prefer
  let tryNext (d : Demux) := Function.update s i (tryNextCaid cfg d)
  if (s i).pidindex = none then
    if cfg.requestmode = 1 then s
    else
      match forceentry with
      | some entry =>
          if 0 < entry.force then startDescrambling cfg s i else tryNext (s i)
      | none => tryNext (s i)
  else
    let tried : Demux := { s i with tries := (s i).tries + 1 }
    if forceentry.isNone ∧ tried.tries > 3 then
      tryNext { tried with tries := 0, curindex := some 0, pidindex := none }
    else Function.update s i tried

/-- `dvbapi_send_dcw` for the demuxes of a list. -/
def sendDcwTo (cfg : Cfg) (er : Dcw) : List (Fin maxDemux) → State → State
  | [], s => s
  | i :: rest, s =>
      if (s i).programNumber ≠ er.srvid then sendDcwTo cfg er rest s
      else
        match (s i).entryOf er with
        | none => sendDcwTo cfg er rest s
        | some j =>
            if er.found then sendDcwTo cfg er rest (dcwFound cfg er s i j)
            else if er.chidsLeft then s
            else dcwNotFound cfg s i

/-- `dvbapi_send_dcw`. -/
def sendDcw (cfg : Cfg) (er : Dcw) (s : State) : State :=
  sendDcwTo cfg er (List.finRange maxDemux) s

end Oscam.Dvbapi
