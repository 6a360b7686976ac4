import Oscam.Cccam.Share

/-!
# Statistics of the load balancer

The records that `module-stat.c` keeps for each reader, how they are found,
and the settings and readers that `get_best_reader` looks at.
-/

namespace Oscam.Stat

/-- A value in a variable of type `int32_t`. -/
def int32 (value : Int) : Int := value.bmod (2 ^ 32)

theorem int32_of_small {value : Int} (low : 0 ≤ value)
    (high : value < 2 ^ 31) : int32 value = value :=
  Int.bmod_eq_of_le (by omega) (by omega)

/-- A value in a variable of type `int16_t`. -/
def int16 (value : Int) : Int := value.bmod (2 ^ 16)

/-- `READER_STAT`, without the times that its average is made of. -/
structure ReaderStat where
  rc : Int
  caid : Nat
  prid : Nat
  srvid : Nat
  ecmlen : Int
  lastReceived : Int
  ecmCount : Int
  timeAvg : Int
  failFactor : Int
  deriving DecidableEq, Repr

/-- A record in the list of a reader, with the flag of its list node. -/
structure StatNode where
  stat : ReaderStat
  flag : UInt8
  deriving DecidableEq, Repr

/-- A reader, as far as the load balancer uses it.  `sidtabok` and `pending`
are fields of its client, `available` is the answer of its module. -/
structure LbReader where
  hasClient : Bool
  sidtabok : Nat
  pending : Int
  ftab : List Cccam.Filter
  network : Bool
  available : Bool
  lbWeight : Int
  lbUsagelevel : Int
  lbLast : Timeb
  lbStat : List StatNode
  deriving DecidableEq, Repr

/-- One entry of a `CAIDVALUETAB`. -/
structure CaidValue where
  caid : Nat
  value : Int
  deriving DecidableEq, Repr

abbrev lbNone : Int := 0
abbrev lbFastestReaderFirst : Int := 1
abbrev lbOldestReaderFirst : Int := 2
abbrev lbLowestUsagelevel : Int := 3
abbrev lbLogOnly : Int := 10

abbrev intMax : Int := 2147483647

structure LbCfg where
  lbMode : Int
  lbNbestReaders : Int
  lbNbestReadersTab : List CaidValue
  lbNfbReaders : Int
  lbMinEcmcount : Int
  lbMaxEcmcount : Int
  lbReopenSeconds : Int
  lbRetrylimit : Int
  lbRetrylimittab : List CaidValue
  lbNoproviderforcaid : List Nat
  lbReopenMode : Bool
  lbMaxReaders : Int
  lbAutoBetatunnel : Bool
  preferlocalcards : Bool
  ccForwardOriginCard : Bool
  sidtab : List Cccam.Sidtab
  deriving DecidableEq, Repr

/-- The readers, those that are active, and `nulltime`. -/
structure LbState where
  readers : ReaderId → LbReader
  active : List ReaderId
  nulltime : Timeb

namespace LbState

def setReader (s : LbState) (rdr : ReaderId) (reader : LbReader) : LbState :=
  { s with readers := Function.update s.readers rdr reader }

theorem setReader_self (s : LbState) (rdr : ReaderId) :
    s.setReader rdr (s.readers rdr) = s := by
  unfold setReader
  rw [Function.update_eq_self]

/-- A reader stays a network reader or a local one. -/
theorem network_setReader (s : LbState) {rdr : ReaderId} {reader : LbReader}
    (same : reader.network = (s.readers rdr).network) (r : ReaderId) :
    ((s.setReader rdr reader).readers r).network =
      (s.readers r).network := by
  unfold setReader
  dsimp only
  by_cases here : r = rdr
  · rw [here, Function.update_self, same]
  · rw [Function.update_of_ne here]

end LbState

/-! ## Finding records -/

/-- `get_prid`. -/
def getPrid (cfg : LbCfg) (caid prid : Nat) : Nat :=
  if cfg.lbNoproviderforcaid.any fun tcaid =>
      tcaid == caid || tcaid < 0x100 && caid / 256 == tcaid then 0
  else prid

def ReaderStat.isFor (stat : ReaderStat) (caid prid srvid : Nat)
    (ecmlen : Int) : Bool :=
  stat.caid == caid && stat.prid == prid && stat.srvid == srvid &&
    (stat.ecmlen == ecmlen || stat.ecmlen == 0)

/-- `ll_iter_move_first` for the record at `place`. -/
def moveFirst (nodes : List StatNode) (place : Nat) :
    List StatNode × Nat :=
  match nodes[place]? with
  | none => (nodes, place)
  | some node =>
      let flagged := { node with flag := node.flag + 1 }
      if node.flag = 0 then (flagged :: nodes.eraseIdx place, 0)
      else (nodes.set place flagged, place)

/-- `get_stat`: the list of the reader and the place of the record in it.
A record without a length takes the one asked for, and a record behind the
tenth is moved to the front. -/
def getStatNodes (cfg : LbCfg) (nodes : List StatNode)
    (caid prid srvid : Nat) (ecmlen : Int) : List StatNode × Option Nat :=
  let prid := getPrid cfg caid prid
  let found := nodes.findIdx? fun node =>
    node.stat.isFor caid prid srvid ecmlen
  match found with
  | none => (nodes, none)
  | some place =>
      let nodes := nodes.modify place fun node =>
        { node with stat := { node.stat with ecmlen := ecmlen } }
      if 10 < place + 1 then
        let (nodes, place) := moveFirst nodes place
        (nodes, some place)
      else (nodes, some place)

/-- `get_stat` for one of the readers. -/
def LbState.getStat (cfg : LbCfg) (s : LbState) (rdr : ReaderId)
    (caid prid srvid : Nat) (ecmlen : Int) : LbState × Option Nat :=
  let reader := s.readers rdr
  let (nodes, place) := getStatNodes cfg reader.lbStat caid prid srvid ecmlen
  (s.setReader rdr { reader with lbStat := nodes }, place)

/-- The record at some place. -/
def LbState.stat (s : LbState) (rdr : ReaderId) (place : Nat) :
    Option ReaderStat :=
  (s.readers rdr).lbStat[place]?.map (·.stat)

/-- A record is changed. -/
def LbState.modifyStat (s : LbState) (rdr : ReaderId) (place : Nat)
    (change : ReaderStat → ReaderStat) : LbState :=
  let reader := s.readers rdr
  s.setReader rdr { reader with
    lbStat := reader.lbStat.modify place fun node =>
      { node with stat := change node.stat } }

/-- `reset_stat`. -/
def resetStat (cfg : LbCfg) (caid prid srvid : Nat) (ecmlen : Int)
    (s : LbState) : LbState :=
  s.active.foldl (fun s rdr =>
    if (s.readers rdr).hasClient then
      match s.getStat cfg rdr caid prid srvid ecmlen with
      | (s, none) => s
      | (s, some place) => s.modifyStat rdr place fun stat =>
          { stat with
            ecmCount := if stat.ecmCount > 0 then 1 else stat.ecmCount
            rc := 0
            failFactor := 0 }
    else s) s

/-! ## Settings for a request -/

/-- The value for a caid in a table, or the general one. -/
def caidValue (tab : List CaidValue) (default : Int) (caid : Nat) : Int :=
  match tab.find? (·.caid == caid) with
  | some entry => entry.value
  | none => default

/-- `get_retrylimit`. -/
def getRetrylimit (cfg : LbCfg) (er : EcmRequest) : Int :=
  caidValue cfg.lbRetrylimittab cfg.lbRetrylimit er.caid

/-- `get_nbest_readers`. -/
def getNbestReaders (cfg : LbCfg) (er : EcmRequest) : Int :=
  caidValue cfg.lbNbestReadersTab cfg.lbNbestReaders er.caid

/-- `get_reopen_seconds`: the seconds, and the record with its factor
limited. -/
def getReopenSeconds (cfg : LbCfg) (stat : ReaderStat) : Int × ReaderStat :=
  let most := intMax.tdiv cfg.lbReopenSeconds
  let stat := if stat.failFactor > most then { stat with failFactor := most }
    else stat
  if stat.failFactor = 0 then (cfg.lbReopenSeconds, stat)
  else (int32 (stat.failFactor * cfg.lbReopenSeconds), stat)

/-- `chk_srvid_match`. -/
def chkSrvidMatch (er : EcmRequest) (sidtab : Cccam.Sidtab) : Bool :=
  (sidtab.caid.isEmpty || sidtab.caid.contains er.caid) &&
    (sidtab.provid.isEmpty || sidtab.provid.contains er.prid) &&
    (sidtab.srvid.isEmpty || sidtab.srvid.contains er.srvid)

/-- `has_srvid`, for the client of a reader. -/
def hasSrvid (cfg : LbCfg) (reader : LbReader) (er : EcmRequest) : Bool :=
  reader.sidtabok != 0 && cfg.sidtab.zipIdx.any fun (sidtab, nr) =>
    !sidtab.srvid.isEmpty && reader.sidtabok.testBit nr &&
      chkSrvidMatch er sidtab

/-- `has_ident`. -/
def hasIdent (ftab : List Cccam.Filter) (er : EcmRequest) : Bool :=
  ftab.any fun filt => filt.caid != 0 && filt.caid == er.caid &&
    (filt.prids.isEmpty || filt.prids.contains er.prid)

end Oscam.Stat
