import Oscam.Stat.BestReader
import Oscam.Cccam.SendEcm
import Oscam.Lib.RingBuffer

/-!
# Statistics of an answer

`add_stat`, which takes an answer of a reader into its record for the channel,
and `send_reader_stat`, which measures the time of the answer.  The record is
the one that `get_stat` finds in the list of the reader, if there is one.
-/

namespace Oscam.Stat

abbrev e2CccamNok2 : Nat := 0x29

/-- `LB_MAX_STAT_TIME`. -/
abbrev lbMaxStatTime : Nat := 10

/-- `UNDEF_AVG_TIME`, a dummy placeholder. -/
abbrev undefAvgTime : Int := 80000

/-- `READER_STAT`, with the times that its average is made of. -/
structure TimedStat where
  stat : ReaderStat
  times : RingBuffer Int lbMaxStatTime
  deriving DecidableEq

/-- `time_stat` with all entries zero. -/
def noTimes : RingBuffer Int lbMaxStatTime :=
  RingBuffer.filled lbMaxStatTime 0 (by decide)

/-- The settings of `add_stat`; the time-outs are in milliseconds. -/
structure StatCfg where
  lb : LbCfg
  ctimeout : Nat
  ftimeout : Nat

/-- The client of a reader: when it was connected, and its pending
requests. -/
structure StatClient where
  login : Int
  pending : Int
  deriving DecidableEq, Repr

/-- A call of `add_stat`: the arguments, the client of the reader, whether the
client of the request is still there, and `time(NULL)`. -/
structure AddStatCall where
  rdr : ReaderId
  r : LbRequest
  ecmTime : Int
  rc : Int
  client : Option StatClient
  clientAlive : Bool
  ctime : Int

/-! ## Parts of a record -/

/-- `inc_fail`. -/
def incFail (stat : ReaderStat) : ReaderStat :=
  { stat with
    failFactor :=
      if stat.failFactor ≤ 0 then 1 else int32 (stat.failFactor * 2) }

/-- The loop of `calc_stat`: the sum of the times, and how many they are. -/
def sumTimes (times : List Int) : Int × Nat :=
  times.foldl (fun (t, c) time =>
    if time > 0 then (int32 (t + time), c + 1) else (t, c)) (0, 0)

/-- `calc_stat`. -/
def calcStat (s : TimedStat) : TimedStat :=
  let (t, c) := sumTimes s.times.cells
  { s with
    stat := { s.stat with
      timeAvg := if c = 0 then undefAvgTime else t.tdiv c } }

/-- A time is stored at the next index. -/
def TimedStat.addTime (s : TimedStat) (ecmTime : Int) : TimedStat :=
  calcStat { s with times := s.times.push ecmTime }

/-- What `get_stat` does to the record that it finds. -/
def looked (er : EcmRequest) (s : TimedStat) : TimedStat :=
  { s with stat := { s.stat with ecmlen := int16 er.l } }

/-- A new record of `get_add_stat`. -/
def newStat (er : EcmRequest) (prid : Nat) : TimedStat :=
  { stat := { rc := 0, caid := er.caid, prid := prid, srvid := er.srvid
              ecmlen := int16 er.l, lastReceived := 0, ecmCount := 0
              timeAvg := undefAvgTime, failFactor := 0 }
    times := noTimes }

/-- `get_add_stat`. -/
def getAddStat (er : EcmRequest) (prid : Nat) (found : Option TimedStat) :
    TimedStat :=
  let s := match found with
    | some s => looked er s
    | none => newStat er prid
  if s.stat.ecmCount < 0 then { s with stat := { s.stat with ecmCount := 0 } }
  else s

/-! ## Return codes -/

variable (cfg : StatCfg) (call : AddStatCall)

/-- The return code; "not found" behind the client time-out is a time-out. -/
def AddStatCall.statRc : Int :=
  if call.rc = 4 ∧ call.ecmTime % 2 ^ 32 ≥ cfg.ctimeout then 5 else call.rc

/-- The search for the reader among the matching ones: whether the first
fallback has come before it or is its own node. -/
def isFallback (l : LList) (fallback : Option Nat) (rdr : ReaderId) :
    List Nat → Bool → Bool
  | [], _ => false
  | cell :: cells, isFb =>
      let isFb := isFb || fallback == some cell
      if l.obj cell = rdr then isFb else isFallback l fallback rdr cells isFb

/-- The answering reader is a fallback reader. -/
def AddStatCall.isFallback : Bool :=
  call.clientAlive && Stat.isFallback call.r.matchingRdr call.r.fallback
    call.rdr call.r.matchingRdr.cells false

/-- The time of an answer, without the fallback time-out. -/
def AddStatCall.answerTime : Int :=
  if call.isFallback ∧ call.ecmTime % 2 ^ 32 ≥ cfg.ftimeout then
    int32 (call.ecmTime - cfg.ftimeout)
  else call.ecmTime

/-- The record of a reader that answered. -/
def addFound (s : TimedStat) : TimedStat :=
  let s := { s with
    stat := { s.stat with
      rc := 0
      ecmCount := int32 (s.stat.ecmCount + 1)
      lastReceived := call.ctime
      failFactor := 0 } }
  s.addTime (call.answerTime cfg)

/-- The errors of a CCcam server after which the record stays as it is. -/
def isCccamError (rcEx : Nat) : Bool :=
  rcEx == e2CccamNok1 || rcEx == e2CccamNok2 ||
    rcEx == Cccam.e2CccamLoop || rcEx == e2WrongChksum

/-- The record of a reader that did not find the channel. -/
def addNotFound (s : TimedStat) : TimedStat :=
  let ecmTime := if call.ecmTime < 100 then 100 else call.ecmTime
  let stat := { s.stat with
    timeAvg := if s.stat.rc = 4 then int32 (s.stat.timeAvg + ecmTime)
      else s.stat.timeAvg
    rc := 4 }
  let stat := { incFail stat with lastReceived := call.ctime }
  { s with
    stat := { stat with
      ecmCount := if cfg.lb.lbReopenMode then stat.ecmCount
        else stat.ecmCount.tdiv 10 } }

/-- A suddenly occurring time-out. -/
def isSudden (stat : ReaderStat) : Bool :=
  decide (int32 (call.ctime - stat.lastReceived) < int32 (5 * cfg.ctimeout)) &&
    stat.rc == 0 && stat.ecmCount == 0

/-- A time-out of a reader that is connected for some time and has not too many
pending requests. -/
def isLate (client : StatClient) (stat : ReaderStat) : Bool :=
  decide (client.login + (2 * cfg.ctimeout % 2 ^ 32 / 1000 : Nat) <
      call.ctime) &&
    decide (client.pending < 5) && stat.rc == 0 && stat.ecmCount == 0

/-- The time of a time-out. -/
def AddStatCall.timeoutTime : Int :=
  if call.ecmTime ≤ 0 ∨ call.ecmTime > int32 cfg.ctimeout then
    int32 cfg.ctimeout
  else call.ecmTime

/-- The record of a reader that timed out. -/
def addTimeout (client : StatClient) (s : TimedStat) : TimedStat :=
  let stat :=
    if isSudden cfg call s.stat then { s.stat with rc := 5 }
    else if isLate cfg call client s.stat then
      incFail { s.stat with rc := 5 }
    else s.stat
  TimedStat.addTime { s with stat := { stat with lastReceived := call.ctime } }
    (call.timeoutTime cfg)

/-- A record that only shows that the reader still answers. -/
def addReceived (s : TimedStat) : TimedStat :=
  let s := looked call.r.er s
  { s with stat := { s.stat with lastReceived := call.ctime } }

/-- `lb_usagelevel` of a reader, with its counter and the time from which on
it counts. -/
structure Usagelevel where
  lbUsagelevel : Int
  ecmcount : Int
  time : Int
  deriving DecidableEq, Repr

/-- The usage level is updated every `lb_min_ecmcount` answers. -/
def addUsage (usage : Usagelevel) : Usagelevel :=
  let full := usage.ecmcount > 0 ∧
    usage.ecmcount.tdiv cfg.lb.lbMinEcmcount > 0
  let t := call.ctime - usage.time
  let ule := if full then 0 else usage.ecmcount
  { lbUsagelevel := if full then Int.tdiv 1000 (if t < 1 then 1 else t)
      else usage.lbUsagelevel
    ecmcount := int32 (ule + 1)
    time := if ule = 0 then call.ctime else usage.time }

/-- `add_stat`: the record of the reader and its usage level. -/
def addStat (found : Option TimedStat) (usage : Usagelevel) :
    Option TimedStat × Usagelevel :=
  match call.client with
  | none => (found, usage)
  | some client =>
      if cfg.lb.lbMode = lbNone then (found, usage)
      else
        let er := call.r.er
        let prid := getPrid cfg.lb er.caid er.prid
        let rc := call.statRc cfg
        if rc = 0 then
          (some (addFound cfg call (getAddStat er prid found)),
            addUsage cfg call usage)
        else if rc = 1 ∨ rc = 2 then (found.map (addReceived call), usage)
        else if rc = 4 then
          if isCccamError er.rcEx then (found.map (addReceived call), usage)
          else (some (addNotFound cfg call (getAddStat er prid found)), usage)
        else if rc = 5 then
          (some (addTimeout cfg call client (getAddStat er prid found)), usage)
        else (found, usage)

/-- `send_reader_stat`: the call of `add_stat`, with the time since the request
was made. -/
def sendReaderStat (tpe : Timeb) (call : AddStatCall) : Option AddStatCall :=
  if call.rc ≥ e99 then none
  else
    let time := int32 (Timeb.since tpe call.r.er.tps)
    some { call with ecmTime := if time < 1 then 1 else time }

end Oscam.Stat
