import Oscam.Stat.Records
import Oscam.LList.Sweep

/-!
# The best readers for a request

`get_best_reader`, which replaces the list of matching readers of a request by
the readers that it is sent to, the primary ones in front of the first
fallback.
-/

namespace Oscam.Stat

/-- A request with its list of matching readers and the node of its first
fallback. -/
structure LbRequest where
  er : EcmRequest
  matchingRdr : LList
  fallback : Option Nat
  originCard : Option Cccam.Card

/-- The objects of a list, in the order in which an iterator finds them. -/
def objects (l : LList) : List Nat := l.cells.map l.obj

/-- What `get_best_reader` does not get as an argument: the settings, the two
clocks and the digest of an ECM. -/
structure LbEnv where
  cfg : LbCfg
  time : Int
  ftime : Timeb
  md5 : List UInt8 → Digest

/-! ## Betacrypt tunnels -/

/-- `get_betatunnel_caid_to`. -/
def getBetatunnelCaidTo (caid : Nat) : Option Nat :=
  if caid = 0x1801 then some 0x1722
  else if caid = 0x1833 then some 0x1702
  else if caid = 0x1834 then some 0x1722
  else if caid = 0x1835 then some 0x1722
  else none

/-- `convert_to_beta`. -/
def convertToBeta (er : EcmRequest) (caidto : Nat) : EcmRequest :=
  let len := er.ecmByte 2
  let byte := fun i => UInt8.ofNat (er.ecmByte i)
  let body := (List.range len).map fun i => byte (3 + i)
  let long := len + 3 > 0x88
  let last : UInt8 := if byte 0 = 0x81 then 0x13 else 0x12
  let header : List UInt8 :=
    if long then [0xc7, 0x00, 0x00, 0x00, 0x01, 0x10, 0x10, 0x00, 0x87, last]
    else [0xc9, 0x00, 0x00, 0x00, 0x01, 0x10, 0x10, 0x00, 0x48, 0x12]
  let second : UInt8 := if long then 0x70 else byte 1
  { er with
    caid := caidto
    prid := 0
    l := len + 13
    ecm := [byte 0, second, UInt8.ofNat (len + 10)] ++ header ++ body ++
      er.ecm.drop (13 + len)
    btun := true }

/-- `convert_to_beta_int`. -/
def convertToBetaInt (env : LbEnv) (er : EcmRequest) (caidTo : Nat) :
    EcmRequest :=
  let er := convertToBeta er caidTo
  { er with ecmd5 := env.md5 ((er.ecm.drop 13).take (er.l - 13).toNat) }

/-- What the comparison of both caids has found so far. -/
structure Tunnel where
  s : LbState
  needsNagra : Bool
  needsBeta : Bool
  timeNagra : Int
  timeBeta : Int

/-- The better of two times, zero being none. -/
def betterTime (stat : Option ReaderStat) (weight before : Int) : Int :=
  match stat with
  | some stat =>
      let time := (int32 (stat.timeAvg * 100)).tdiv weight
      if stat.rc = 0 ∧ (before = 0 ∨ time < before) then time else before
  | none => before

/-- One reader in the comparison of both caids. -/
def compareTunnel (env : LbEnv) (er : EcmRequest) (prid caidTo : Nat)
    (t : Tunnel) (rdr : ReaderId) : Tunnel :=
  let lbWeight := (t.s.readers rdr).lbWeight
  let weight := if lbWeight ≤ 0 then 1 else lbWeight
  let (s, nagra) := t.s.getStat env.cfg rdr er.caid prid er.srvid (int16 er.l)
  let statNagra := nagra.bind (s.stat rdr)
  let (s, beta) := s.getStat env.cfg rdr caidTo prid er.srvid
    (int16 (er.l + 10))
  let statBeta := beta.bind (s.stat rdr)
  { s := s
    needsNagra := statNagra.isNone
    needsBeta := statBeta.isNone
    timeNagra := betterTime statNagra weight t.timeNagra
    timeBeta := betterTime statBeta weight t.timeBeta }

/-- The loop over the readers; it ends when statistics are missing. -/
def compareTunnels (env : LbEnv) (er : EcmRequest) (prid caidTo : Nat) :
    List ReaderId → Tunnel → Tunnel
  | [], t => t
  | rdr :: rdrs, t =>
      if t.needsNagra || t.needsBeta then t
      else compareTunnels env er prid caidTo rdrs
        (compareTunnel env er prid caidTo t rdr)

/-- The decision for a betacrypt tunnel. -/
def autoBetatunnel (env : LbEnv) (s : LbState) (er : EcmRequest)
    (prid : Nat) (rdrs : List ReaderId) : LbState × EcmRequest :=
  if env.cfg.lbAutoBetatunnel = true ∧ er.caid / 256 = 0x18 then
    match getBetatunnelCaidTo er.caid with
    | none => (s, er)
    | some caidTo =>
        let t := compareTunnels env er prid caidTo rdrs
          { s := s, needsNagra := false, needsBeta := false, timeNagra := 0
            timeBeta := 0 }
        if t.needsNagra || t.needsBeta then
          (t.s, if t.needsBeta then convertToBetaInt env er caidTo else er)
        else if t.timeBeta ≠ 0 ∧
            (t.timeNagra = 0 ∨ t.timeBeta ≤ t.timeNagra) then
          (t.s, convertToBetaInt env er caidTo)
        else (t.s, er)
  else (s, er)

/-! ## Learning -/

/-- `struct stat_value`. -/
structure StatValue where
  rdr : ReaderId
  value : Int
  time : Int
  deriving DecidableEq, Repr

/-- The variables of the loop over the matching readers. -/
structure Learning where
  s : LbState
  result : LList
  selected : List StatValue
  timeoutServices : List ReaderId
  nreaders : Int
  newStats : Bool
  nlocalReaders : Int
  newNulltime : Timeb

namespace Learning

/-- A reader is taken without being compared. -/
def take (v : Learning) (rdr : ReaderId) : Learning :=
  { v with result := v.result.append rdr, nreaders := v.nreaders - 1 }

end Learning

/-- A time stamp as milliseconds after another one. -/
def Timeb.since (time start : Timeb) : Int :=
  1000 * (time.time - start.time) + (time.millitm - start.millitm)

/-- The value of a reader that is weighed down by its state. -/
def loadedValue (reader : LbReader) (value : Int) : Int :=
  let value := if reader.available then value else int32 (value * 2)
  let value := if reader.pending ≠ 0 then int32 (value * reader.pending)
    else value
  if value < 1 then 1 else value

/-- A reader that can be compared with others. -/
def selectReader (env : LbEnv) (v : Learning) (rdr : ReaderId)
    (stat : ReaderStat) : Learning :=
  let reader := v.s.readers rdr
  let weight := if reader.lbWeight ≤ 0 then 100 else reader.lbWeight
  let v := if env.cfg.preferlocalcards && !reader.network then
      { v with nlocalReaders := v.nlocalReaders + 1 }
    else v
  let v := if stat.rc ≥ 5 then
      { v with timeoutServices := rdr :: v.timeoutServices }
    else v
  let choose := fun (v : Learning) (value : Int) =>
    { v with selected := v.selected ++
        [{ rdr := rdr, value := loadedValue (v.s.readers rdr) value
           time := stat.timeAvg }] }
  if env.cfg.lbMode = lbFastestReaderFirst then
    choose v ((int32 (stat.timeAvg * 100)).tdiv weight)
  else if env.cfg.lbMode = lbOldestReaderFirst then
    let last := if reader.lbLast.time = 0 then v.s.nulltime else reader.lbLast
    let v := { v with s := v.s.setReader rdr { reader with lbLast := last } }
    let v := if v.newNulltime.time = 0 ∨ Timeb.since last v.newNulltime < 0
      then { v with newNulltime := last }
      else v
    choose v (int32 (Timeb.since last v.s.nulltime))
  else if env.cfg.lbMode = lbLowestUsagelevel then
    choose v ((int32 (reader.lbUsagelevel * 100)).tdiv weight)
  else v.take rdr

/-- One turn of the loop over the matching readers.  `add_stat` with a return
code of -1, which starts the statistics of a reader, changes nothing. -/
def learnReader (env : LbEnv) (er : EcmRequest) (prid : Nat)
    (retrylimit : Int) (v : Learning) (rdr : ReaderId) : Learning :=
  let (s, place) := v.s.getStat env.cfg rdr er.caid prid er.srvid (int16 er.l)
  let v := { v with s := s }
  match place.bind (s.stat rdr) with
  | none => { v.take rdr with newStats := true }
  | some stat =>
      if stat.ecmCount < 0 ∨ stat.ecmCount > env.cfg.lbMaxEcmcount ∧
          stat.timeAvg > retrylimit then
        let v := { v with
          s := resetStat env.cfg er.caid prid er.srvid (int16 er.l) v.s }
        v.take rdr
      else if stat.rc = 0 ∧ stat.ecmCount < env.cfg.lbMinEcmcount then
        { v.take rdr with newStats := true }
      else if stat.rc = 0 ∨ hasSrvid env.cfg (s.readers rdr) er = true ∨
          hasIdent (s.readers rdr).ftab er = true then
        selectReader env v rdr stat
      else v

/-- The loop over the matching readers. -/
def learn (env : LbEnv) (er : EcmRequest) (prid : Nat) (retrylimit : Int) :
    List ReaderId → Learning → Learning
  | [], v => v
  | rdr :: rdrs, v =>
      if v.nreaders = 0 then v
      else learn env er prid retrylimit rdrs
        (learnReader env er prid retrylimit v rdr)

/-! ## Choosing -/

/-- The variables of the loop that chooses the best readers. -/
structure Choosing where
  s : LbState
  result : LList
  selected : List StatValue
  nreaders : Int
  nlocalReaders : Int
  nbestReaders : Int
  nfbReaders : Int
  bestRdr : Option ReaderId
  bestTime : Int
  fallback : Option Nat
  n : Nat

/-- The place of the value that is best, among the local readers as long as
some are wanted. -/
def bestValue (localOnly : Bool) (network : ReaderId → Bool) :
    List (StatValue × Nat) → Option (StatValue × Nat) →
      Option (StatValue × Nat)
  | [], best => best
  | (stv, place) :: rest, best =>
      let better := match best with
        | none => true
        | some (best, _) => stv.value < best.value
      if localOnly && network stv.rdr then
        bestValue localOnly network rest best
      else if stv.value != 0 && better then
        bestValue localOnly network rest (some (stv, place))
      else bestValue localOnly network rest best

/-- A counter of readers wanted; a reader that only times out does not
count. -/
def counted (timeoutServices : List ReaderId) (rdr : ReaderId)
    (wanted : Int) : Int :=
  if timeoutServices.contains rdr then wanted else wanted - 1

/-- A primary reader is taken. -/
def takePrimary (env : LbEnv) (v : Choosing) (rdr : ReaderId) : Choosing :=
  { v with
    result := v.result.append rdr
    nreaders := v.nreaders - 1
    s := v.s.setReader rdr { v.s.readers rdr with lbLast := env.ftime } }

/-- A reader of the selected ones is taken; `none` ends the loop. -/
def takeBest (env : LbEnv) (timeoutServices : List ReaderId) (v : Choosing)
    (best : StatValue) (place : Nat) : Choosing × Bool :=
  let v := { v with
    n := v.n + 1
    bestRdr := v.bestRdr.or (some best.rdr)
    bestTime := if v.bestRdr.isNone then best.time else v.bestTime
    selected := v.selected.modify place fun stv => { stv with value := 0 } }
  if v.nlocalReaders ≠ 0 then
    (takePrimary env { v with
      nlocalReaders := counted timeoutServices best.rdr v.nlocalReaders }
        best.rdr, true)
  else if v.nbestReaders ≠ 0 then
    (takePrimary env { v with
      nbestReaders := counted timeoutServices best.rdr v.nbestReaders }
        best.rdr, true)
  else if v.nfbReaders ≠ 0 then
    ({ v with
      nfbReaders := counted timeoutServices best.rdr v.nfbReaders
      result := v.result.append best.rdr
      fallback := v.fallback.or (some v.result.fresh) }, true)
  else (v, false)

/-- The loop that chooses the best readers; each turn uses one of them up. -/
def chooseBest (env : LbEnv) (timeoutServices : List ReaderId) :
    Nat → Choosing → Choosing
  | 0, v => v
  | fuel + 1, v =>
      if v.nreaders = 0 then v
      else
        match bestValue (v.nlocalReaders != 0) (fun rdr =>
            (v.s.readers rdr).network) v.selected.zipIdx none with
        | none => v
        | some (best, place) =>
            let (v, further) := takeBest env timeoutServices v best place
            if further then chooseBest env timeoutServices fuel v else v

/-! ## Reopening -/

/-- The readers that are reopened because no other one was found. -/
structure Reopening where
  s : LbState
  result : LList
  nreaders : Int

/-- One reader that may be reopened as the last valid one. -/
def reopenReader (env : LbEnv) (er : EcmRequest) (prid : Nat)
    (v : Reopening) (rdr : ReaderId) : Reopening :=
  let (s, place) := v.s.getStat env.cfg rdr er.caid prid er.srvid (int16 er.l)
  let v := { v with s := s }
  match place, place.bind (s.stat rdr) with
  | some place, some stat =>
      if stat.ecmCount > 0 then
        let (seconds, stat) := getReopenSeconds env.cfg stat
        let v := { v with s := v.s.modifyStat rdr place fun _ => stat }
        if stat.lastReceived + seconds < env.time ∧
            ¬ (objects v.result).contains rdr ∧ v.nreaders ≠ 0 then
          { v with
            result := v.result.append rdr, nreaders := v.nreaders - 1 }
        else v
      else v
  | _, _ => v

/-- A failed reader is due again. -/
def isDue (env : LbEnv) (stat : ReaderStat) : Bool × ReaderStat :=
  if env.cfg.lbReopenMode then (true, stat)
  else
    let (seconds, stat) := getReopenSeconds env.cfg stat
    (stat.lastReceived + seconds < env.time, stat)

/-- One reader that may be retried. -/
def retryReader (env : LbEnv) (er : EcmRequest) (prid : Nat)
    (v : Reopening) (rdr : ReaderId) : Reopening :=
  let (s, place) := v.s.getStat env.cfg rdr er.caid prid er.srvid (int16 er.l)
  let v := { v with s := s }
  match place, place.bind (s.stat rdr) with
  | some place, some stat =>
      if stat.rc ≠ 0 then
        let (due, stat) := isDue env stat
        if due then
          let s := v.s.modifyStat rdr place fun _ =>
            { stat with lastReceived := env.time }
          let (result, removed) := v.result.remove rdr
          { s := s
            result := result.prepend rdr
            nreaders := v.nreaders + removed - 1 }
        else { v with s := v.s.modifyStat rdr place fun _ => stat }
      else v
  | _, _ => v

/-- The loop over the readers that may be retried. -/
def retry (env : LbEnv) (er : EcmRequest) (prid : Nat) :
    List ReaderId → Reopening → Reopening
  | [], v => v
  | rdr :: rdrs, v =>
      if v.nreaders = 0 then v
      else retry env er prid rdrs (retryReader env er prid v rdr)

/-! ## The whole function -/

/-- The list that `ll_create` makes of nodes not used before. -/
def createBehind (l : LList) : LList := { LList.create with fresh := l.fresh }

/-- The readers chosen for a request, before any is reopened. -/
def chooseReaders (env : LbEnv) (s : LbState) (er : EcmRequest) (prid : Nat)
    (matching : LList) : Learning × Choosing :=
  let learned := learn env er prid (getRetrylimit env.cfg er)
    (objects matching)
    { s := s, result := createBehind matching, selected := []
      timeoutServices := []
      nreaders := if env.cfg.lbMaxReaders = 0 then -1
        else env.cfg.lbMaxReaders
      newStats := false, nlocalReaders := 0
      newNulltime := { time := 0, millitm := 0 } }
  let nbest := getNbestReaders env.cfg er
  let nlocal := learned.nlocalReaders
  (learned, chooseBest env learned.timeoutServices
    (learned.selected.length + 1)
    { s := learned.s, result := learned.result, selected := learned.selected
      nreaders := learned.nreaders
      nlocalReaders := if nlocal > nbest then nbest else nlocal
      nbestReaders := if nlocal > nbest then 0 else nbest - nlocal
      nfbReaders := env.cfg.lbNfbReaders, bestRdr := none, bestTime := 0
      fallback := none, n := 0 })

/-- The readers that are reopened and retried behind `chosen`. -/
def reopenReaders (env : LbEnv) (er : EcmRequest) (prid : Nat)
    (matching : LList) (learned : Learning) (chosen : Choosing) :
    Reopening :=
  let v : Reopening :=
    { s := chosen.s, result := chosen.result, nreaders := chosen.nreaders }
  if learned.newStats = false ∧ chosen.result.count < matching.count then
    let v := if chosen.n = 0 then
        (objects matching).foldl (reopenReader env er prid) v
      else v
    if chosen.bestRdr = none ∨ chosen.bestTime ≠ 0 ∧
        chosen.bestTime > getRetrylimit env.cfg er then
      retry env er prid (objects matching) v
    else v
  else v

/-- The reader that a request is forced to, with its origin card. -/
def forcedReader (env : LbEnv) (r : LbRequest) : Option ReaderId :=
  if env.cfg.ccForwardOriginCard then
    match r.originCard with
    | some card => (objects r.matchingRdr).find? fun rdr =>
        card.originReader == some rdr
    | none => none
  else none

/-- `get_best_reader`. -/
def getBestReader (env : LbEnv) (s : LbState) (r : LbRequest) :
    LbState × LbRequest :=
  if env.cfg.lbMode = lbNone ∨ env.cfg.lbMode = lbLogOnly then (s, r)
  else
    match forcedReader env r with
    | some rdr => (s, { r with matchingRdr := r.matchingRdr.clear.append rdr })
    | none =>
        let prid := getPrid env.cfg r.er.caid r.er.prid
        let (s, er) := autoBetatunnel env s r.er prid (objects r.matchingRdr)
        let (learned, chosen) := chooseReaders env s er prid r.matchingRdr
        let v := reopenReaders env er prid r.matchingRdr learned chosen
        let s := if learned.newNulltime.time ≠ 0 then
            { v.s with nulltime := learned.newNulltime }
          else v.s
        (s, { r with
          er := er, matchingRdr := v.result, fallback := chosen.fallback })

end Oscam.Stat
