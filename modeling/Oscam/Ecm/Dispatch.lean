import Oscam.Ecm.Server

/-!
# Requests of the clients

`get_ecmtask`, `get_cw` and `chk_pending` of `oscam.c`.  What `get_cw` asks of
the account, of the clock and of the filters of `oscam-chk.c` is collected in
`Checks`; every theorem holds for all their results.
-/

namespace Oscam

/-- What a module presets before it calls `get_cw`: nothing, `E_CORRUPT` with
or without calling `get_cw`, or `E_NOTFOUND`. -/
inductive Preset where
  | unhandled
  | corruptSilently
  | corrupt
  | notfound
  deriving DecidableEq, Repr

/-- What a module reads from a request of its client. -/
structure Asked where
  ecm : List UInt8
  l : Int
  caid : Nat
  srvid : Nat
  chid : Nat
  pid : Nat
  prid : Nat
  preset : Preset
  deriving DecidableEq, Repr

/-- The results of the checks of `get_cw` for one request.  The filters may
look at the request; `chkBcaid` returns the mapped caid or `none`. -/
structure Checks where
  guessCardsystem : EcmRequest → Nat × Nat
  chkProvid : List UInt8 → Nat → Nat
  ncdPrid : Option Nat
  expired : Bool
  outOfTimeframe : Bool
  disabled : Bool
  banDisabled : Bool
  sleeping : Bool
  banSleeping : Bool
  sleepsend : Bool
  dup : Bool
  chkBcaid : EcmRequest → Option Nat
  chkSrvid : EcmRequest → Bool
  chkUfilters : EcmRequest → Bool
  chkSfilter : EcmRequest → Bool
  ttab : List (Nat × Nat × Nat)
  md5 : List UInt8 → Digest
  acDenied : Bool
  matching : EcmRequest → ReaderId → Bool
  bestReader : EcmRequest → Option (List ReaderId × Option ReaderId)

/-- Checks that every request passes and that match every reader. -/
def Checks.passing (md5 : List UInt8 → Digest) : Checks :=
  { guessCardsystem := fun er => (er.caid, er.prid), chkProvid := fun _ _ => 0
    ncdPrid := none, expired := false, outOfTimeframe := false
    disabled := false, banDisabled := false, sleeping := false
    banSleeping := false, sleepsend := false, dup := false
    chkBcaid := fun er => some er.caid, chkSrvid := fun _ => true
    chkUfilters := fun _ => true, chkSfilter := fun _ => true, ttab := []
    md5 := md5, acDenied := false, matching := fun _ _ => true
    bestReader := fun _ => none }

/-! ## The checks of `get_cw` -/

/-- Checks made one after the other. -/
def inOrder (checks : List (EcmRequest → EcmRequest)) (er : EcmRequest) :
    EcmRequest :=
  checks.foldl (fun er check => check er) er

def guessCaid (checks : Checks) (er : EcmRequest) : EcmRequest :=
  if er.caid = 0 then
    { er with
      caid := (checks.guessCardsystem er).1
      prid := (checks.guessCardsystem er).2 }
  else er

def fixIrdetoChid (er : EcmRequest) : EcmRequest :=
  if er.caid / 256 = 0x06 ∧ er.chid = 0 then
    { er with chid := er.ecmByte 6 * 256 + er.ecmByte 7 }
  else er

def fixSecaSrvid (er : EcmRequest) : EcmRequest :=
  if er.caid = 0x100 ∧ er.prid = 0x65 ∧ er.srvid = 0 then
    { er with srvid := 0x0642 }
  else er

def fixViaccessPrid (er : EcmRequest) : EcmRequest :=
  if er.caid = 0x500 ∧ (er.prid = 0x030300 ∨ er.prid = 0xD20200) then
    { er with prid := 0x030600 }
  else er

/-- Betacrypt ECM with a Nagra header. -/
def fixBetacryptCaid (er : EcmRequest) : EcmRequest :=
  if er.caid = 0x1702 ∧ er.l = 0x89 ∧ er.ecmByte 3 = 0x07 ∧
      er.ecmByte 4 = 0x84 then
    { er with caid := 0x1833 }
  else er

def fixNagraPrid (er : EcmRequest) : EcmRequest :=
  if er.caid / 256 = 0x18 ∧ er.prid > 0x00FFFF then { er with prid := 0 }
  else er

def fillPrid (checks : Checks) (er : EcmRequest) : EcmRequest :=
  if er.prid = 0 then { er with prid := checks.chkProvid er.ecm er.caid }
  else er

def fillNcdPrid (checks : Checks) (er : EcmRequest) : EcmRequest :=
  if er.prid = 0 then { er with prid := checks.ncdPrid.getD 0 } else er

/-- The quick fixes at the start of `get_cw`. -/
def quickfixes (checks : Checks) : List (EcmRequest → EcmRequest) :=
  [guessCaid checks, fixIrdetoChid, fixSecaSrvid, fixViaccessPrid,
    fixBetacryptCaid, fixNagraPrid, fillPrid checks, fillNcdPrid checks]

def chkSupported (er : EcmRequest) : EcmRequest :=
  if er.caid = 0 then
    { er with
      rc := eInvalid, rcEx := e2Caid
      msglog := "CAID not supported or found" }
  else er

/-- A check that only sets the return code. -/
def reject (rejected : Bool) (rc : Int) (er : EcmRequest) : EcmRequest :=
  if rejected then { er with rc := rc } else er

/-- The checks before the filters: caid, expiry, time frame, disabled. -/
def accountChecks (checks : Checks) : List (EcmRequest → EcmRequest) :=
  [chkSupported, reject checks.expired eExpdate,
    reject checks.outOfTimeframe eExpdate, reject checks.disabled eDisabled]

/-- The length the ECM states in its header. -/
def ecmLen (er : EcmRequest) : Int :=
  ((er.ecmByte 1 % 16) * 256 + er.ecmByte 2 : Nat) + 3

/-- A filter is skipped once a filter before it has failed. -/
def unlessRejected (check : EcmRequest → EcmRequest) (er : EcmRequest) :
    EcmRequest :=
  if eUnhandled ≤ er.rc then check er else er

def chkCaid (checks : Checks) (er : EcmRequest) : EcmRequest :=
  match checks.chkBcaid er with
  | some caid => { er with caid := caid }
  | none =>
      { er with rc := eInvalid, rcEx := e2Caid, msglog := "invalid caid" }

def chkService (checks : Checks) (er : EcmRequest) : EcmRequest :=
  if checks.chkSrvid er then er
  else { er with rc := eInvalid, msglog := "invalid SID" }

def chkFilter (passes : EcmRequest → Bool) (er : EcmRequest) : EcmRequest :=
  if passes er then er else { er with rc := eInvalid }

def chkLength (er : EcmRequest) : EcmRequest :=
  if er.l > ecmLen er then { er with l := ecmLen er }
  else if er.l < ecmLen er then { er with rc := eCorrupt }
  else er

def keepOcaid (er : EcmRequest) : EcmRequest :=
  { er with ocaid := er.caid }

/-- The filters of `get_cw`.  The source takes the length from the ECM before
the loop; no filter changes the ECM. -/
def filterChecks (checks : Checks) : List (EcmRequest → EcmRequest) :=
  [keepOcaid,
    reject checks.sleeping (if checks.sleepsend then eStopped else eSleeping),
    unlessRejected (reject checks.dup eFake),
    unlessRejected (chkCaid checks),
    unlessRejected (chkService checks),
    unlessRejected (chkFilter checks.chkUfilters),
    unlessRejected (chkFilter checks.chkSfilter),
    unlessRejected chkLength]

/-- `convert_to_beta`. -/
def convertToBeta (er : EcmRequest) (caidto : Nat) : EcmRequest :=
  let l := er.ecmByte 2 + 3
  let body := (er.ecm.drop 3).take (l - 3)
  let header : List UInt8 :=
    if l > 0x88 then
      [0xc7, 0x00, 0x00, 0x00, 0x01, 0x10, 0x10, 0x00, 0x87,
        if er.ecmByte 0 = 0x81 then 0x13 else 0x12]
    else [0xc9, 0x00, 0x00, 0x00, 0x01, 0x10, 0x10, 0x00, 0x48, 0x12]
  let second : UInt8 := if l > 0x88 then 0x70 else er.ecm.getD 1 0
  { er with
    caid := caidto, prid := 0, btun := true, l := (l + 10 : Nat)
    ecm :=
      [er.ecm.getD 0 0, second, UInt8.ofNat (l + 7)] ++ header ++ body }

/-- `cs_betatunnel`: entries are caid, target caid and service. -/
def csBetatunnel (checks : Checks) (er : EcmRequest) : EcmRequest :=
  match checks.ttab.find? fun entry =>
      er.caid == entry.1 &&
        (er.srvid == entry.2.2 || entry.2.2 == 0xFFFF) with
  | some entry => convertToBeta er entry.2.1
  | none => er

/-- The digest, over the ECM without its header. -/
def setEcmd5 (checks : Checks) (er : EcmRequest) : EcmRequest :=
  let offset := if er.caid / 256 = 0x17 then 13 else 3
  { er with ecmd5 := checks.md5 ((er.ecm.take er.l.toNat).drop offset) }

/-- `ac_chk` on level 0. -/
def acChk (checks : Checks) (er : EcmRequest) : EcmRequest :=
  if checks.acDenied then { er with rc := eFake, rcEx := 0 } else er

/-- Everything `get_cw` does before it looks for readers. -/
def checkRequest (checks : Checks) : List (EcmRequest → EcmRequest) :=
  [inOrder (quickfixes checks), inOrder (accountChecks checks),
    unlessRejected (inOrder (filterChecks checks)),
    unlessRejected
      (inOrder [csBetatunnel checks, setEcmd5 checks, acChk checks])]

/-- `get_cw` kills the thread of a client that is banned. -/
def bansClient (checks : Checks) (er : EcmRequest) : Bool :=
  let checked :=
    inOrder (accountChecks checks) (inOrder (quickfixes checks) er)
  (checks.disabled && checks.banDisabled) ||
    (decide (eUnhandled ≤ checked.rc) && checks.sleeping && checks.banSleeping)

namespace Server

/-! ## The readers of a request -/

/-- `matching_reader`: the group test and the other filters. -/
def matchingReader (s : Server) (checks : Checks) (grp : Grp)
    (er : EcmRequest) (r : ReaderId) : Bool :=
  (s.readers r).grp &&& grp != 0 && checks.matching er r

/-- The reader loop of `get_cw`: fallback readers are appended, others
prepended. -/
def addReader (s : Server) (er : EcmRequest) (r : ReaderId) : EcmRequest :=
  if (s.readers r).fallback then
    { er with
      matchingRdr := er.matchingRdr ++ [r]
      fallback := er.fallback.or (some r) }
  else
    { er with
      matchingRdr := r :: er.matchingRdr
      readerAvail := er.readerAvail + 1 }

def collectReaders (s : Server) (checks : Checks) (grp : Grp)
    (er : EcmRequest) : EcmRequest :=
  s.activeReaders.foldl
    (fun er r =>
      if s.matchingReader checks grp er r then s.addReader er r else er)
    { er with readerAvail := 0 }

/-- `get_best_reader`: load balancing may choose among the readers. -/
def balanceReaders (checks : Checks) (er : EcmRequest) : EcmRequest :=
  match checks.bestReader er with
  | some (matching, fallback) =>
      { er with matchingRdr := matching, fallback := fallback }
  | none => er

def countReaders (er : EcmRequest) : EcmRequest :=
  { er with
    readerCount :=
      er.readerCount +
        (er.matchingRdr.takeWhile fun r => some r ≠ er.fallback).length }

/-- Without readers the request is not found; fallback readers alone are
asked as if they were none. -/
def settleReaders (er : EcmRequest) : EcmRequest :=
  if er.matchingRdr = [] then
    { er with
      rc := eNotfound
      rcEx := if er.rcEx = 0 then e2Group else er.rcEx
      msglog := "no matching reader" }
  else if er.matchingRdr.head? = er.fallback then
    { er with fallback := none, readerCount := er.readerAvail }
  else er

/-- The choice of readers for a request. -/
def selectReaders (s : Server) (checks : Checks) (grp : Grp)
    (er : EcmRequest) : EcmRequest :=
  settleReaders
    (countReaders (balanceReaders checks (s.collectReaders checks grp er)))

/-! ## `get_ecmtask` -/

/-- The slot `get_ecmtask` takes: the first free one of a client whose module
handles several requests, else slot 0. -/
def freeSlot (cl : Client) : Option Nat :=
  if cl.multi then cl.ecmtask.findIdx? (·.rc < e99) else some 0

/-- `get_ecmtask` allocates the table of a client at its first request. -/
def tableOf (cl : Client) : List EcmRequest :=
  if cl.ecmtask = [] then
    List.replicate (if cl.multi then csMaxpending else 1) EcmRequest.zero
  else cl.ecmtask

def newTask (s : Server) (c : ClientId) (i : Nat) : EcmRequest :=
  { EcmRequest.zero with
    rc := eUnhandled, cpti := i, client := some c, tps := Timeb.ofMs s.now }

/-- `get_ecmtask`. -/
def getEcmtask (s : Server) (c : ClientId) : Server × Option Nat :=
  let s := s.modifyClient c fun cl => { cl with ecmtask := tableOf cl }
  match freeSlot (s.clients c) with
  | none => (s, none)
  | some i =>
      ({ s.setSlot c i (s.newTask c i) with
          log := .allocated c i :: s.log },
        some i)

/-! ## `get_cw` -/

/-- What a module fills in. -/
def fillTask (asked : Asked) (er : EcmRequest) : EcmRequest :=
  { er with
    ecm := asked.ecm, l := asked.l, caid := asked.caid, srvid := asked.srvid
    chid := asked.chid, pid := asked.pid, prid := asked.prid
    rc :=
      match asked.preset with
      | .unhandled => er.rc
      | .corruptSilently | .corrupt => eCorrupt
      | .notfound => eNotfound
    rcEx := if asked.preset = .notfound then e2CccamNok1 else er.rcEx }

/-- `get_cw` from the cache test on. -/
def dispatch (cfg : Config) (s : Server) (c : ClientId) (er : EcmRequest) :
    Server :=
  if er.rc = e99 then s.setSlot c er.cpti er
  else if er.rc < eUnhandled then s.deliver c er.cpti er
  else
    let er := { er with rcEx := 0 }
    let types := if cfg.preferlocalcards then 1 else 0
    (s.setSlot c er.cpti (leveled er 0 types)).requestCw er 0 types

/-- The cache test of `get_cw`. -/
def askCache (cfg : Config) (s : Server) (c : ClientId) (er : EcmRequest) :
    EcmCache × EcmRequest :=
  if er.rc = eUnhandled then
    let result :=
      checkAndStoreEcmcache cfg.ctimeout s.now (s.clients c).grp s.cache er
    (result.1, { result.2.1 with rc := result.2.2 })
  else (s.cache, er)

/-- The client goes: its table and its pipe with it. -/
def csDisconnect (s : Server) (c : ClientId) : Server :=
  { s.modifyClient c fun cl => { cl with ecmtask := [], pipe := [] } with
    clientList := s.clientList.filter (· ≠ c) }

/-- `get_cw` for the request in slot `i`. -/
def getCw (cfg : Config) (checks : Checks) (s : Server) (c : ClientId)
    (er : EcmRequest) : Server :=
  if bansClient checks er then s.csDisconnect c
  else
    let er := inOrder (checkRequest checks) er
    let er :=
      if e99 ≤ er.rc then s.selectReaders checks (s.clients c).grp er else er
    let asked := s.askCache cfg c er
    dispatch cfg { s with cache := asked.1 } c asked.2

/-- A client sends a request: its module allocates a slot, fills it and calls
`get_cw`. -/
def request (cfg : Config) (checks : Checks) (s : Server) (c : ClientId)
    (asked : Asked) : Server :=
  match s.getEcmtask c with
  | (s, none) => s
  | (s, some i) =>
      let er := fillTask asked (s.newTask c i)
      if asked.preset = .corruptSilently then s.setSlot c i er
      else getCw cfg checks s c er

/-! ## `chk_pending` -/

/-- The end of waiting of a slot, before stage and fallback are looked at. -/
def slotDeadline (cfg : Config) (er : EcmRequest) : Timeb :=
  let tt := if er.stage = 0 then cfg.ftimeout else cfg.ctimeout
  { time := er.tps.time + (tt / 1000 : Nat)
    millitm := er.tps.millitm + (tt % 1000 : Nat) }

def addMs (time : Timeb) (ms : Nat) : Timeb :=
  { time := time.time + (ms / 1000 : Nat)
    millitm := time.millitm + (ms % 1000 : Nat) }

/-- `cfg.ctimeout - cfg.ftimeout`, an `uint32_t`. -/
def restTimeout (cfg : Config) : Nat :=
  (((cfg.ctimeout : Int) - cfg.ftimeout) % 2 ^ 32).toNat

/-- No primary reader that should be waited for is left. -/
def nothingAsked (cfg : Config) (s : Server) (er : EcmRequest) : Bool :=
  !(walkedReaders er 0).any fun r =>
    !cfg.preferlocalcards ||
      (!er.localsDone && !(s.readers r).isNetwork) ||
      (er.localsDone && (s.readers r).isNetwork)

/-- The early fallback of a slot in stage 0 whose readers have all missed:
the slot, the flag and the reader types of the new request, and the new
deadline. -/
def earlyFallback (cfg : Config) (s : Server) (er : EcmRequest) :
    EcmRequest × Nat × Nat × Timeb :=
  let deadline := slotDeadline cfg er
  let localsFirst := cfg.preferlocalcards && !er.localsDone
  let er := { er with localsDone := er.localsDone || localsFirst }
  if localsFirst && s.activeReaders.any fun r => (s.readers r).isNetwork then
    let elapsed :=
      1000 * ((Timeb.ofMs s.now).time - er.tps.time) +
        (Timeb.ofMs s.now).millitm - er.tps.millitm
    (er, er.stage, 2, addMs deadline elapsed.toNat)
  else
    let er := { er with localsDone := false, stage := er.stage + 1 }
    (er, er.stage, if cfg.preferlocalcards then 1 else 0,
      addMs deadline (restTimeout cfg))

/-- The slot asks its readers again. -/
def askAgain (s : Server) (c : ClientId) (i : Nat) (er : EcmRequest)
    (flag types : Nat) : Server :=
  (s.setSlot c i (leveled er flag types)).requestCw er flag types

/-- The early fallback, if it is due; the slot and its deadline afterwards. -/
def retry (cfg : Config) (s : Server) (c : ClientId) (i : Nat)
    (er : EcmRequest) : Server × EcmRequest × Timeb :=
  if er.stage = 0 ∧ eUnhandled ≤ er.rc ∧ s.nothingAsked cfg er then
    let fallback := s.earlyFallback cfg er
    (s.askAgain c i fallback.1 fallback.2.1 fallback.2.2.1,
      leveled fallback.1 fallback.2.1 fallback.2.2.1, fallback.2.2.2)
  else (s, er, slotDeadline cfg er)

/-- The time-out of a slot that has asked all its readers. -/
def timeOut (s : Server) (c : ClientId) (i : Nat) (er : EcmRequest) :
    Server :=
  let er := { er with rc := eTimeout, rcEx := 0 }
  { s with
    cache :=
      storeCwInCache s.now (s.clients c).grp eTimeout er s.cache }.deliver
    c i er

/-- What `chk_pending` does with a slot whose deadline has come: a time-out,
or the fallback readers are asked. -/
def expire (s : Server) (c : ClientId) (i : Nat) (er : EcmRequest) : Server :=
  if er.stage ≠ 0 then s.timeOut c i er
  else
    let er := { er with stage := er.stage + 1 }
    if eUnhandled ≤ er.rc then s.askAgain c i er er.stage 0
    else s.setSlot c i er

/-- A slot that the cache does not answer. -/
def keepWaiting (cfg : Config) (s : Server) (c : ClientId) (i : Nat)
    (er : EcmRequest) : Server :=
  let retried := s.retry cfg c i er
  if compTimeb (Timeb.ofMs s.now) retried.2.2 > 0 then
    retried.1.expire c i retried.2.1
  else retried.1

/-- The loop body of `chk_pending`. -/
def chkPendingSlot (cfg : Config) (c : ClientId) (s : Server) (i : Nat) :
    Server :=
  match (s.clients c).ecmtask[i]? with
  | none => s
  | some er =>
      if er.rc < e99 then s
      else
        let lookup :=
          checkCwcache2 cfg.ctimeout s.now (s.clients c).grp s.cache er
        let s := { s with cache := lookup.1 }
        match lookup.2 with
        | some er => s.deliver c i { er with rc := eCache2 }
        | none => s.keepWaiting cfg c i er

/-- `chk_pending`: all slots, from the last to the first. -/
def chkPending (cfg : Config) (s : Server) (c : ClientId) : Server :=
  (List.range (s.clients c).ecmtask.length).reverse.foldl
    (chkPendingSlot cfg c) s

end Server

/-! ## What the checks leave alone -/

/-- A request on its way through `get_cw`: it knows its slot and its client,
belongs to no cache entry yet, and is either unhandled or rejected. -/
structure Prepared (c : ClientId) (i : Nat) (er : EcmRequest) : Prop where
  cpti : er.cpti = i
  client : er.client = some c
  ecmcacheptr : er.ecmcacheptr = none
  rc : er.rc = eUnhandled ∨ eNotfound ≤ er.rc ∧ er.rc < e99

namespace Prepared

variable {c : ClientId} {i : Nat} {er : EcmRequest} {checks : Checks}

/-- A rejection keeps the rest. -/
theorem rejected {next : EcmRequest} (rc : Int)
    (rejecting : eNotfound ≤ rc ∧ rc < e99)
    (prepared : Prepared c i er) (cpti : next.cpti = er.cpti)
    (client : next.client = er.client)
    (ecmcacheptr : next.ecmcacheptr = er.ecmcacheptr)
    (set : next.rc = rc) : Prepared c i next :=
  ⟨cpti.trans prepared.cpti, client.trans prepared.client,
    ecmcacheptr.trans prepared.ecmcacheptr, .inr (set ▸ rejecting)⟩

/-- A change of other fields keeps all. -/
theorem changed {next : EcmRequest} (prepared : Prepared c i er)
    (cpti : next.cpti = er.cpti) (client : next.client = er.client)
    (ecmcacheptr : next.ecmcacheptr = er.ecmcacheptr) (rc : next.rc = er.rc) :
    Prepared c i next :=
  ⟨cpti.trans prepared.cpti, client.trans prepared.client,
    ecmcacheptr.trans prepared.ecmcacheptr, rc ▸ prepared.rc⟩

theorem inOrder {steps : List (EcmRequest → EcmRequest)}
    (each : ∀ step ∈ steps, ∀ er, Prepared c i er → Prepared c i (step er))
    (prepared : Prepared c i er) : Prepared c i (inOrder steps er) := by
  induction steps generalizing er with
  | nil => exact prepared
  | cons step steps induction =>
      exact induction
        (fun later member => each later (List.mem_cons_of_mem step member))
        (each step List.mem_cons_self er prepared)

theorem reject {rejects : Bool} {rc : Int}
    (rejecting : eNotfound ≤ rc ∧ rc < e99) (prepared : Prepared c i er) :
    Prepared c i (reject rejects rc er) := by
  unfold Oscam.reject
  split
  · exact rejected rc rejecting prepared rfl rfl rfl rfl
  · exact prepared

theorem quickfixes (prepared : Prepared c i er) :
    Prepared c i (Oscam.inOrder (quickfixes checks) er) := by
  refine prepared.inOrder ?_
  simp only [Oscam.quickfixes, List.forall_mem_cons, List.not_mem_nil,
    false_implies, implies_true, and_true]
  refine ⟨?_, ?_, ?_, ?_, ?_, ?_, ?_, ?_⟩
  all_goals
    intro er prepared
    simp only [guessCaid, fixIrdetoChid, fixSecaSrvid, fixViaccessPrid,
      fixBetacryptCaid, fixNagraPrid, fillPrid, fillNcdPrid]
    split
    · exact prepared.changed rfl rfl rfl rfl
    · exact prepared

theorem accountChecks (prepared : Prepared c i er) :
    Prepared c i (Oscam.inOrder (accountChecks checks) er) := by
  refine prepared.inOrder ?_
  simp only [Oscam.accountChecks, List.forall_mem_cons, List.not_mem_nil,
    false_implies, implies_true, and_true]
  refine ⟨?_, fun er => reject (by decide), fun er => reject (by decide),
    fun er => reject (by decide)⟩
  intro er prepared
  unfold chkSupported
  split
  · exact rejected eInvalid (by decide) prepared rfl rfl rfl rfl
  · exact prepared

theorem unlessRejected {check : EcmRequest → EcmRequest}
    (checked : ∀ er, Prepared c i er → Prepared c i (check er))
    (prepared : Prepared c i er) :
    Prepared c i (unlessRejected check er) := by
  unfold Oscam.unlessRejected
  split
  · exact checked er prepared
  · exact prepared

theorem filterChecks (prepared : Prepared c i er) :
    Prepared c i (Oscam.inOrder (filterChecks checks) er) := by
  refine prepared.inOrder ?_
  simp only [Oscam.filterChecks, List.forall_mem_cons, List.not_mem_nil,
    false_implies, implies_true, and_true]
  refine ⟨?_, ?_, ?_, ?_, ?_, ?_, ?_, ?_⟩
  · exact fun er prepared => prepared.changed rfl rfl rfl rfl
  · exact fun er => reject (by split <;> decide)
  · exact fun er => unlessRejected fun er => reject (by decide)
  · refine fun er => unlessRejected fun er prepared => ?_
    unfold chkCaid
    split
    · exact prepared.changed rfl rfl rfl rfl
    · exact rejected eInvalid (by decide) prepared rfl rfl rfl rfl
  · refine fun er => unlessRejected fun er prepared => ?_
    unfold chkService
    split
    · exact prepared
    · exact rejected eInvalid (by decide) prepared rfl rfl rfl rfl
  · refine fun er => unlessRejected fun er prepared => ?_
    unfold chkFilter
    split
    · exact prepared
    · exact rejected eInvalid (by decide) prepared rfl rfl rfl rfl
  · refine fun er => unlessRejected fun er prepared => ?_
    unfold chkFilter
    split
    · exact prepared
    · exact rejected eInvalid (by decide) prepared rfl rfl rfl rfl
  · refine fun er => unlessRejected fun er prepared => ?_
    unfold chkLength
    split
    · exact prepared.changed rfl rfl rfl rfl
    · split
      · exact rejected eCorrupt (by decide) prepared rfl rfl rfl rfl
      · exact prepared

theorem identify (prepared : Prepared c i er) :
    Prepared c i
      (Oscam.inOrder [csBetatunnel checks, setEcmd5 checks, acChk checks]
        er) := by
  refine prepared.inOrder ?_
  simp only [List.forall_mem_cons, List.not_mem_nil, false_implies,
    implies_true, and_true]
  refine ⟨?_, ?_, ?_⟩
  · intro er prepared
    unfold csBetatunnel
    split
    · exact prepared.changed rfl rfl rfl rfl
    · exact prepared
  · exact fun er prepared => prepared.changed rfl rfl rfl rfl
  · intro er prepared
    unfold acChk
    split
    · exact rejected eFake (by decide) prepared rfl rfl rfl rfl
    · exact prepared

theorem checkRequest (prepared : Prepared c i er) :
    Prepared c i (Oscam.inOrder (checkRequest checks) er) := by
  refine prepared.inOrder ?_
  simp only [Oscam.checkRequest, List.forall_mem_cons, List.not_mem_nil,
    false_implies, implies_true, and_true]
  exact ⟨fun er => quickfixes, fun er => accountChecks,
    fun er => unlessRejected fun er => filterChecks,
    fun er => unlessRejected fun er => identify⟩

theorem addReader {s : Server} {r : ReaderId} (prepared : Prepared c i er) :
    Prepared c i (s.addReader er r) := by
  unfold Server.addReader
  split <;> exact prepared.changed rfl rfl rfl rfl

theorem collectReaders {s : Server} {grp : Grp}
    (prepared : Prepared c i er) :
    Prepared c i (s.collectReaders checks grp er) := by
  have each : ∀ (readers : List ReaderId) (er : EcmRequest),
      Prepared c i er → Prepared c i (readers.foldl
        (fun er r =>
          if s.matchingReader checks grp er r then s.addReader er r else er)
        er) := by
    intro readers
    induction readers with
    | nil => exact fun er prepared => prepared
    | cons r readers induction =>
        intro er prepared
        rw [List.foldl_cons]
        refine induction _ ?_
        split
        · exact prepared.addReader
        · exact prepared
  exact each _ _ (prepared.changed rfl rfl rfl rfl)

theorem settleReaders (prepared : Prepared c i er) :
    Prepared c i (Server.settleReaders er) := by
  unfold Server.settleReaders
  split
  · exact rejected eNotfound (by decide) prepared rfl rfl rfl rfl
  · split
    · exact prepared.changed rfl rfl rfl rfl
    · exact prepared

theorem selectReaders {s : Server} {grp : Grp}
    (prepared : Prepared c i er) :
    Prepared c i (s.selectReaders checks grp er) := by
  have collected : Prepared c i (s.collectReaders checks grp er) :=
    prepared.collectReaders
  have balanced : Prepared c i (Server.balanceReaders checks
      (s.collectReaders checks grp er)) := by
    unfold Server.balanceReaders
    split
    · exact collected.changed rfl rfl rfl rfl
    · exact collected
  exact settleReaders (balanced.changed rfl rfl rfl rfl)

end Prepared

/-! ## What waiting changes in a slot -/

/-- The slot afterwards: only its stage, its level and whether local cards
were asked may differ. -/
def SameTask (er next : EcmRequest) : Prop :=
  next =
    { er with
      stage := next.stage, level := next.level
      localsDone := next.localsDone }

theorem sameTask_refl (er : EcmRequest) : SameTask er er := rfl

theorem SameTask.trans {er next later : EcmRequest} (first : SameTask er next)
    (second : SameTask next later) : SameTask er later := by
  unfold SameTask at first second ⊢
  rw [first] at second
  exact second

theorem Server.sameTask_leveled (er : EcmRequest) (flag types : Nat) :
    SameTask er (Server.leveled er flag types) := by
  unfold Server.leveled
  split <;> rfl

theorem Server.sameTask_earlyFallback (cfg : Config) (s : Server)
    (er : EcmRequest) : SameTask er (s.earlyFallback cfg er).1 := by
  unfold Server.earlyFallback
  dsimp only
  split <;> rfl

/-! ## The ways out of a request -/

namespace Server

variable {cfg : Config} {checks : Checks} {s : Server} {c : ClientId}

theorem newTask_prepared {asked : Asked} {i : Nat} :
    Prepared c i (fillTask asked (s.newTask c i)) := by
  refine ⟨rfl, rfl, rfl, ?_⟩
  cases preset : asked.preset with
  | unhandled => simp [fillTask, newTask, preset]
  | corruptSilently | corrupt | notfound =>
      right
      simp only [fillTask, preset]
      decide

/-- The table is there. -/
def withTable (s : Server) (c : ClientId) : Server :=
  s.modifyClient c fun cl => { cl with ecmtask := tableOf cl }

/-- Slot `i` is allocated. -/
def withTask (s : Server) (c : ClientId) (i : Nat) : Server :=
  { (s.withTable c).setSlot c i (s.newTask c i) with
    log := .allocated c i :: s.log }

/-- What a request does: the table is full, the slot is rejected by the
module, the client is banned, or the prepared request goes to the cache test
and on. -/
theorem request_cases (cfg : Config) (checks : Checks) (s : Server)
    (c : ClientId) (asked : Asked) :
    (freeSlot ((s.withTable c).clients c) = none ∧
        s.request cfg checks c asked = s.withTable c) ∨
      ∃ i, freeSlot ((s.withTable c).clients c) = some i ∧
        ((asked.preset = .corruptSilently ∧ ∃ er : EcmRequest,
            er.rc = eCorrupt ∧
            s.request cfg checks c asked = (s.withTask c i).setSlot c i er) ∨
          (asked.preset ≠ .corruptSilently ∧
            bansClient checks (fillTask asked (s.newTask c i)) = true ∧
            s.request cfg checks c asked =
              (s.withTask c i).csDisconnect c) ∨
          bansClient checks (fillTask asked (s.newTask c i)) = false ∧
          ∃ er, Prepared c i er ∧
            s.request cfg checks c asked =
              dispatch cfg
                { s.withTask c i with
                  cache := ((s.withTask c i).askCache cfg c er).1 }
                c ((s.withTask c i).askCache cfg c er).2) := by
  cases free : freeSlot ((s.withTable c).clients c) with
  | none =>
      left
      refine ⟨rfl, ?_⟩
      simp only [withTable] at free
      simp only [request, getEcmtask, free]
      rfl
  | some i =>
      right
      refine ⟨i, rfl, ?_⟩
      have allocated : s.getEcmtask c = (s.withTask c i, some i) := by
        simp only [withTable] at free
        simp only [getEcmtask, free]
        rfl
      simp only [request, allocated]
      have stable : (s.withTask c i).newTask c i = s.newTask c i := rfl
      rw [stable]
      by_cases silent : asked.preset = .corruptSilently
      · left
        refine ⟨silent, _, ?_, if_pos silent⟩
        simp [fillTask, silent]
      · right
        rw [if_neg silent]
        by_cases banned : bansClient checks (fillTask asked (s.newTask c i))
        · exact .inl ⟨silent, banned, by simp [getCw, banned]⟩
        · right
          refine ⟨by simpa using banned, ?_⟩
          have prepared : Prepared c i (inOrder (checkRequest checks)
              (fillTask asked (s.newTask c i))) :=
            newTask_prepared.checkRequest
          by_cases unhandled : e99 ≤ (inOrder (checkRequest checks)
              (fillTask asked (s.newTask c i))).rc
          · exact ⟨_, prepared.selectReaders, by
              simp only [getCw, banned, if_pos unhandled]; rfl⟩
          · exact ⟨_, prepared, by
              simp only [getCw, banned, if_neg unhandled]; rfl⟩

end Server

end Oscam
