import Oscam.Ecm.Dispatch

/-!
# Requests at the readers

`reader_get_ecm`, `casc_process_ecm` and `casc_check_dcw` of
`oscam-reader.c`, and the answers that the modules of network readers write
themselves.  What a card or a server answers, and when, is part of the input.
-/

namespace Oscam

/-- What a local card makes of a request. -/
structure LocalOutcome where
  ok : Bool
  cw : Cw
  rcEx : Nat
  msglog : String
  deriving DecidableEq, Repr

/-- How a reader deals with the next request in its pipe: the mapped caid,
whether the rate limit drops it, what the card says and whether sending it to
the server fails. -/
structure Handling where
  chkBcaid : EcmRequest → Option Nat
  ratelimited : Bool
  outcome : LocalOutcome
  sendFails : Bool

/-- Tasks of a reader with at least this return code are pending. -/
abbrev taskPending : Int := 10

/-- The drop of timed-out tasks in `casc_check_dcw` and `casc_process_ecm`. -/
def dropTimeout (cfg : Config) (now : Nat) (er : EcmRequest) : EcmRequest :=
  if taskPending ≤ er.rc ∧
      (Timeb.ofMs now).time - er.tps.time >
        ((cfg.ctimeout + 500) / 1000 : Nat) + 1 then
    { er with rc := 0 }
  else er

/-- A pending task of the same ECM. -/
def sameTask (er task : EcmRequest) : Bool :=
  taskPending ≤ task.rc && task.caid == er.caid && task.ecmd5 == er.ecmd5

/-- What `casc_check_dcw` writes into task `i` when the server has answered
task `idx`. -/
def cascAnswered (i idx : Nat) (rc : Int) (cw : Cw) (er : EcmRequest) :
    EcmRequest :=
  if rc ≠ 0 then { er with rc := if i = idx then 1 else 2, cw := cw }
  else { er with rc := 0 }

namespace Server

/-- An answer that a reader gives of its own. -/
def answerTask (s : Server) (r : ReaderId) (er : EcmRequest) : Server :=
  (s.recordAnswer r er).writeEcmAnswer r er

/-- The loop body of `casc_check_dcw`. -/
def cascCheckSlot (cfg : Config) (r : ReaderId) (idx : Nat) (rc : Int)
    (cw : Cw) (s : Server) (i : Nat) : Server :=
  match (s.readers r).ecmtask[i]?, (s.readers r).ecmtask[idx]? with
  | some ecm, some asked =>
      if sameTask asked ecm then
        let er := cascAnswered i idx rc cw ecm
        (s.answerTask r er).setTask r i
          (dropTimeout cfg s.now (answerOf r (s.readers r) er))
      else s.setTask r i (dropTimeout cfg s.now ecm)
  | _, _ => s

/-- `casc_check_dcw`: the answer for task `idx` is an answer for every pending
task of the same ECM. -/
def cascCheckDcw (cfg : Config) (r : ReaderId) (idx : Nat) (rc : Int)
    (cw : Cw) (s : Server) : Server :=
  (List.range csMaxpending).foldl (cascCheckSlot cfg r idx rc cw) s

/-- The table as the loop of `casc_process_ecm` leaves it. -/
def freshTasks (cfg : Config) (s : Server) (r : ReaderId) : List EcmRequest :=
  (s.readers r).ecmtask.map (dropTimeout cfg s.now)

/-- `casc_process_ecm`: the request becomes a pending task and is sent to the
server, unless the same ECM is pending at this level. -/
def cascProcessEcm (cfg : Config) (handling : Handling) (s : Server)
    (r : ReaderId) (er : EcmRequest) : Server :=
  let tasks := s.freshTasks cfg r
  let s := s.modifyReader r fun rdr => { rdr with ecmtask := tasks }
  match tasks.findIdx? (·.rc < taskPending) with
  | none => s
  | some n =>
      let s := s.setTask r n { er with matchingRdr := [], rc := taskPending }
      let sflag := !tasks.any fun task =>
        sameTask er task && er.level ≤ task.level
      if sflag ∧ handling.sendFails then s.cascCheckDcw cfg r n 0 er.cw else s

/-- The answer of a local card. -/
def localAnswer (handling : Handling) (er : EcmRequest) : EcmRequest :=
  if handling.ratelimited then
    { er with
      rcEx := 32, rc := eRdrNotfound, cw := Cw.zero
      msglog := "ECMratelimit no space for srvid" }
  else
    { er with
      rc := if handling.outcome.ok then eRdrFound else eRdrNotfound
      cw := handling.outcome.cw, rcEx := handling.outcome.rcEx
      msglog := handling.outcome.msglog }

/-- `reader_get_ecm`.  A request that is answered already goes to the client
of the reader itself, which has no request table of its own. -/
def readerGetEcm (cfg : Config) (handling : Handling) (s : Server)
    (r : ReaderId) (er : EcmRequest) : Server :=
  if er.rc ≤ eStopped then s
  else
    let er := { er with ocaid := er.caid }
    match handling.chkBcaid er with
    | none =>
        s.writeEcmAnswer r { er with rcEx := e2Caid, rc := eRdrNotfound }
    | some caid =>
        let er := { er with caid := caid }
        let lookup :=
          checkCwcache2 cfg.ctimeout s.now (s.readers r).grp s.cache er
        let s := { s with cache := lookup.1 }
        match lookup.2 with
        | some er => s.writeEcmAnswer r { er with rc := eCache2 }
        | none =>
            if (s.readers r).isCascading then
              s.cascProcessEcm cfg handling r er
            else s.answerTask r (localAnswer handling er)

/-- A module answers task `i` by itself: without a control word it sets
`E_RDR_NOTFOUND`; the constant control word reader leaves the return code of
the pending task. -/
def directAnswer (s : Server) (r : ReaderId) (i : Nat) (rcEx : Nat)
    (cw : Option Cw) : Server :=
  match (s.readers r).ecmtask[i]? with
  | none => s
  | some task =>
      if task.rc < taskPending then s
      else
        let er :=
          match cw with
          | none => { task with rc := eRdrNotfound, rcEx := rcEx }
          | some cw => { task with cw := cw }
        (s.writeEcmAnswer r er).setTask r i (answerOf r (s.readers r) er)

/-- A module gives up task `i`. -/
def dropTask (s : Server) (r : ReaderId) (i : Nat) : Server :=
  match (s.readers r).ecmtask[i]? with
  | none => s
  | some task => s.setTask r i { task with rc := 0 }

end Server

/-! ## The system -/

/-- What happens next in the server.  `pending` is one slot of the loop of
`chk_pending`, and `cascCheck` one task of the loop of `casc_check_dcw`; other
threads may run between two turns of these loops. -/
inductive Event where
  | advance (ms : Nat)
  | connect (c : ClientId) (multi : Bool) (grp : Grp)
  | disconnect (c : ClientId)
  | request (c : ClientId) (checks : Checks) (asked : Asked)
  | takePipe (c : ClientId)
  | pending (c : ClientId) (i : Nat)
  | readerTakePipe (r : ReaderId) (handling : Handling)
  | cascCheck (r : ReaderId) (idx : Nat) (rc : Int) (cw : Cw) (i : Nat)
  | direct (r : ReaderId) (i : Nat) (rcEx : Nat) (cw : Option Cw)
  | dropTask (r : ReaderId) (i : Nat)

namespace Server

/-- Taking the oldest message out of the pipe of a client. -/
def popClient (s : Server) (c : ClientId) : Server :=
  s.modifyClient c fun cl => { cl with pipe := cl.pipe.tail }

def popReader (s : Server) (r : ReaderId) : Server :=
  s.modifyReader r fun rdr => { rdr with pipe := rdr.pipe.tail }

/-- A client logs in: it has no table yet and an empty pipe. -/
def csConnect (s : Server) (c : ClientId) (multi : Bool) (grp : Grp) :
    Server :=
  { s.modifyClient c fun _ =>
      { multi := multi, grp := grp, ecmtask := [], pipe := [] } with
    clientList := s.clientList ++ [c] }

/-- One step.  Only clients in the list run. -/
def step (cfg : Config) (s : Server) : Event → Server
  | .advance ms => { s with now := s.now + ms }
  | .connect c multi grp =>
      if c ∈ s.clientList then s else s.csConnect c multi grp
  | .disconnect c => s.csDisconnect c
  | .request c checks asked =>
      if c ∈ s.clientList then s.request cfg checks c asked else s
  | .takePipe c =>
      match (s.clients c).pipe with
      | [] => s
      | er :: _ => (s.popClient c).chkDcw c er
  | .pending c i => chkPendingSlot cfg c s i
  | .readerTakePipe r handling =>
      match (s.readers r).pipe with
      | [] => s
      | er :: _ => (s.popReader r).readerGetEcm cfg handling r er
  | .cascCheck r idx rc cw i => cascCheckSlot cfg r idx rc cw s i
  | .direct r i rcEx cw => s.directAnswer r i rcEx cw
  | .dropTask r i => s.dropTask r i

/-- The server at its start: nobody is there and nothing was asked. -/
structure Started (s : Server) : Prop where
  clientList : s.clientList = []
  clients : ∀ c, (s.clients c).ecmtask = [] ∧ (s.clients c).pipe = []
  readers : ∀ r, (s.readers r).pipe = [] ∧
    ∀ task ∈ (s.readers r).ecmtask, task = EcmRequest.zero
  cache : s.cache = EcmCache.empty
  answers : s.answers = []
  log : s.log = []

/-- A network reader at its start. -/
def networkReader (grp : Grp) (dropbadcws : Bool) : Reader :=
  { grp := grp, dropbadcws := dropbadcws, isNetwork := true
    isCascading := true, fallback := false
    ecmtask := List.replicate csMaxpending EcmRequest.zero, pipe := [] }

/-- A server at its start, with one reader. -/
def withReader (rdr : Reader) (now : Nat) : Server :=
  { clientList := []
    clients := fun _ => { multi := true, grp := 0, ecmtask := [], pipe := [] }
    activeReaders := [0], readers := fun _ => rdr, cache := EcmCache.empty
    now := now, answers := [], log := [] }

theorem started_withReader (grp : Grp) (dropbadcws : Bool) (now : Nat) :
    Started (withReader (networkReader grp dropbadcws) now) :=
  { clientList := rfl
    clients := fun _ => ⟨rfl, rfl⟩
    readers := fun _ => ⟨rfl, fun _ member => List.eq_of_mem_replicate member⟩
    cache := rfl
    answers := rfl
    log := rfl }

/-- A whole call of `chk_pending` is a run. -/
theorem chkPending_eq_run (cfg : Config) (s : Server) (c : ClientId) :
    s.chkPending cfg c =
      (((List.range (s.clients c).ecmtask.length).reverse.map
        (Event.pending c)).foldl (step cfg) s) := by
  rw [List.foldl_map]
  rfl

/-- A whole call of `casc_check_dcw` is a run. -/
theorem cascCheckDcw_eq_run (cfg : Config) (s : Server) (r : ReaderId)
    (idx : Nat) (rc : Int) (cw : Cw) :
    s.cascCheckDcw cfg r idx rc cw =
      ((List.range csMaxpending).map (Event.cascCheck r idx rc cw)).foldl
        (step cfg) s := by
  rw [List.foldl_map]
  rfl

end Server

end Oscam
