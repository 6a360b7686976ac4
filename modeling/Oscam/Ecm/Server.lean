import Mathlib.Logic.Function.Basic
import Oscam.Ecm.Cache

/-!
# Clients, readers and the answers between them

The part of `oscam.c` through which answers travel: the pipes, the
distribution of answers, `write_ecm_answer`, `send_dcw`, `chk_dcw` and
`request_cw`.  A pipe carries the requests written to it in their order.  Two
histories are kept beside the state of the program: what the readers answered,
and which slots were allocated and answered.
-/

namespace Oscam

/-- A client: its `multi` module, its groups, the request table (empty when
`ecmtask` is `NULL`) and the requests waiting in its pipe. -/
structure Client where
  multi : Bool
  grp : Grp
  ecmtask : List EcmRequest
  pipe : List EcmRequest
  deriving DecidableEq, Repr

/-- A reader with the pipe and the request table of its client. -/
structure Reader where
  grp : Grp
  dropbadcws : Bool
  isNetwork : Bool
  isCascading : Bool
  fallback : Bool
  ecmtask : List EcmRequest
  pipe : List EcmRequest
  deriving DecidableEq, Repr

/-- The settings the ECM path reads; the time-outs are in milliseconds. -/
structure Config where
  ctimeout : Nat
  ftimeout : Nat
  preferlocalcards : Bool
  deriving DecidableEq, Repr

/-- A reader answered `E_RDR_FOUND`: the control word is the one that
`write_ecm_answer` hands on. -/
structure Answer where
  reader : ReaderId
  ecmd5 : Digest
  cw : Cw
  deriving DecidableEq, Repr

/-- `send_dcw` was called for a slot with this return code. -/
structure Delivery where
  client : ClientId
  cpti : Nat
  rc : Int
  ecmd5 : Digest
  cw : Cw
  deriving DecidableEq, Repr

inductive LogEntry where
  | allocated (client : ClientId) (cpti : Nat)
  | delivered (delivery : Delivery)
  deriving DecidableEq, Repr

/-- `clientList` is the chain of clients behind `first_client`, and
`activeReaders` the chain of active readers. -/
structure Server where
  clientList : List ClientId
  clients : ClientId → Client
  activeReaders : List ReaderId
  readers : ReaderId → Reader
  cache : EcmCache
  now : Nat
  answers : List Answer
  log : List LogEntry

namespace Server

/-! ## Updates -/

def modifyClient (s : Server) (c : ClientId) (f : Client → Client) : Server :=
  { s with clients := Function.update s.clients c (f (s.clients c)) }

def modifyReader (s : Server) (r : ReaderId) (f : Reader → Reader) : Server :=
  { s with readers := Function.update s.readers r (f (s.readers r)) }

def setSlot (s : Server) (c : ClientId) (i : Nat) (er : EcmRequest) :
    Server :=
  s.modifyClient c fun cl => { cl with ecmtask := cl.ecmtask.set i er }

def slotOf (s : Server) (c : ClientId) (i : Nat) : Option EcmRequest :=
  (s.clients c).ecmtask[i]?

def setTask (s : Server) (r : ReaderId) (i : Nat) (er : EcmRequest) :
    Server :=
  s.modifyReader r fun rdr => { rdr with ecmtask := rdr.ecmtask.set i er }

end Server

/-! ## Pipes -/

/-- A pipe holds at most 64 messages; what does not fit is dropped. -/
abbrev pipeMax : Nat := 64

def Client.write (cl : Client) (er : EcmRequest) : Client :=
  if cl.pipe.length < pipeMax then { cl with pipe := cl.pipe ++ [er] } else cl

def Reader.write (rdr : Reader) (er : EcmRequest) : Reader :=
  if rdr.pipe.length < pipeMax then { rdr with pipe := rdr.pipe ++ [er] }
  else rdr

/-- `write_to_pipe` for a client: nothing is written to one that is gone. -/
def Server.writeToPipe (s : Server) (c : ClientId) (er : EcmRequest) :
    Server :=
  if c ∈ s.clientList then s.modifyClient c (·.write er) else s

/-! ## Distribution -/

/-- A slot that `distribute_ecm` writes an answer for. -/
def receives (er slot : EcmRequest) : Bool :=
  e99 ≤ slot.rc && slot.ecmcacheptr == er.ecmcacheptr

/-- The part of `distribute_ecm` for one client. -/
def Client.distribute (cl : Client) (er : EcmRequest) (grp : Grp) : Client :=
  if cl.ecmtask ≠ [] ∧ cl.grp &&& grp ≠ 0 then
    cl.ecmtask.foldl
      (fun cl slot =>
        if receives er slot then cl.write { er with cpti := slot.cpti } else cl)
      cl
  else cl

/-- `distribute_ecm`. -/
def Server.distributeEcm (s : Server) (er : EcmRequest) (grp : Grp)
    (rc : Int) : Server :=
  { s with
    clients := fun c =>
      if c ∈ s.clientList then
        (s.clients c).distribute { er with rc := rc } grp
      else s.clients c }

/-! ## Answers of the readers -/

/-- The checksum loop of `write_ecm_answer`. -/
def checkChecksum (dropbadcws : Bool) (er : EcmRequest) : EcmRequest :=
  if er.cw.ChecksumOk then er
  else if dropbadcws then
    { er with rc := eRdrNotfound, rcEx := e2WrongChksum }
  else { er with cw := er.cw.fixed }

/-- The answer `write_ecm_answer` makes of a request. -/
def answerOf (r : ReaderId) (rdr : Reader) (er : EcmRequest) : EcmRequest :=
  { checkChecksum rdr.dropbadcws er with
    selectedReader := some r, caid := er.ocaid }

namespace Server

/-- `write_ecm_answer`: a found answer is stored in the cache, and the client
that asked gets the answer. -/
def writeEcmAnswer (s : Server) (r : ReaderId) (er : EcmRequest) : Server :=
  let answer := answerOf r (s.readers r) er
  let stored :=
    { s with
      cache :=
        if answer.rc = eRdrFound then
          storeCwInCache s.now (s.readers r).grp eFound answer s.cache
        else s.cache }
  match answer.client with
  | none => stored
  | some c => stored.writeToPipe c answer

/-- The history of what a reader says of its own, not out of the cache. -/
def recordAnswer (s : Server) (r : ReaderId) (er : EcmRequest) : Server :=
  let answer := answerOf r (s.readers r) er
  { s with
    answers :=
      if eRdrFound ≤ answer.rc then
        { reader := r, ecmd5 := answer.ecmd5, cw := answer.cw } :: s.answers
      else s.answers }

end Server

/-! ## Answers to the clients -/

/-- `checkCW`: a control word of zeros is taken as not found. -/
def checkCW (er : EcmRequest) : EcmRequest :=
  if er.cw = Cw.zero then { er with rc := eNotfound } else er

/-- What `send_dcw` leaves in the request.  The return code `E_FAKE` is only
hidden from the module while the answer is sent. -/
def sendDcw (er : EcmRequest) : EcmRequest :=
  let er :=
    if er.rc = eFound ∨ er.rc = eCache1 ∨ er.rc = eCache2 then checkCW er
    else er
  let er := if er.rc < eNotfound then { er with rcEx := 0 } else er
  { er with caid := er.ocaid }

/-- The return code the module of the client sees. -/
def shownRc (er : EcmRequest) : Int :=
  if (sendDcw er).rc = eFake then eFound else (sendDcw er).rc

namespace Server

/-- `send_dcw` for slot `i` of a client. -/
def deliver (s : Server) (c : ClientId) (i : Nat) (er : EcmRequest) :
    Server :=
  { s.setSlot c i (sendDcw er) with
    log :=
      .delivered
        { client := c, cpti := i, rc := er.rc, ecmd5 := er.ecmd5
          cw := er.cw } :: s.log }

/-- `er->selected_reader->grp`. -/
def readerGrp (s : Server) (reader : Option ReaderId) : Grp :=
  reader.elim 0 fun r => (s.readers r).grp

/-- The end of `chk_dcw` for a slot that is now answered: the answer that was
taken from the pipe is passed on to the other clients. -/
def complete (s : Server) (c : ClientId) (er ert : EcmRequest) : Server :=
  (s.deliver c er.cpti ert).distributeEcm er (s.readerGrp ert.selectedReader)
    (if (sendDcw ert).rc < eNotfound then eCache2 else (sendDcw ert).rc)

end Server

/-- The answer is not for the request that the slot holds now. -/
def obsolete (er ert : EcmRequest) : Bool :=
  (er.caid != ert.caid && er.ocaid != ert.ocaid) || er.ecmd5 != ert.ecmd5

/-- The slot with a found answer. -/
def foundSlot (er ert : EcmRequest) : EcmRequest :=
  { ert with
    selectedReader := er.selectedReader
    rc := if er.rc = eCache2 ∨ er.rc = eEmu then er.rc else eFound
    rcEx := 0
    cw := er.cw }

/-- The slot after a not-found answer of one reader. -/
def missedSlot (er ert : EcmRequest) : EcmRequest :=
  { ert with
    selectedReader := er.selectedReader
    rcEx := er.rcEx
    msglog := er.msglog
    matchingRdr :=
      ert.matchingRdr.filter fun r => some r ≠ er.selectedReader }

namespace Server

/-- `chk_dcw`: a client takes an answer from its pipe. -/
def chkDcw (s : Server) (c : ClientId) (er : EcmRequest) : Server :=
  match (s.clients c).ecmtask[er.cpti]? with
  | none => s
  | some ert =>
      if ert.rc < e99 then s
      else if obsolete er ert then s
      else if eRdrFound ≤ er.rc then s.complete c er (foundSlot er ert)
      else if (missedSlot er ert).matchingRdr ≠ [] then
        s.setSlot c er.cpti { missedSlot er ert with selectedReader := none }
      else
        let ert := { missedSlot er ert with rc := eNotfound }
        { s with
          cache :=
            storeCwInCache s.now (s.readerGrp er.selectedReader) eNotfound
              ert s.cache }.complete c er ert

/-! ## Requests to the readers -/

/-- The readers that `request_cw` walks over: without `flag` it stops at the
first fallback reader. -/
def walkedReaders (er : EcmRequest) (flag : Nat) : List ReaderId :=
  if flag = 0 then er.matchingRdr.takeWhile fun r => some r ≠ er.fallback
  else er.matchingRdr

/-- Reader types: 0 all readers, 1 local cards only, 2 network readers
only. -/
def ofType (rdr : Reader) (readerTypes : Nat) : Bool :=
  readerTypes == 0 || (readerTypes == 1 && !rdr.isNetwork) ||
    (readerTypes == 2 && rdr.isNetwork)

/-- The level `request_cw` leaves in the request. -/
def leveled (er : EcmRequest) (flag readerTypes : Nat) : EcmRequest :=
  if readerTypes = 0 ∨ readerTypes = 2 then { er with level := flag } else er

/-- `request_cw`: the request is written to the pipes of its readers. -/
def requestCw (s : Server) (er : EcmRequest) (flag readerTypes : Nat) :
    Server :=
  let er := leveled er flag readerTypes
  { s with
    readers := fun r =>
      if r ∈ walkedReaders er flag ∧ ofType (s.readers r) readerTypes then
        (s.readers r).write er
      else s.readers r }

end Server

/-! ## What the updates change -/

theorem Client.write_pipe (cl : Client) (er : EcmRequest) :
    (cl.write er).pipe =
      if cl.pipe.length < pipeMax then cl.pipe ++ [er] else cl.pipe := by
  unfold Client.write
  split <;> rfl

@[simp] theorem Client.write_ecmtask (cl : Client) (er : EcmRequest) :
    (cl.write er).ecmtask = cl.ecmtask := by
  unfold Client.write
  split <;> rfl

@[simp] theorem Client.write_grp (cl : Client) (er : EcmRequest) :
    (cl.write er).grp = cl.grp := by
  unfold Client.write
  split <;> rfl

@[simp] theorem Client.write_multi (cl : Client) (er : EcmRequest) :
    (cl.write er).multi = cl.multi := by
  unfold Client.write
  split <;> rfl

@[simp] theorem Reader.write_ecmtask (rdr : Reader) (er : EcmRequest) :
    (rdr.write er).ecmtask = rdr.ecmtask := by
  unfold Reader.write
  split <;> rfl

theorem Client.mem_write {cl : Client} {er message : EcmRequest}
    (member : message ∈ (cl.write er).pipe) :
    message ∈ cl.pipe ∨ cl.pipe.length < pipeMax ∧ message = er := by
  rw [Client.write_pipe] at member
  split at member
  · rename_i room
    rcases List.mem_append.mp member with old | new
    · exact .inl old
    · exact .inr ⟨room, List.mem_singleton.mp new⟩
  · exact .inl member

theorem Client.length_le_write (cl : Client) (er : EcmRequest) :
    cl.pipe.length ≤ (cl.write er).pipe.length := by
  rw [Client.write_pipe]
  split <;> simp

theorem Client.mem_write_of_mem {cl : Client} {er message : EcmRequest}
    (member : message ∈ cl.pipe) : message ∈ (cl.write er).pipe := by
  rw [Client.write_pipe]
  split
  · exact List.mem_append_left _ member
  · exact member

theorem Reader.mem_write {rdr : Reader} {er message : EcmRequest}
    (member : message ∈ (rdr.write er).pipe) :
    message ∈ rdr.pipe ∨ message = er := by
  unfold Reader.write at member
  split at member
  · simpa using member
  · exact .inl member

/-- Writing answers for the slots of a list. -/
def Client.writeSlots (er : EcmRequest) (slots : List EcmRequest)
    (cl : Client) : Client :=
  slots.foldl
    (fun cl slot =>
      if receives er slot then cl.write { er with cpti := slot.cpti } else cl)
    cl

theorem Client.distribute_eq (cl : Client) (er : EcmRequest) (grp : Grp) :
    cl.distribute er grp =
      if cl.ecmtask ≠ [] ∧ cl.grp &&& grp ≠ 0 then
        cl.writeSlots er cl.ecmtask
      else cl := rfl

theorem Client.writeSlots_frame (er : EcmRequest) (slots : List EcmRequest)
    (cl : Client) :
    (cl.writeSlots er slots).ecmtask = cl.ecmtask ∧
      (cl.writeSlots er slots).multi = cl.multi ∧
      (cl.writeSlots er slots).grp = cl.grp := by
  induction slots generalizing cl with
  | nil => exact ⟨rfl, rfl, rfl⟩
  | cons slot slots induction =>
      obtain ⟨table, multi, grp⟩ := induction
        (if receives er slot then cl.write { er with cpti := slot.cpti }
          else cl)
      simp only [Client.writeSlots, List.foldl_cons] at table multi grp ⊢
      refine ⟨table.trans ?_, multi.trans ?_, grp.trans ?_⟩ <;>
        split <;> simp

@[simp] theorem Client.distribute_ecmtask (cl : Client) (er : EcmRequest)
    (grp : Grp) : (cl.distribute er grp).ecmtask = cl.ecmtask := by
  rw [Client.distribute_eq]
  split
  · exact (Client.writeSlots_frame er cl.ecmtask cl).1
  · rfl

/-- New messages are answers for waiting slots, and there was room. -/
theorem Client.mem_writeSlots {er message : EcmRequest}
    {slots : List EcmRequest} {cl : Client}
    (member : message ∈ (cl.writeSlots er slots).pipe) :
    message ∈ cl.pipe ∨ cl.pipe.length < pipeMax ∧
      ∃ slot ∈ slots, receives er slot ∧
        message = { er with cpti := slot.cpti } := by
  induction slots generalizing cl with
  | nil => exact .inl member
  | cons slot slots induction =>
      simp only [Client.writeSlots, List.foldl_cons] at member induction
      rcases induction member with first | ⟨room, later, laterMember, rest⟩
      · split at first
        · rename_i received
          rcases Client.mem_write first with old | ⟨room, new⟩
          · exact .inl old
          · exact .inr ⟨room, slot, List.mem_cons_self, received, new⟩
        · exact .inl first
      · refine .inr ⟨?_, later, List.mem_cons_of_mem slot laterMember, rest⟩
        split at room
        · exact (Client.length_le_write _ _).trans_lt room
        · exact room

theorem Client.mem_writeSlots_of_mem {er message : EcmRequest}
    {slots : List EcmRequest} {cl : Client} (member : message ∈ cl.pipe) :
    message ∈ (cl.writeSlots er slots).pipe := by
  induction slots generalizing cl with
  | nil => exact member
  | cons slot slots induction =>
      simp only [Client.writeSlots, List.foldl_cons] at induction ⊢
      apply induction
      split
      · exact Client.mem_write_of_mem member
      · exact member

theorem Client.mem_distribute {er message : EcmRequest} {grp : Grp}
    {cl : Client} (member : message ∈ (cl.distribute er grp).pipe) :
    message ∈ cl.pipe ∨
      (cl.grp &&& grp ≠ 0 ∧ cl.pipe.length < pipeMax ∧
        ∃ slot ∈ cl.ecmtask, receives er slot ∧
          message = { er with cpti := slot.cpti }) := by
  rw [Client.distribute_eq] at member
  split at member
  · rename_i fits
    rcases Client.mem_writeSlots member with old | new
    · exact .inl old
    · exact .inr ⟨fits.2, new⟩
  · exact .inl member

theorem Client.mem_distribute_of_mem {er message : EcmRequest} {grp : Grp}
    {cl : Client} (member : message ∈ cl.pipe) :
    message ∈ (cl.distribute er grp).pipe := by
  rw [Client.distribute_eq]
  split
  · exact Client.mem_writeSlots_of_mem member
  · exact member

theorem Client.length_writeSlots_le (er : EcmRequest)
    (slots : List EcmRequest) (cl : Client) :
    (cl.writeSlots er slots).pipe.length ≤
      cl.pipe.length + slots.countP (receives er) := by
  induction slots generalizing cl with
  | nil => simp [Client.writeSlots]
  | cons slot slots induction =>
      have later := induction
        (if receives er slot then cl.write { er with cpti := slot.cpti }
          else cl)
      simp only [Client.writeSlots, List.foldl_cons] at later ⊢
      by_cases received : receives er slot
      · have grown : (cl.write { er with cpti := slot.cpti }).pipe.length ≤
            cl.pipe.length + 1 := by
          rw [Client.write_pipe]
          split <;> simp
        rw [if_pos received] at later ⊢
        rw [List.countP_cons_of_pos received]
        omega
      · rw [if_neg received] at later ⊢
        rw [List.countP_cons_of_neg received]
        exact later

/-- With room for the slots before it, a waiting slot is written to. -/
theorem Client.mem_distribute_of_room {cl : Client} {er slot : EcmRequest}
    {grp : Grp} {j : Nat} (found : cl.ecmtask[j]? = some slot)
    (received : receives er slot) (fits : cl.grp &&& grp ≠ 0)
    (room : cl.pipe.length + (cl.ecmtask.take j).countP (receives er) <
      pipeMax) :
    { er with cpti := slot.cpti } ∈ (cl.distribute er grp).pipe := by
  obtain ⟨short, equal⟩ := List.getElem?_eq_some_iff.mp found
  have table : cl.ecmtask = cl.ecmtask.take j ++ slot ::
      cl.ecmtask.drop (j + 1) := by
    rw [← equal, ← List.drop_eq_getElem_cons short, List.take_append_drop]
  have before := Client.length_writeSlots_le er (cl.ecmtask.take j) cl
  have present : cl.ecmtask ≠ [] := by
    intro empty
    simp [empty] at short
  have split : cl.writeSlots er cl.ecmtask =
      (((cl.writeSlots er (cl.ecmtask.take j)).write
        { er with cpti := slot.cpti }).writeSlots er
          (cl.ecmtask.drop (j + 1))) := by
    conv_lhs => rw [table]
    simp only [Client.writeSlots, List.foldl_append, List.foldl_cons,
      received, if_true]
  rw [Client.distribute_eq, if_pos ⟨present, fits⟩, split]
  apply Client.mem_writeSlots_of_mem
  rw [Client.write_pipe, if_pos (lt_of_le_of_lt before room)]
  simp

/-- What `send_dcw` makes of the return code. -/
theorem sendDcw_rc (er : EcmRequest) :
    (sendDcw er).rc =
      if (er.rc = eFound ∨ er.rc = eCache1 ∨ er.rc = eCache2) ∧
          er.cw = Cw.zero then eNotfound
      else er.rc := by
  simp only [sendDcw, checkCW]
  by_cases found : er.rc = eFound ∨ er.rc = eCache1 ∨ er.rc = eCache2
  · by_cases null : er.cw = Cw.zero
    · simp [found, null]
    · simp only [found, null, if_true, if_false, and_false]
      split <;> rfl
  · simp only [found, if_false, false_and]
    split <;> rfl

theorem sendDcw_rc_lt {er : EcmRequest} (done : er.rc < e99) :
    (sendDcw er).rc < e99 := by
  rw [sendDcw_rc]
  split
  · decide
  · exact done

namespace Server

variable {s : Server} {c d : ClientId} {r q : ReaderId}

@[simp] theorem clients_modifyClient_self {f : Client → Client} :
    (s.modifyClient c f).clients c = f (s.clients c) :=
  Function.update_self ..

theorem clients_modifyClient_of_ne {f : Client → Client} (other : d ≠ c) :
    (s.modifyClient c f).clients d = s.clients d :=
  Function.update_of_ne other ..

theorem slotOf_setSlot (s : Server) (c d : ClientId) (i j : Nat)
    (er : EcmRequest) :
    (s.setSlot c i er).slotOf d j =
      if d = c ∧ j = i then (s.slotOf c i).map fun _ => er
      else s.slotOf d j := by
  simp only [slotOf, setSlot]
  by_cases client : d = c
  · subst client
    rw [clients_modifyClient_self, List.getElem?_set]
    by_cases index : j = i
    · subst index
      by_cases short : j < (s.clients d).ecmtask.length
      · simp [short]
      · simp [short]
    · have other : i ≠ j := Ne.symm index
      simp [index, other]
  · rw [clients_modifyClient_of_ne client]
    simp [client]

@[simp] theorem readers_modifyReader_self {f : Reader → Reader} :
    (s.modifyReader r f).readers r = f (s.readers r) :=
  Function.update_self ..

theorem readers_modifyReader_of_ne {f : Reader → Reader} (other : q ≠ r) :
    (s.modifyReader r f).readers q = s.readers q :=
  Function.update_of_ne other ..

@[simp] theorem answerOf_client (rdr : Reader) (er : EcmRequest) :
    (answerOf r rdr er).client = er.client := by
  unfold answerOf checkChecksum
  split
  · rfl
  · split <;> rfl

@[simp] theorem answerOf_cpti (rdr : Reader) (er : EcmRequest) :
    (answerOf r rdr er).cpti = er.cpti := by
  unfold answerOf checkChecksum
  split
  · rfl
  · split <;> rfl

/-- What `chk_dcw` does: nothing, when the slot is done or holds another
request; else the slot is found, has missed one of its readers, or has missed
the last one. -/
theorem chkDcw_cases (s : Server) (c : ClientId) (er : EcmRequest) :
    ((∀ ert, (s.clients c).ecmtask[er.cpti]? = some ert → e99 ≤ ert.rc →
        obsolete er ert = true) ∧ s.chkDcw c er = s) ∨
      ∃ ert, (s.clients c).ecmtask[er.cpti]? = some ert ∧ e99 ≤ ert.rc ∧
        obsolete er ert = false ∧
        ((eRdrFound ≤ er.rc ∧
            s.chkDcw c er = s.complete c er (foundSlot er ert)) ∨
          (er.rc < eRdrFound ∧ (missedSlot er ert).matchingRdr ≠ [] ∧
            s.chkDcw c er =
              s.setSlot c er.cpti
                { missedSlot er ert with selectedReader := none }) ∨
          (er.rc < eRdrFound ∧ (missedSlot er ert).matchingRdr = [] ∧
            s.chkDcw c er =
              { s with
                cache :=
                  storeCwInCache s.now (s.readerGrp er.selectedReader)
                    eNotfound { missedSlot er ert with rc := eNotfound }
                    s.cache }.complete c er
                { missedSlot er ert with rc := eNotfound })) := by
  cases slot : (s.clients c).ecmtask[er.cpti]? with
  | none => exact .inl ⟨by simp, by simp only [chkDcw, slot]⟩
  | some ert =>
      simp only [chkDcw, slot]
      by_cases done : ert.rc < e99
      · refine .inl ⟨fun other same pending => ?_, if_pos done⟩
        cases same
        omega
      by_cases old : obsolete er ert
      · refine .inl ⟨fun other same _ => ?_, by rw [if_neg done, if_pos old]⟩
        cases same
        exact old
      refine .inr ⟨ert, rfl, not_lt.mp done, by simpa using old, ?_⟩
      rw [if_neg done, if_neg old]
      by_cases found : eRdrFound ≤ er.rc
      · exact .inl ⟨found, if_pos found⟩
      right
      rw [if_neg found]
      by_cases left : (missedSlot er ert).matchingRdr ≠ []
      · exact .inl ⟨not_le.mp found, left, if_pos left⟩
      · exact .inr ⟨not_le.mp found, not_not.mp left, if_neg left⟩

/-- An answer changes the cache and the pipe of the client that asked. -/
theorem writeEcmAnswer_eq (s : Server) (r : ReaderId) (er : EcmRequest) :
    s.writeEcmAnswer r er =
      { s with
        cache :=
          if (answerOf r (s.readers r) er).rc = eRdrFound then
            storeCwInCache s.now (s.readers r).grp eFound
              (answerOf r (s.readers r) er) s.cache
          else s.cache
        clients := fun c =>
          if er.client = some c ∧ c ∈ s.clientList then
            (s.clients c).write (answerOf r (s.readers r) er)
          else s.clients c } := by
  simp only [writeEcmAnswer, answerOf_client]
  cases er.client with
  | none => simp
  | some c =>
      by_cases member : c ∈ s.clientList
      · simp only [writeToPipe, member, if_true, modifyClient]
        congr 1
        funext d
        by_cases same : d = c
        · simp [same, member]
        · have other : c ≠ d := Ne.symm same
          simp [same, other]
      · simp only [writeToPipe, member, if_false]
        congr 1
        funext d
        by_cases same : c = d
        · simp [← same, member]
        · simp [same]

end Server

end Oscam
