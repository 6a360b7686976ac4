import Oscam.Cccam.Card
import Oscam.Ecm.Server
import Oscam.Lib.Memory

/-!
# Requests sent to a CCcam server

`cc_send_ecm`, which sends the pending requests of a reader to cards of the
server it is connected to, and `cc_get_nxt_ecm`, which picks them.
-/

namespace Oscam.Cccam

abbrev e2CccamNocard : Nat := 0x27
abbrev e2CccamLoop : Nat := 0x30

/-! Messages between the servers. -/

abbrev msgCardRemoved : Nat := 4
abbrev msgNewCard : Nat := 7
abbrev msgNewCardSidinfo : Nat := 0x0f

/-- A task of a CCcam reader: the request with its index and the card it
should be forwarded to. -/
structure Task extends EcmRequest where
  idx : Nat
  originReader : Option ReaderId
  originCard : Option Nat
  deriving DecidableEq, Repr

/-- `struct cc_extended_ecm_idx`. -/
structure ExtendedEcmIdx where
  sendIdx : Nat
  ecmIdx : Nat
  card : Nat
  srvid : Srvid
  deriving DecidableEq, Repr

abbrev CardList : Type := Chain Card Card.addr

/-- The connection of a reader: the fields of `struct cc_data`, of the reader
and of its client that sending reads or writes. -/
structure Conn where
  pfd : Int
  tcpConnected : Nat
  cards : CardList
  extendedMode : Bool
  ecmBusy : Bool
  ecmTime : Timeb
  lastMsg : Nat
  justLoggedIn : Bool
  serverEcmIdx : Nat
  gFlag : Nat
  extendedEcmIdx : List ExtendedEcmIdx
  peerNodeId : List UInt8
  available : Bool
  fdError : Nat
  currenthops : Nat
  pending : Nat
  ecmtask : List Task

/-- How far `cc_cli_connect` gets. -/
inductive Login where
  | noSeed
  | refused
  | accepted (pfd : Int)
  deriving DecidableEq, Repr

/-- The surroundings of one call: the reader, the settings, the node ids of
the clients, the clock at each look for a request, how a login ends and how
many messages the connection takes before it is lost. -/
structure SendEnv where
  rdr : ReaderId
  reader : Reader
  keepalive : Bool
  ctimeout : Nat
  forwardOriginCard : Bool
  peerNodeId : ClientId → Option (List UInt8)
  curTime : Timeb
  time : Nat → Int
  login : Login
  capacity : Nat

/-- A message sent for a task, with the cards there were at that time. -/
structure Sent where
  task : Task
  card : Card
  cards : CardList
  message : List UInt8

/-- The connection and what the call has written so far. -/
structure Call where
  conn : Conn
  sent : List Sent
  answers : List EcmRequest

namespace Task

def srvidOf (task : Task) : Srvid :=
  { sid := task.srvid, ecmlen := (task.l % 256).toNat }

/-- The answer `write_ecm_answer` makes of a task. -/
def answered (env : SendEnv) (rcEx : Nat) (task : Task) : Task :=
  { task with
    toEcmRequest :=
      answerOf env.rdr env.reader
        { task.toEcmRequest with rc := eRdrNotfound, rcEx := rcEx } }

def withRc (rc : Int) (task : Task) : Task := { task with rc := rc }

@[simp] theorem rc_withRc (rc : Int) (task : Task) :
    (task.withRc rc).rc = rc := rfl

/-- Active and waiting. -/
def Waits (task : Task) : Prop := 10 ≤ task.rc ∧ task.rc ≤ 100

instance (task : Task) : Decidable task.Waits :=
  inferInstanceAs (Decidable (_ ∧ _))

end Task

/-! ## The next request -/

/-- The test of `cc_get_nxt_ecm` for a timeout. -/
def TimedOut (env : SendEnv) (now : Int) (task : Task) : Prop :=
  now - task.tps.time % 2 ^ 32 > (env.ctimeout + 500) / 1000 + 1 ∧
    10 ≤ task.rc

instance (env : SendEnv) (now : Int) (task : Task) :
    Decidable (TimedOut env now task) :=
  inferInstanceAs (Decidable (_ ∧ _))

/-- `loop_check`. -/
def loopCheck (env : SendEnv) (myid : List UInt8) (client : Option ClientId) :
    Bool :=
  match client with
  | none => false
  | some cl => env.peerNodeId cl == some myid

/-- What a look of `cc_get_nxt_ecm` makes of one task. -/
def refresh (env : SendEnv) (myid : List UInt8) (now : Int) (task : Task) :
    Task :=
  if TimedOut env now task then task.withRc 0
  else if task.Waits ∧ loopCheck env myid task.client then
    task.answered env e2CccamLoop
  else task

/-- The answers of `cc_get_nxt_ecm`. -/
def loopAnswers (env : SendEnv) (myid : List UInt8) (now : Int)
    (tasks : List Task) : List EcmRequest :=
  (tasks.filter fun task =>
    ¬ TimedOut env now task ∧ task.Waits ∧
      loopCheck env myid task.client).map
    fun task => (task.answered env e2CccamLoop).toEcmRequest

/-- The search for the task to go next: one of the latest time.  The check
for the same request already sent compares the addresses of two `ecmd5`
fields, which differ, and finds none. -/
def next (best : Option (Nat × Task)) (entry : Task × Nat) :
    Option (Nat × Task) :=
  if entry.1.Waits then
    match best with
    | none => some (entry.2, entry.1)
    | some (_, task) =>
        if task.tps.time - entry.1.tps.time < 0 then some (entry.2, entry.1)
        else best
  else best

def nextOf (tasks : List Task) : Option (Nat × Task) :=
  tasks.zipIdx.foldl next none

/-- What a look of `cc_get_nxt_ecm` makes of the connection. -/
def Conn.looked (env : SendEnv) (now : Int) (conn : Conn) : Conn :=
  { conn with
    ecmtask := conn.ecmtask.map (refresh env conn.peerNodeId now)
    pending :=
      (conn.ecmtask.filter fun task =>
        ¬ TimedOut env now task ∧ task.Waits).length }

/-- `cc_get_nxt_ecm`. -/
def Call.getNxtEcm (env : SendEnv) (now : Int) (st : Call) :
    Call × Option (Nat × Task) :=
  ({ st with
      conn := st.conn.looked env now
      answers :=
        st.answers ++ loopAnswers env st.conn.peerNodeId now st.conn.ecmtask },
    nextOf (st.conn.looked env now).ecmtask)

/-! ## The choice of a card -/

/-- The variables `card` and `h`, which live from one request to the next. -/
structure Choice where
  card : Option Card
  h : Int
  deriving DecidableEq, Repr

/-- The variables of the search through the cards. -/
structure Search extends Choice where
  xcard : Option Card
  deriving DecidableEq, Repr

namespace Search

def take (s : Search) (ncard : Card) : Search :=
  if s.h < 0 ∨ (ncard.hop : Int) < s.h ∨
      ((ncard.hop : Int) = s.h ∧ uaValid ncard.hexserial) then
    { s with card := some ncard, h := ncard.hop }
  else s

/-- The card for 18xx, when the request has no provider but the card has. -/
def remember (s : Search) (ncard : Card) : Search :=
  if ncard.caid / 256 = 0x18 ∧ (∀ xcard ∈ s.xcard, ncard.hop < xcard.hop) then
    { s with xcard := some ncard }
  else s

def look (task : Task) (s : Search) (ncard : Card) : Search :=
  if ncard.caid = task.caid ∧ ¬ ncard.isSidBlocked task.srvidOf then
    let s := s.remember ncard
    if task.prid = 0 ∧ ncard.providers = [] then s.take ncard
    else
      ncard.providers.foldl
        (fun s provider =>
          if provider.prov = task.prid then s.take ncard else s) s
  else s

end Search

/-- The origin card, when it is to be used and is there. -/
def originCard (env : SendEnv) (cards : CardList) (task : Task) :
    Option Card :=
  if env.forwardOriginCard ∧ task.originReader = some env.rdr then
    task.originCard.bind cards.get?
  else none

/-- The card for a task, with what earlier tasks have left in the variables. -/
def select (env : SendEnv) (cards : CardList) (choice : Choice) (task : Task) :
    Choice :=
  let choice :=
    { choice with card := (originCard env cards task).or choice.card }
  if choice.card = none then
    let s := cards.cells.foldl (Search.look task)
      { choice with xcard := none }
    { card := s.card.or s.xcard, h := s.h }
  else choice

/-! ## Sending -/

/-- The message `MSG_CW_ECM`. -/
def ecmMessage (card : Card) (task : Task) : List UInt8 :=
  Memory.digits 2 card.caid ++ Memory.digits 4 task.prid ++
    Memory.digits 4 card.id ++ Memory.digits 2 task.srvid ++
    Memory.digits 1 (task.l % 256).toNat ++
    (List.range task.l.toNat).map fun i => UInt8.ofNat (task.ecmByte i)

/-- The entry under which the answer will find the task. -/
def recordIdx (entry : ExtendedEcmIdx) :
    List ExtendedEcmIdx → List ExtendedEcmIdx
  | [] => [entry]
  | other :: rest =>
      if other.sendIdx = entry.sendIdx then entry :: rest
      else other :: recordIdx entry rest

namespace Conn

def withoutCards (conn : Conn) : Conn :=
  { conn with
    cards := { cells := [], distinct := List.nodup_nil }
    extendedEcmIdx := [], ecmBusy := false }

/-- `cc_cli_connect`. -/
def cliConnect (login : Login) (conn : Conn) : Conn :=
  let conn := conn.withoutCards
  match login with
  | .noSeed => conn
  | .refused => { conn with extendedMode := false }
  | .accepted pfd =>
      { conn with
        extendedMode := false, tcpConnected := 1, pfd := pfd
        available := true, justLoggedIn := true }

/-- `cc_cli_close`: the table is cleared, and with keepalive the reader
connects again. -/
def cliClose (env : SendEnv) (conn : Conn) : Conn :=
  let conn :=
    { conn with
      tcpConnected := 0, available := false, justLoggedIn := false, pfd := 0
      ecmtask := conn.ecmtask.map fun task => { task with idx := 0, rc := 0 } }
  if env.keepalive then conn.cliConnect env.login else conn

/-- The index under which a message is sent. -/
def nextSendIdx (conn : Conn) : Conn × Nat :=
  if conn.extendedMode then
    let idx := if 256 ≤ conn.serverEcmIdx + 1 then 1
      else conn.serverEcmIdx + 1
    ({ conn with serverEcmIdx := idx, gFlag := idx }, idx)
  else (conn, 1)

/-- What a sent message leaves in the connection. -/
def recordSent (conn : Conn) (card : Card) (task : Task) : Conn :=
  let (conn, sendIdx) := conn.nextSendIdx
  { conn with
    currenthops := card.hop
    extendedEcmIdx :=
      recordIdx
        { sendIdx := sendIdx, ecmIdx := task.idx, card := card.addr
          srvid := task.srvidOf } conn.extendedEcmIdx }

/-- New cards may still arrive. -/
def Receiving (conn : Conn) : Prop :=
  conn.lastMsg = msgNewCard ∨ conn.lastMsg = msgNewCardSidinfo ∨
    conn.lastMsg = msgCardRemoved ∨ conn.justLoggedIn

instance (conn : Conn) : Decidable conn.Receiving :=
  inferInstanceAs (Decidable (_ ∨ _ ∨ _ ∨ _))

end Conn

/-- The blocks of a service that were not set by the server go away. -/
def reopenCard (caid : Nat) (srvid : Srvid) (card : Card) : Card :=
  if card.caid = caid then
    { card with
      badsids := card.badsids.filter fun bad =>
        ¬ (0 < bad.ecmlen ∧ sidEq bad srvid) }
  else card

/-- "Reopen all blocked sids for this srvid". -/
def reopen (caid : Nat) (srvid : Srvid) (cards : CardList) : CardList :=
  cards.mapCells (reopenCard caid srvid) (by
    intro card
    unfold reopenCard
    split <;> rfl)

/-- The cards after a task that has found none. -/
def missed (env : SendEnv) (receiving : Bool) (cards : CardList)
    (task : Task) : CardList :=
  if receiving then cards
  else reopen (task.answered env e2CccamNocard).caid task.srvidOf cards

namespace Call

def setTask (st : Call) (i : Nat) (task : Task) : Call :=
  { st with conn := { st.conn with ecmtask := st.conn.ecmtask.set i task } }

/-- The first lines of the loop. -/
def begin (env : SendEnv) (st : Call) : Call :=
  { st with
    conn :=
      { st.conn with
        ecmTime := env.curTime, available := st.conn.extendedMode } }

/-- A card is there: the message is sent, unless the connection is lost. -/
def send (env : SendEnv) (card : Card) (task : Task) (st : Call) :
    Call :=
  let conn := st.conn.recordSent card task
  if st.sent.length < env.capacity then
    { st with
      conn := conn
      sent := st.sent ++
        [{ task := task, card := card, cards := conn.cards
           message := ecmMessage card task }] }
  else { st with conn := conn.cliClose env }

/-- No card is there: the request is answered, or it waits for new cards. -/
def miss (env : SendEnv) (i : Nat) (task : Task) (st : Call) : Call :=
  let conn :=
    { st.conn with cards := missed env st.conn.Receiving st.conn.cards task }
  if conn.Receiving then
    { st with conn := conn }.setTask i (task.withRc 102)
  else
    let answer := task.answered env e2CccamNocard
    { st with
      conn := conn, answers := st.answers ++ [answer.toEcmRequest] }.setTask i
        answer

/-- No request is left. -/
def release (st : Call) : Call :=
  if st.conn.extendedMode then st
  else { st with conn := { st.conn with available := true, ecmBusy := false } }

end Call

/-- A turn of the loop ends the call or leaves a card for the next turn. -/
inductive Turn where
  | done (st : Call)
  | again (st : Call) (choice : Choice)

/-- One turn of the loop of `cc_send_ecm`.  After a lost connection the table
is empty, so that no more requests are found. -/
def turn (env : SendEnv) (n : Nat) (st : Call) (choice : Choice) : Turn :=
  match (st.begin env).getNxtEcm env (env.time n) with
  | (st, none) => .done st.release
  | (st, some (i, task)) =>
      let task := task.withRc 101
      let st := st.setTask i task
      let choice := select env st.conn.cards choice task
      match choice.card with
      | some card =>
          if st.sent.length < env.capacity ∧ st.conn.extendedMode then
            .again (st.send env card task) choice
          else .done (st.send env card task)
      | none =>
          .again (st.miss env i task) choice

def sendLoop (env : SendEnv) : Nat → Nat → Call → Choice → Call
  | 0, _, st, _ => st
  | fuel + 1, n, st, choice =>
      match turn env n st choice with
      | .done st => st
      | .again st choice => sendLoop env fuel (n + 1) st choice

/-- The connection can take a request. -/
def Conn.Ready (conn : Conn) : Prop :=
  1 ≤ conn.pfd ∧ conn.tcpConnected = 2 ∧ conn.cards.cells ≠ [] ∧
    (conn.extendedMode ∨ ¬ conn.ecmBusy)

instance (conn : Conn) : Decidable conn.Ready :=
  inferInstanceAs (Decidable (_ ∧ _ ∧ _ ∧ _))

/-- `cc_send_ecm` on a connection that cannot take a request. -/
def refuse (env : SendEnv) (er : Option EcmRequest) (conn : Conn) : Call :=
  if conn.pfd < 1 ∨ conn.tcpConnected = 0 then
    { conn := conn, sent := []
      answers := er.toList.map fun er =>
        answerOf env.rdr env.reader
          { er with rc := eRdrNotfound, rcEx := e2CccamNocard } }
  else if conn.tcpConnected ≠ 2 then
    { conn := conn, sent := [], answers := [] }
  else if conn.cards.cells = [] then
    { conn := { conn with fdError := conn.fdError + 1 }
      sent := [], answers := [] }
  else
    let conn := { conn with justLoggedIn := false }
    let tt := env.ctimeout + 500
    let timeout :=
      { time := conn.ecmTime.time + (tt / 1000 : Nat)
        millitm := conn.ecmTime.millitm + (tt % 1000 : Nat) }
    { conn :=
        if compTimeb env.curTime timeout < 0 then conn else conn.cliClose env
      sent := [], answers := [] }

/-- `cc_send_ecm`. -/
def sendEcm (env : SendEnv) (er : Option EcmRequest) (conn : Conn) : Call :=
  let conn :=
    if conn.tcpConnected = 0 then conn.cliConnect env.login else conn
  if conn.Ready then
    sendLoop env (conn.ecmtask.length + 1) 0
      { conn :=
          { conn with
            justLoggedIn := false
            ecmBusy := ¬ conn.extendedMode ∨ conn.ecmBusy }
        sent := [], answers := [] }
      { card := none, h := -1 }
  else refuse env er conn

/-! ## What the steps of a turn leave as it is

The loop reads the cards, the mode, the node id of the server and whether
cards may still arrive; only a missed request changes the cards. -/

/-- The part of a connection that a turn reads beside the tasks. -/
structure Conn.SameLink (left right : Conn) : Prop where
  cards : left.cards = right.cards
  extendedMode : left.extendedMode = right.extendedMode
  peerNodeId : left.peerNodeId = right.peerNodeId
  lastMsg : left.lastMsg = right.lastMsg
  justLoggedIn : left.justLoggedIn = right.justLoggedIn

variable {env : SendEnv} {task : Task} {card : Card}

/-- How many messages a call can send. -/
def Conn.limit (env : SendEnv) (conn : Conn) : Nat :=
  if conn.extendedMode then env.capacity else min 1 env.capacity

namespace Conn.SameLink

variable {left right other : Conn}

theorem trans (first : left.SameLink right) (second : right.SameLink other) :
    left.SameLink other :=
  { cards := first.cards.trans second.cards
    extendedMode := first.extendedMode.trans second.extendedMode
    peerNodeId := first.peerNodeId.trans second.peerNodeId
    lastMsg := first.lastMsg.trans second.lastMsg
    justLoggedIn := first.justLoggedIn.trans second.justLoggedIn }

theorem receiving (same : left.SameLink right) :
    decide left.Receiving = decide right.Receiving := by
  apply decide_eq_decide.mpr
  unfold Conn.Receiving
  rw [same.lastMsg, same.justLoggedIn]

theorem limit (same : left.SameLink right) :
    left.limit env = right.limit env := by
  simp only [Conn.limit, same.extendedMode]

end Conn.SameLink

namespace Call

/-- The call after a task was taken. -/
def took (env : SendEnv) (n i : Nat) (task : Task) (st : Call) : Call :=
  ((st.begin env).getNxtEcm env (env.time n)).1.setTask i (task.withRc 101)

theorem took_link (env : SendEnv) (task : Task) (n i : Nat) (st : Call) :
    (st.took env n i task).conn.SameLink st.conn :=
  { cards := rfl, extendedMode := rfl, peerNodeId := rfl, lastMsg := rfl
    justLoggedIn := rfl }

@[simp] theorem took_sent (n i : Nat) (st : Call) :
    (st.took env n i task).sent = st.sent := rfl

theorem took_ecmtask (n i : Nat) (st : Call) :
    (st.took env n i task).conn.ecmtask =
      (st.conn.ecmtask.map
        (refresh env st.conn.peerNodeId (env.time n))).set i
          (task.withRc 101) := rfl

@[simp] theorem release_sent (st : Call) : st.release.sent = st.sent := by
  unfold release
  split <;> rfl

theorem send_lost {st : Call} (lost : ¬ st.sent.length < env.capacity) :
    (st.send env card task).sent = st.sent := by
  simp [send, lost]

/-- The message for a task. -/
def sentTo (cards : CardList) (card : Card) (task : Task) : Sent :=
  { task := task, card := card, cards := cards
    message := ecmMessage card task }

theorem recordSent_link (conn : Conn) :
    (conn.recordSent card task).SameLink conn ∧
      (conn.recordSent card task).ecmtask = conn.ecmtask := by
  simp only [Conn.recordSent, Conn.nextSendIdx]
  split
  · exact ⟨⟨rfl, rfl, rfl, rfl, rfl⟩, rfl⟩
  · exact ⟨⟨rfl, rfl, rfl, rfl, rfl⟩, rfl⟩

theorem send_sent {st : Call} (room : st.sent.length < env.capacity) :
    (st.send env card task).sent =
      st.sent ++ [sentTo st.conn.cards card task] := by
  simp [send, room, sentTo, (recordSent_link st.conn).1.cards]

theorem send_link (card : Card) (task : Task) {st : Call}
    (room : st.sent.length < env.capacity) :
    (st.send env card task).conn.SameLink st.conn ∧
      (st.send env card task).conn.ecmtask = st.conn.ecmtask := by
  simpa [send, room] using recordSent_link st.conn

/-- A missed request is no longer pending, and only the blocks of the cards
change. -/
theorem miss_link (env : SendEnv) (task : Task) (i : Nat) (st : Call) :
    (st.miss env i task).conn.SameLink
        { st.conn with
          cards := missed env st.conn.Receiving st.conn.cards task } ∧
      (st.miss env i task).sent = st.sent := by
  simp only [miss, setTask]
  split
  · exact ⟨⟨rfl, rfl, rfl, rfl, rfl⟩, rfl⟩
  · exact ⟨⟨rfl, rfl, rfl, rfl, rfl⟩, rfl⟩

theorem answered_rc (rcEx : Nat) :
    (task.answered env rcEx).rc = eRdrNotfound := by
  simp only [Task.answered, answerOf, checkChecksum]
  split
  · rfl
  · split <;> rfl

theorem miss_ecmtask (env : SendEnv) (task : Task) (i : Nat) (st : Call) :
    ∃ idle : Task, ¬ idle.Waits ∧
      (st.miss env i task).conn.ecmtask = st.conn.ecmtask.set i idle := by
  simp only [miss, setTask]
  split
  · exact ⟨task.withRc 102, by simp [Task.Waits], rfl⟩
  · refine ⟨task.answered env e2CccamNocard, ?_, rfl⟩
    simp [Task.Waits, answered_rc, eRdrNotfound]

end Call

/-- The cases of a turn. -/
theorem turn_eq (n : Nat) (st : Call) (choice : Choice) :
    turn env n st choice =
      match nextOf (st.conn.ecmtask.map
          (refresh env st.conn.peerNodeId (env.time n))) with
      | none =>
          .done ((st.begin env).getNxtEcm env (env.time n)).1.release
      | some (i, task) =>
          let choice := select env st.conn.cards choice (task.withRc 101)
          let st := st.took env n i task
          match choice.card with
          | some card =>
              if st.sent.length < env.capacity ∧ st.conn.extendedMode then
                .again (st.send env card (task.withRc 101)) choice
              else .done (st.send env card (task.withRc 101))
          | none => .again (st.miss env i (task.withRc 101)) choice := by
  simp only [turn, Call.getNxtEcm, Conn.looked, Call.begin]
  cases nextOf (st.conn.ecmtask.map
    (refresh env st.conn.peerNodeId (env.time n))) with
  | none => rfl
  | some entry => rfl

/-! ## The loop ends

Every turn that goes on takes one waiting task, so that one turn more than
there are waiting tasks is enough. -/

def waiting (tasks : List Task) : Nat := tasks.countP fun task => task.Waits

section

variable {myid : List UInt8} {now : Int}

theorem refresh_late (late : TimedOut env now task) :
    refresh env myid now task = task.withRc 0 :=
  if_pos late

theorem refresh_loop (inTime : ¬ TimedOut env now task)
    (loop : task.Waits ∧ loopCheck env myid task.client) :
    refresh env myid now task = task.answered env e2CccamLoop :=
  (if_neg inTime).trans (if_pos loop)

theorem refresh_stay (inTime : ¬ TimedOut env now task)
    (stay : ¬ (task.Waits ∧ loopCheck env myid task.client)) :
    refresh env myid now task = task :=
  (if_neg inTime).trans (if_neg stay)

theorem withRc_zero_idle (task : Task) : ¬ (task.withRc 0).Waits := by
  simp [Task.Waits]

theorem answered_idle (env : SendEnv) (rcEx : Nat) (task : Task) :
    ¬ (task.answered env rcEx).Waits := by
  simp [Task.Waits, Call.answered_rc, eRdrNotfound]

theorem refresh_waits (waits : (refresh env myid now task).Waits) :
    refresh env myid now task = task := by
  by_cases late : TimedOut env now task
  · rw [refresh_late late] at waits
    exact absurd waits (withRc_zero_idle task)
  · by_cases loop : task.Waits ∧ loopCheck env myid task.client
    · rw [refresh_loop late loop] at waits
      exact absurd waits (answered_idle env e2CccamLoop task)
    · exact refresh_stay late loop

end

theorem waiting_refresh (env : SendEnv) (myid : List UInt8) (now : Int)
    (tasks : List Task) :
    waiting (tasks.map (refresh env myid now)) ≤ waiting tasks := by
  unfold waiting
  rw [List.countP_map]
  apply List.countP_mono_left
  intro task _ waits
  have waits := of_decide_eq_true waits
  exact decide_eq_true (refresh_waits waits ▸ waits)

theorem foldl_next {entries : List (Task × Nat)} {best : Option (Nat × Task)}
    {i : Nat} (found : entries.foldl next best = some (i, task)) :
    best = some (i, task) ∨ (task, i) ∈ entries ∧ task.Waits := by
  induction entries generalizing best with
  | nil => exact Or.inl found
  | cons entry entries induction =>
      rcases induction found with here | ⟨member, waits⟩
      · have kept : best = some (i, task) ∨
            entry = (task, i) ∧ task.Waits := by
          unfold next at here
          split at here
          · rename_i waits
            cases best with
            | none =>
                cases here
                exact Or.inr ⟨rfl, waits⟩
            | some other =>
                simp only at here
                split at here
                · cases here
                  exact Or.inr ⟨rfl, waits⟩
                · exact Or.inl here
          · exact Or.inl here
        rcases kept with old | ⟨rfl, waits⟩
        · exact Or.inl old
        · exact Or.inr ⟨by simp, waits⟩
      · exact Or.inr ⟨by simp [member], waits⟩

theorem nextOf_eq_some {tasks : List Task} {i : Nat}
    (picked : nextOf tasks = some (i, task)) :
    tasks[i]? = some task ∧ task.Waits := by
  rcases foldl_next picked with none_found | ⟨member, waits⟩
  · cases none_found
  · exact ⟨List.mem_zipIdx_iff_getElem?.mp member, waits⟩

theorem waiting_set {tasks : List Task} {i : Nat} {idle : Task}
    (here : tasks[i]? = some task) (waits : task.Waits)
    (idleWaits : ¬ idle.Waits) :
    waiting (tasks.set i idle) < waiting tasks := by
  obtain ⟨inside, rfl⟩ := List.getElem?_eq_some_iff.mp here
  have one : 0 < waiting tasks :=
    List.countP_pos_iff.mpr ⟨_, List.getElem_mem inside, by simpa using waits⟩
  unfold waiting at one ⊢
  rw [List.countP_set inside, if_pos (decide_eq_true waits), if_neg]
  · omega
  · intro decided
    exact idleWaits (of_decide_eq_true decided)

theorem waiting_turn {n : Nat} {st after : Call} {choice left : Choice}
    (again : turn env n st choice = .again after left) :
    waiting after.conn.ecmtask < waiting st.conn.ecmtask := by
  have refreshed := waiting_refresh env st.conn.peerNodeId
    (env.time n) st.conn.ecmtask
  rw [turn_eq] at again
  cases picked : nextOf (st.conn.ecmtask.map
      (refresh env st.conn.peerNodeId (env.time n))) with
  | none => simp [picked] at again
  | some entry =>
      obtain ⟨i, task⟩ := entry
      obtain ⟨here, waits⟩ := nextOf_eq_some picked
      have fewer {idle : Task} (off : ¬ idle.Waits) :=
        waiting_set here waits off
      have sentOff : ¬ (task.withRc 101).Waits := by simp [Task.Waits]
      simp only [picked] at again
      split at again
      · split at again
        · rename_i room
          cases again
          rw [(Call.send_link _ _ room.1).2, Call.took_ecmtask]
          exact Nat.lt_of_lt_of_le (fewer sentOff) refreshed
        · cases again
      · cases again
        obtain ⟨idle, off, tasks⟩ := Call.miss_ecmtask env (task.withRc 101) i
          (st.took env n i task)
        rw [tasks, Call.took_ecmtask, List.set_set]
        exact Nat.lt_of_lt_of_le (fewer off) refreshed

theorem sendLoop_enough {fuel n : Nat} {st : Call} {choice : Choice}
    (enough : waiting st.conn.ecmtask < fuel) (more : Nat) :
    sendLoop env (fuel + more) n st choice = sendLoop env fuel n st choice := by
  induction fuel generalizing n st choice with
  | zero => cases enough
  | succ fuel induction =>
      rw [Nat.succ_add_eq_add_succ]
      simp only [sendLoop]
      cases next : turn env n st choice with
      | done st => rfl
      | again after left =>
          have fewer := waiting_turn next
          exact induction (by omega)

end Oscam.Cccam
