import Oscam.Lib.Reach
import Oscam.Monitor.Requests

/-!
# What monitors park

The rest of a datagram is parked in `bbuf`, which all clients share.  Runs of
all clients are compared with the run of one of them alone.
-/

namespace Oscam.Monitor

open StepSystem

/-! ## The system -/

/-- A client with its thread and its pipe, where a wake-up is a datagram
without bytes, and with the datagrams that it sent. -/
structure Slot where
  cl : MonitorClient
  alive : Bool
  pipe : List (List UInt8)
  sent : List (List UInt8)
  deriving DecidableEq, Repr

/-- A request that `monitor_recv` returned, the bytes it was made of, and what
was executed for it. -/
structure Request where
  client : ClientId
  data : List UInt8
  request : List UInt8
  executed : Option Executed
  deriving DecidableEq, Repr

/-- The shared buffer and the clients.  `parkedBy` is the client whose call
filled the buffer, `requests` has all requests so far. -/
structure Server where
  bbuf : List UInt8
  parkedBy : Option ClientId
  slots : ClientId → Slot
  requests : List Request

/-- The monitor before any datagram. -/
def Server.start (ips : ClientId → Nat) : Server :=
  { bbuf := []
    parkedBy := none
    slots := fun c =>
      { cl := { ip := ips c, auth := false, crypted := false, ucrc := []
                aesKey := [], monlvl := 0 }
        alive := true, pipe := [], sent := [] }
    requests := [] }

/-- A datagram of a client arrives, or the thread of a client takes the next
message of its pipe.  `mbuf` is what its buffer holds before. -/
inductive Event where
  | datagram (client : ClientId) (bytes : List UInt8)
  | input (client : ClientId) (cfg : MonitorCfg) (mbuf : Memory)

def Event.client : Event → ClientId
  | .datagram client _ => client
  | .input client _ _ => client

/-- `write_to_pipe`, with room for 64 messages. -/
def writeToPipe (pipe : List (List UInt8)) (message : List UInt8) :
    List (List UInt8) :=
  if pipe.length < 64 then pipe ++ [message] else pipe

/-- `accept_connection`. -/
def Slot.accept (slot : Slot) (bytes : List UInt8) : Slot :=
  { slot with
    pipe := writeToPipe slot.pipe bytes, sent := slot.sent ++ [bytes] }

/-- What a call of `monitor_recv` does to its client, the shared buffer, and
the requests. -/
structure Turn where
  slot : Slot
  bbuf : List UInt8
  request : Option Request
  deriving DecidableEq, Repr

/-- One turn of `monitor_server` for a message of the pipe. -/
def Slot.turn (crypto : Crypto) (c : ClientId) (cfg : MonitorCfg)
    (mbuf : Memory) (slot : Slot) (bbuf message : List UInt8)
    (pipe : List (List UInt8)) : Turn :=
  match monitorRecv crypto cfg slot.cl bbuf
      (processClientPipe mbuf message) with
  | none =>
      { slot := { slot with alive := false, pipe := pipe }, bbuf := []
        request := none }
  | some r =>
      let p := monitorProcessRequest cfg r.cl r.request
      { slot := { slot with
          cl := p.cl.getD r.cl
          alive := p.cl.isSome
          pipe := if r.bbuf.isEmpty then pipe else writeToPipe pipe [] }
        bbuf := r.bbuf
        request := some
          { client := c, data := r.data, request := r.request
            executed := p.executed } }

/-- `process_input`, when a message of the pipe is there. -/
def Slot.input (crypto : Crypto) (c : ClientId) (cfg : MonitorCfg)
    (mbuf : Memory) (slot : Slot) (bbuf : List UInt8) : Option Turn :=
  match slot.alive, slot.pipe with
  | true, message :: pipe =>
      some (slot.turn crypto c cfg mbuf bbuf message pipe)
  | _, _ => none

def Server.step (crypto : Crypto) (s : Server) : Event → Server
  | .datagram c bytes =>
      { s with slots := Function.update s.slots c ((s.slots c).accept bytes) }
  | .input c cfg mbuf =>
      match (s.slots c).input crypto c cfg mbuf s.bbuf with
      | none => s
      | some turn =>
          { bbuf := turn.bbuf
            parkedBy := if turn.bbuf.isEmpty then none else some c
            slots := Function.update s.slots c turn.slot
            requests := s.requests ++ turn.request.toList }

/-- The condition on a step: what is parked was parked by the client that is
called now, and its datagram fits the buffer, or the buffer does not begin as
a message of the pipe. -/
def Own (s : Server) : Event → Prop
  | .datagram _ _ => True
  | .input c _ mbuf =>
      (s.bbuf = [] ∨ s.parkedBy = some c) ∧
        ∀ message ∈ (s.slots c).pipe.head?,
          message.length + 3 ≤ mbufSize ∨ mbuf 0 ≠ pipeUdp

instance Own.decidable (s : Server) : ∀ event, Decidable (Own s event)
  | .datagram _ _ => .isTrue trivial
  | .input _ _ _ => inferInstanceAs (Decidable (_ ∧ _))

/-- The requests of one client. -/
def Server.requestsOf (s : Server) (c : ClientId) : List Request :=
  s.requests.filter (·.client == c)

variable {crypto : Crypto} {s t : Server} {c : ClientId}

/-! ## Requests are made of the client's own bytes -/

/-- The bytes are the end of a datagram that the client sent. -/
def Slot.Sent (slot : Slot) (data : List UInt8) : Prop :=
  ∃ bytes ∈ slot.sent, data <:+ bytes

theorem Slot.Sent.suffix {slot : Slot} {data rest : List UInt8}
    (sent : slot.Sent data) (suffix : rest <:+ data) : slot.Sent rest := by
  obtain ⟨bytes, member, ends⟩ := sent
  exact ⟨bytes, member, suffix.trans ends⟩

/-- Everything that waits is of the client for which it waits. -/
structure Server.Apart (s : Server) : Prop where
  pipes : ∀ c, ∀ message ∈ (s.slots c).pipe,
    message = [] ∨ message ∈ (s.slots c).sent
  parked : ∀ c, s.parkedBy = some c → (s.slots c).Sent s.bbuf
  requests : ∀ request ∈ s.requests,
    request.data = [] ∨ (s.slots request.client).Sent request.data

theorem mem_writeToPipe {pipe : List (List UInt8)}
    {message other : List UInt8} (member : other ∈ writeToPipe pipe message) :
    other ∈ pipe ∨ other = message := by
  unfold writeToPipe at member
  split at member
  · rcases List.mem_append.mp member with old | new
    · exact Or.inl old
    · exact Or.inr (List.mem_singleton.mp new)
  · exact Or.inl member

theorem Server.Apart.datagram (apart : s.Apart) (c : ClientId)
    (bytes : List UInt8) : (s.step crypto (.datagram c bytes)).Apart := by
  have keeps : ∀ other data, (s.slots other).Sent data →
      ((s.step crypto (.datagram c bytes)).slots other).Sent data := by
    intro other data sent
    by_cases same : other = c
    · subst same
      obtain ⟨whole, member, ends⟩ := sent
      refine ⟨whole, ?_, ends⟩
      simp [Server.step, Slot.accept, member]
    · simpa [Server.step, same] using sent
  constructor
  · intro other message member
    by_cases same : other = c
    · subst same
      simp only [Server.step, Function.update_self, Slot.accept]
        at member ⊢
      rcases mem_writeToPipe member with old | new
      · rcases apart.pipes other message old with none | sent
        · exact Or.inl none
        · exact Or.inr (List.mem_append_left _ sent)
      · apply Or.inr
        rw [new]
        simp
    · simp only [Server.step, Function.update_of_ne same] at member ⊢
      exact apart.pipes other message member
  · intro other by_
    exact keeps other _ (apart.parked other by_)
  · intro request member
    rcases apart.requests request member with none | sent
    · exact Or.inl none
    · exact Or.inr (keeps _ _ sent)

/-- The bytes of a turn are parked ones of the client, or its datagram. -/
theorem Server.Apart.data {cfg : MonitorCfg} {mbuf : Memory}
    {message : List UInt8} {pipe : List (List UInt8)} {r : Received}
    (apart : s.Apart) (own : Own s (.input c cfg mbuf))
    (next : (s.slots c).pipe = message :: pipe)
    (received : monitorRecv crypto cfg (s.slots c).cl s.bbuf
      (processClientPipe mbuf message) = some r) :
    (r.data = [] ∨ (s.slots c).Sent r.data) ∧ r.bbuf <:+ r.data := by
  obtain ⟨parkedOwn, fits⟩ := own
  obtain ⟨found, suffix⟩ := monitorRecv_parks received
  refine ⟨?_, suffix⟩
  unfold monitorData at found
  split at found
  · by_cases short : message.length + 3 ≤ mbufSize
    · rw [recvFromUdpipe_processClientPipe short] at found
      rw [← Option.some.inj found]
      rcases apart.pipes c message (by simp [next]) with none | sent
      · exact Or.inl none
      · exact Or.inr ⟨message, sent, List.suffix_rfl⟩
    · -- the buffer is as it was
      have other := (fits message (by simp [next])).resolve_left short
      rw [processClientPipe, if_neg short, recvFromUdpipe, if_pos other]
        at found
      cases found
  · rename_i some
    rw [← Option.some.inj found]
    rcases parkedOwn with none | own
    · rw [none] at some
      exact absurd rfl some
    · exact Or.inr (apart.parked c own)

/-- A turn either ends the thread, or leaves what `monitor_recv` returned. -/
structure Turned (crypto : Crypto) (c : ClientId) (cfg : MonitorCfg)
    (mbuf : Memory) (slot : Slot) (bbuf message : List UInt8)
    (pipe : List (List UInt8)) (turn : Turn) : Prop where
  sent : turn.slot.sent = slot.sent
  pipes : ∀ other ∈ turn.slot.pipe, other ∈ pipe ∨ other = []
  received : turn.bbuf = [] ∧ turn.request = none ∨
    ∃ r q, monitorRecv crypto cfg slot.cl bbuf
        (processClientPipe mbuf message) = some r ∧
      turn.bbuf = r.bbuf ∧ turn.request = some q ∧ q.client = c ∧
      q.data = r.data

theorem turned_turn (cfg : MonitorCfg) (mbuf : Memory) (slot : Slot)
    (bbuf message : List UInt8) (pipe : List (List UInt8)) :
    Turned crypto c cfg mbuf slot bbuf message pipe
      (slot.turn crypto c cfg mbuf bbuf message pipe) := by
  unfold Slot.turn
  split
  · constructor
    · rfl
    · exact fun other member => Or.inl member
    · exact Or.inl ⟨rfl, rfl⟩
  · rename_i r received
    constructor
    · rfl
    · intro other member
      dsimp only at member
      split at member
      · exact Or.inl member
      · exact mem_writeToPipe member
    · exact Or.inr ⟨r, _, received, rfl, rfl, rfl, rfl⟩

theorem Server.Apart.input {cfg : MonitorCfg} {mbuf : Memory}
    (apart : s.Apart) (own : Own s (.input c cfg mbuf)) :
    (s.step crypto (.input c cfg mbuf)).Apart := by
  unfold Server.step Slot.input
  dsimp only
  split
  · exact apart
  · rename_i turn taken
    split at taken
    · rename_i message pipe _ next
      rw [← Option.some.inj taken]
      have turned := @turned_turn crypto c cfg mbuf (s.slots c) s.bbuf message
        pipe
      generalize (s.slots c).turn crypto c cfg mbuf s.bbuf message pipe = turn
        at turned
      have sent : ∀ other,
          (Function.update s.slots c turn.slot other).sent =
            (s.slots other).sent := by
        intro other
        by_cases same : other = c
        · rw [same, Function.update_self, turned.sent]
        · rw [Function.update_of_ne same]
      have own_ : turn.bbuf ≠ [] → (s.slots c).Sent turn.bbuf := by
        intro some
        rcases turned.received with ⟨none, _⟩ | ⟨r, q, received, eq, _⟩
        · exact absurd none some
        · obtain ⟨data, suffix⟩ := apart.data own next received
          rw [eq] at some ⊢
          rcases data with none | sent
          · rw [none, List.suffix_nil] at suffix
            exact absurd suffix some
          · exact sent.suffix suffix
      constructor
      · intro other waiting member
        dsimp only at member ⊢
        rw [sent]
        by_cases same : other = c
        · subst same
          rw [Function.update_self] at member
          rcases turned.pipes waiting member with old | none
          · exact apart.pipes other waiting
              (next ▸ List.mem_cons_of_mem _ old)
          · exact Or.inl none
        · rw [Function.update_of_ne same] at member
          exact apart.pipes other waiting member
      · intro other parked
        dsimp only at parked ⊢
        split at parked
        · cases parked
        · rename_i some
          cases parked
          unfold Slot.Sent
          rw [sent]
          exact own_ (by simpa using some)
      · intro request member
        unfold Slot.Sent
        rw [sent]
        rcases List.mem_append.mp member with old | new
        · exact apart.requests request old
        · rcases turned.received with ⟨_, none⟩ | ⟨r, q, received, _, eq, by_,
            data⟩
          · rw [none] at new
            cases new
          · rw [eq, Option.toList_some, List.mem_singleton] at new
            rw [new, by_, data]
            exact (apart.data own next received).1
    · cases taken

theorem Server.Apart.start (ips : ClientId → Nat) : (Server.start ips).Apart := by
  constructor
  · intro c message none
    cases none
  · intro c none
    cases none
  · intro request none
    cases none

theorem Server.Apart.step (apart : s.Apart) {event : Event}
    (own : Own s event) : (s.step crypto event).Apart := by
  cases event with
  | datagram c bytes => exact apart.datagram c bytes
  | input c cfg mbuf => exact apart.input own

/-! ## A client does not depend on the others -/

theorem input_client {cfg : MonitorCfg} {mbuf : Memory} {slot : Slot}
    {bbuf : List UInt8} {turn : Turn} {request : Request}
    (taken : slot.input crypto c cfg mbuf bbuf = some turn)
    (asked : turn.request = some request) : request.client = c := by
  unfold Slot.input at taken
  split at taken
  · rename_i message pipe _ _
    rw [← Option.some.inj taken] at asked
    have turned := @turned_turn crypto c cfg mbuf slot bbuf message pipe
    rcases turned.received with ⟨_, none⟩ | ⟨_, q, _, _, eq, by_, _⟩
    · rw [none] at asked
      cases asked
    · rw [eq] at asked
      rw [← Option.some.inj asked]
      exact by_
  · cases taken

/-- What is parked for a client. -/
def Server.parkedFor (s : Server) (c : ClientId) : List UInt8 :=
  if s.parkedBy = some c then s.bbuf else []

/-- A client is in the same state in two runs. -/
structure Alike (c : ClientId) (s t : Server) : Prop where
  slot : s.slots c = t.slots c
  parked : s.parkedFor c = t.bbuf
  requests : s.requestsOf c = t.requestsOf c

/-- What a turn leaves, as far as one client sees it. -/
theorem alike_own {event : Event} (alike : Alike c s t) (own : Own s event)
    (mine : event.client = c) :
    Alike c (s.step crypto event) (t.step crypto event) := by
  cases event with
  | datagram other bytes =>
      have mine : other = c := mine
      subst mine
      constructor
      · simp [Server.step, alike.slot]
      · exact alike.parked
      · exact alike.requests
  | input other cfg mbuf =>
      have mine : other = c := mine
      subst mine
      have same : s.bbuf = t.bbuf := by
        rw [← alike.parked, Server.parkedFor]
        rcases own.1 with none | mine
        · rw [none, ite_self]
        · rw [if_pos mine]
      unfold Server.step
      dsimp only
      rw [alike.slot, same]
      split
      · exact alike
      · rename_i turn _
        constructor
        · simp
        · unfold Server.parkedFor
          cases turn.bbuf with
          | nil => simp
          | cons byte bytes => simp
        · have before := alike.requests
          unfold Server.requestsOf at before ⊢
          rw [List.filter_append, List.filter_append, before]

theorem alike_other {event : Event} (alike : Alike c s t) (own : Own s event)
    (other : event.client ≠ c) : Alike c (s.step crypto event) t := by
  cases event with
  | datagram d bytes =>
      constructor
      · rw [← alike.slot]
        exact Function.update_of_ne (Ne.symm other) _ _
      · exact alike.parked
      · exact alike.requests
  | input d cfg mbuf =>
      have apart : d ≠ c := other
      unfold Server.step
      dsimp only
      split
      · exact alike
      · rename_i turn taken
        constructor
        · rw [← alike.slot]
          exact Function.update_of_ne (Ne.symm apart) _ _
        · -- nothing was parked for the client, and nothing is
          have before : s.parkedFor c = [] := by
            unfold Server.parkedFor
            rcases own.1 with none | mine
            · rw [none, ite_self]
            · rw [mine, if_neg (by simpa using apart)]
          rw [← alike.parked, before]
          unfold Server.parkedFor
          dsimp only
          cases turn.bbuf with
          | nil => simp
          | cons byte bytes => simp [apart]
        · rw [← alike.requests]
          unfold Server.requestsOf
          rw [List.filter_append]
          have others : turn.request.toList.filter (·.client == c) = [] := by
            apply List.filter_eq_nil_iff.mpr
            intro request member
            have by_ := input_client taken (Option.mem_toList.mp member)
            simp [by_, apart]
          rw [others, List.append_nil]

theorem alike_run {events : List Event} (alike : Alike c s t)
    (own : Along (Server.step crypto) Own s events) :
    Alike c (events.foldl (Server.step crypto) s)
      ((events.filter (·.client == c)).foldl (Server.step crypto) t) := by
  induction events generalizing s t with
  | nil => exact alike
  | cons event events induction =>
      obtain ⟨now, later⟩ := own
      by_cases mine : event.client = c
      · rw [List.filter_cons_of_pos (by simpa using mine)]
        exact induction (alike_own alike now mine) later
      · rw [List.filter_cons_of_neg (by simpa using mine)]
        exact induction (alike_other alike now mine) later

/-- In a run of which each step is the client's own, every request is made of
bytes that its client sent, and the requests of each client are those of the
run of this client alone. -/
theorem requests_own (crypto : Crypto) (ips : ClientId → Nat)
    {events : List Event}
    (own : Along (Server.step crypto) Own (Server.start ips) events) :
    let s := events.foldl (Server.step crypto) (Server.start ips)
    (∀ request ∈ s.requests,
      request.data = [] ∨ (s.slots request.client).Sent request.data) ∧
    ∀ c, s.requestsOf c =
      ((events.filter (·.client == c)).foldl (Server.step crypto)
        (Server.start ips)).requestsOf c := by
  constructor
  · have reached := Reach.ofRun own
    have apart : (events.foldl (Server.step crypto)
        (Server.start ips)).Apart := by
      apply reached.invariant
      · rintro _ rfl
        exact Server.Apart.start ips
      · exact fun s event apart own => apart.step own
    exact apart.requests
  · intro c
    have start : Alike c (Server.start ips) (Server.start ips) := by
      constructor
      · rfl
      · rfl
      · rfl
    exact (alike_run start own).requests

/-! Two clients with their accounts, of which the second one has all
rights. -/

def account (usr pwd : String) (monlvl : Nat) : Account :=
  { usr := ascii usr, pwd := ascii pwd, monlvl := monlvl, disabled := false
    dyndns := false, dynip := 0 }

def monitorCfg : MonitorCfg :=
  { account := [account "guest" "guest" 1, account "admin" "secret" 4]
    monAllowed := [(1, 2)] }

/-- A client takes a message, with an empty buffer. -/
def takes (c : ClientId) : Event := .input c monitorCfg Memory.zero

def noCrypto : Crypto :=
  { aesDecrypt := fun _ data => data, crc32 := fun _ => [0, 0, 0, 0]
    md5 := id }

/-- Two lines in one datagram. -/
def twoLines : List Event :=
  [.datagram 1 (ascii "login guest guest\nstatus"), takes 1, takes 1,
    .datagram 2 (ascii "login admin secret"), takes 2]

theorem requests_own_two :
    let s := twoLines.foldl (Server.step noCrypto) (Server.start id)
    (∀ request ∈ s.requests,
      request.data = [] ∨ (s.slots request.client).Sent request.data) ∧
    ∀ c, s.requestsOf c =
      ((twoLines.filter (·.client == c)).foldl (Server.step noCrypto)
        (Server.start id)).requestsOf c := by
  apply requests_own
  decide +kernel

/-- The second line of the first client, between its two turns. -/
def stolenLine : List Event :=
  [.datagram 2 (ascii "login admin secret"), takes 2,
    .datagram 1 (ascii "login guest guest\nshutdown"), takes 1,
    .datagram 2 (ascii "status"), takes 2]

/-- The second client executes what the first one sent. -/
theorem request_stolen :
    ¬ ∀ request ∈ (stolenLine.foldl (Server.step noCrypto)
        (Server.start id)).requests,
      request.data = [] ∨
        ((stolenLine.foldl (Server.step noCrypto)
          (Server.start id)).slots request.client).Sent request.data := by
  intro own
  have executed : ∃ request ∈ (stolenLine.foldl (Server.step noCrypto)
      (Server.start id)).requests, request.client = 2 ∧
        request.data = ascii "shutdown" ∧
        request.executed = some { cmd := .shutdown, arg := none } := by
    decide +kernel
  obtain ⟨request, member, client, data, _⟩ := executed
  have sent : ((stolenLine.foldl (Server.step noCrypto)
      (Server.start id)).slots 2).sent =
        [ascii "login admin secret", ascii "status"] := by
    decide +kernel
  rcases own request member with none | ⟨bytes, inside, ends⟩
  · rw [data] at none
    exact absurd none (by decide)
  · rw [client, sent] at inside
    rw [data] at ends
    have apart : ∀ bytes ∈ [ascii "login admin secret", ascii "status"],
        ¬ ascii "shutdown" <:+ bytes := by decide +kernel
    exact apart bytes inside ends

end Oscam.Monitor
