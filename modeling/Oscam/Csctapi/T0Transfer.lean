import Oscam.Csctapi.T0Exchange

/-!
# What a TPDU transfers

The response of a TPDU against what the card said: the data bytes and the
status bytes that were received, and the data that were asked for.
-/

namespace Oscam.T0

/-! ## The data that are sent -/

namespace Exchange

variable {inverse : Bool} {tpdu : Tpdu} {s s' e : Exchange}

/-- The card has asked for all the data, at once or byte by byte. -/
def AskedAll (tpdu : Tpdu) (s : Exchange) : Prop :=
  .ack ∈ s.asked ∨ tpdu.lc ≤ s.asked.count .complement

/-- The data go out in order, as many bytes as are asked for. -/
structure Sent (tpdu : Tpdu) (s : Exchange) : Prop where
  data : s.transmitted = tpdu.data.take s.sent
  asked : s.sent = tpdu.lc ∨
    .ack ∉ s.asked ∧ s.asked.count .complement = s.sent

theorem sent_start (tpdu : Tpdu) (buffer : Memory) (line : List UInt8) :
    Sent tpdu (start buffer line) where
  data := rfl
  asked := .inr ⟨nofun, rfl⟩

theorem Moved.sent {said : Procedure} (moved : Moved inverse tpdu s s' said)
    (sends : tpdu.sends = true) (sent : s.Sent tpdu) : s'.Sent tpdu where
  data := by
    rw [(moved.gone sends).transmitted, (moved.gone sends).sent, sent.data]
    exact List.take_add.symm
  asked := by
    rw [moved.asked, (moved.gone sends).sent]
    have more := (moved.gone sends).more
    rcases moved.goes with rfl | rfl | rfl
    · simpa [Tpdu.out] using sent.asked
    · have more := more nofun
      exact .inl (Nat.add_sub_of_le (Nat.le_of_lt more))
    · have more := more nofun
      rcases sent.asked with all | ⟨none, count⟩
      · omega
      · right
        simpa [Tpdu.out, count] using none

theorem Ended.keeps_sent (ended : Ended inverse tpdu s e) (sent : s.Sent tpdu) :
    e.Sent tpdu where
  data := by rw [ended.transmitted, ended.sent, sent.data]
  asked := by rw [ended.sent, ended.asked]; exact sent.asked

theorem sent_of_loop {fuel : Nat} (sends : tpdu.sends = true)
    (quiet : s.recv = 0) (sent : s.Sent tpdu)
    (ends : s.loop inverse tpdu fuel = .ended e) : e.Sent tpdu := by
  induction fuel generalizing s with
  | zero => cases ends
  | succ fuel induction =>
      rcases loop_ended ends with ⟨-, rfl⟩ | ⟨-, ended | ⟨s', moves, ends⟩⟩
      · exact sent
      · exact ended.keeps_sent sent
      · obtain ⟨said, moved⟩ := round_again (fun _ => quiet) moves
        exact induction (moved.quiet (fun _ => quiet) sends)
          (moved.sent sends sent) ends

theorem Sent.prefix_data (sent : s.Sent tpdu) :
    s.transmitted <+: tpdu.data := by
  rw [sent.data]
  exact List.take_prefix _ _

theorem Sent.all (sent : s.Sent tpdu) (asked : s.AskedAll tpdu) :
    s.transmitted = tpdu.data := by
  have all : tpdu.lc ≤ s.sent := by
    rcases sent.asked with all | ⟨none, count⟩
    · exact Nat.le_of_eq all.symm
    · rcases asked with ack | enough
      · exact absurd ack none
      · exact count ▸ enough
  rw [sent.data]
  exact List.take_of_length_le (tpdu.whole ▸ all)

end Exchange

/-! ## The response -/

variable {reader : Reader} {fuel : Nat} {tpdu : Tpdu} {command : List UInt8}
  {s : Session} {rsp : Response} {e : Exchange}

/-- The response is what the card said: the data bytes that were received in
their order, and its status bytes.  The data that were to be sent went out
once and in order, all of them if they were asked for. -/
structure Faithful (tpdu : Tpdu) (e : Exchange) (rsp : Response) : Prop where
  long : 2 ≤ rsp.lr
  both : e.status.length = 2
  status : rsp.bytes.drop (rsp.lr - 2) = e.status
  received : rsp.bytes.take (rsp.lr - 2) = e.received
  inOrder : tpdu.sends = true → e.transmitted <+: tpdu.data
  all : tpdu.sends = true → e.AskedAll tpdu → e.transmitted = tpdu.data

theorem exchange_of_ok {o : Outcome}
    (returns : protocolT0ExchangeTPDU reader fuel command rsp s = o)
    (ok : o.ret = .ok) :
    ∃ tpdu e, tpduOf command = some tpdu ∧
      exchange reader fuel tpdu command s = .ended e ∧
        o = { ret := .ok
              rsp := rsp.reset.put e.rsp
              session := (s.after command e).wrote 0 e.recv } := by
  subst returns
  unfold protocolT0ExchangeTPDU at ok ⊢
  dsimp only at ok ⊢
  split at ok
  · cases ok
  · rename_i tpdu short
    split at ok
    · cases ok
    · cases ok
    · rename_i e ends
      exact ⟨tpdu, e, short, ends, rfl⟩

@[simp] theorem Response.bytes_put (rsp : Response) (bytes : List UInt8) :
    (rsp.put bytes).bytes = bytes :=
  Memory.read_write rsp.memory 2 bytes

theorem Exchange.length_rsp (e : Exchange) : e.rsp.length = e.recv :=
  Memory.length_read e.buffer 0 e.recv

/-- An exchange that returns well is faithful exactly if the line goes on as
T=0 wants it: all the rest is promised only while no more than `Le` data bytes
were received, the status bytes come before the buffer is full, and both of
them come. -/
theorem exchange_faithful_iff (short : tpduOf command = some tpdu)
    (ok : (protocolT0ExchangeTPDU reader fuel command rsp s).ret = .ok) :
    Faithful tpdu (exchange reader fuel tpdu command s).state
        (protocolT0ExchangeTPDU reader fuel command rsp s).rsp ↔
      ∃ sw1 sw2 rest data, tpdu.Heard sw1 sw2 rest 0
        (s.line ++ reader.card (s.tpdus ++ [command])) data := by
  obtain ⟨_, e, short', ends, outcome⟩ := exchange_of_ok rfl ok
  cases short.symm.trans short'
  rw [outcome, ends]
  show Faithful tpdu e (rsp.reset.put e.rsp) ↔ _
  have quiet (_ : tpdu.sends = true) :
      (Exchange.start (reader.buffer s.tpdus.length)
        (s.line ++ reader.card (s.tpdus ++ [command]))).recv = 0 := rfl
  constructor
  · intro faithful
    have length := congrArg List.length faithful.received
    rw [Response.bytes_put, List.length_take] at length
    have long := faithful.long
    have size : (rsp.reset.put e.rsp).lr = e.recv := e.length_rsp
    rw [size] at long length
    rw [e.length_rsp] at length
    exact Exchange.heard_of_read rfl rfl quiet ends faithful.both (by omega)
  · rintro ⟨sw1, sw2, rest, data, heard⟩
    have read := Exchange.read_of_heard heard rfl rfl (Nat.zero_lt_succ 257) rfl
      quiet ends
    have length : (rsp.reset.put e.rsp).lr = e.received.length + 2 := by
      show e.rsp.length = _
      rw [read.rsp, read.status]
      simp
    have sent (sends : tpdu.sends = true) : e.Sent tpdu :=
      Exchange.sent_of_loop sends rfl (Exchange.sent_start ..) ends
    exact
      { long := by omega
        both := by rw [read.status]; rfl
        status := by
          rw [Response.bytes_put, length, read.rsp, Nat.add_sub_cancel,
            List.drop_left]
        received := by
          rw [Response.bytes_put, length, read.rsp, Nat.add_sub_cancel,
            List.take_left]
        inOrder := fun sends => (sent sends).prefix_data
        all := fun sends asked => (sent sends).all asked }

/-- A reader whose stack is clear, for a card with the direct convention that
sends the same bytes after every TPDU. -/
def clearReader (line : List UInt8) : Reader where
  inverse := false
  card := fun _ => line
  buffer := fun _ => Memory.zero
  case2E := Memory.zero
  case3E := Memory.zero
  case4E := Memory.zero

/-- One byte is read, and all goes well. -/
theorem readRecord_faithful :
    let reader := clearReader [0xB2, 0xAA, 0x90, 0x00]
    let command := [0x00, 0xB2, 0x01, 0x04, 0x01]
    ∃ tpdu, tpduOf command = some tpdu ∧
      Faithful tpdu (exchange reader 3 tpdu command .start).state
        (protocolT0ExchangeTPDU reader 3 command
          { memory := Memory.zero, lr := 0 } .start).rsp := by
  refine ⟨_, rfl, ?_⟩
  refine (exchange_faithful_iff rfl rfl).mpr ⟨0x90, 0x00, [], [0xAA] ++ [], ?_⟩
  exact @Tpdu.Heard.step _ _ _ _ _ _ [0xAA] _ _ (Nat.zero_le 1) rfl
    (.status rfl)

/-- When the card falls silent after SW1, the response ends with a byte of the
stack. -/
theorem silent_not_faithful :
    let reader := clearReader [0xB2, 0xAA, 0x90]
    let command := [0x00, 0xB2, 0x01, 0x04, 0x01]
    let o := protocolT0ExchangeTPDU reader 3 command
      { memory := Memory.zero, lr := 0 } .start
    o.ret = .ok ∧ o.rsp.bytes = [0xAA, 0x90, 0x00] ∧
      ∃ tpdu, tpduOf command = some tpdu ∧
        ¬ Faithful tpdu (exchange reader 3 tpdu command .start).state
          o.rsp := by
  refine ⟨rfl, rfl, _, rfl, ?_⟩
  intro faithful
  exact absurd faithful.both (by decide)

end Oscam.T0
