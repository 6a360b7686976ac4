import Oscam.Lib.Memory

/-!
# Commands to a T=0 card

`Protocol_T0_Command` takes an APDU apart into TPDUs, and
`Protocol_T0_ExchangeTPDU` follows the procedure bytes of the card for each of
them.  The macro `call` around the transmissions only reports an error, so a
read that comes up short leaves what was in the buffer.
-/

namespace Oscam.T0

/-! ## APDUs -/

inductive ApduCase where
  | case1
  | case2S
  | case3S
  | case4S
  | case2E
  | case3E
  | case4E
  | malformed
  deriving DecidableEq

/-- The two bytes behind a zero in the place of the length. -/
def extendedLength (command : List UInt8) : Nat :=
  (command.getD 5 0).toNat * 256 + (command.getD 6 0).toNat

/-- `APDU_Cmd_Case` -/
def apduCmdCase (command : List UInt8) : ApduCase :=
  let l := command.length - 4
  let b1 := (command.getD 4 0).toNat
  let b2b3 := extendedLength command
  if l = 0 then .case1
  else if b1 ≠ 0 ∧ l = b1 + 1 then .case2S
  else if l = 1 then .case3S
  else if b1 ≠ 0 ∧ l = b1 + 2 then .case4S
  else if b1 = 0 ∧ 2 < l then
    if b2b3 ≠ 0 ∧ l = b2b3 + 3 then .case2E
    else if l = 3 then .case3E
    else if b2b3 ≠ 0 ∧ l = b2b3 + 5 then .case4E
    else .malformed
  else .malformed

theorem length_of_case2S {command : List UInt8}
    (case2S : apduCmdCase command = .case2S) :
    command.length = (command.getD 4 0).toNat + 5 := by
  unfold apduCmdCase at case2S
  grind

/-- A command that `Protocol_T0_ExchangeTPDU` takes: it sends `Lc` bytes, or
`Le` bytes are received. -/
structure Tpdu where
  ins : UInt8
  sends : Bool
  lc : Nat
  le : Nat
  data : List UInt8
  few : lc < 256
  short : le < 256
  nothing : sends = true → le = 0
  whole : data.length = lc

def tpduOf (command : List UInt8) : Option Tpdu :=
  if case2S : apduCmdCase command = .case2S then
    some
      { ins := command.getD 1 0
        sends := true
        lc := (command.getD 4 0).toNat
        le := 0
        data := command.drop 5
        few := (command.getD 4 0).toNat_lt
        short := Nat.zero_lt_succ 255
        nothing := fun _ => rfl
        whole := by
          rw [List.length_drop, length_of_case2S case2S, Nat.add_sub_cancel] }
  else if apduCmdCase command = .case3S then
    some
      { ins := command.getD 1 0
        sends := false
        lc := 0
        le := (command.getD 4 0).toNat
        data := []
        few := Nat.zero_lt_succ 255
        short := (command.getD 4 0).toNat_lt
        nothing := nofun
        whole := rfl }
  else none

/-! ## The exchange of a TPDU -/

/-- `PROTOCOL_T0_MAX_NULLS` -/
abbrev maxNulls : Nat := 200

/-- `PROTOCOL_T0_MAX_SHORT_RESPONSE`, the size of `buffer`. -/
abbrev maxShortResponse : Nat := 258

/-- Bytes that are written to an array. -/
structure Write where
  start : Int
  size : Nat
  deriving DecidableEq

/-- `INVERT_BYTE`, the bits in the other order. -/
def invertByte (a : UInt8) : UInt8 :=
  let left (n mask : UInt8) := (a <<< n) &&& mask
  let right (n mask : UInt8) := (a >>> n) &&& mask
  left 7 0x80 ||| left 5 0x40 ||| left 3 0x20 ||| left 1 0x10 |||
    right 1 0x08 ||| right 3 0x04 ||| right 5 0x02 ||| right 7 0x01

section

-- whether the bytes are inverted for the convention of the card; the line has
-- the bytes of the card as they come out of it
variable (inverse : Bool) (m : Memory) (off n : Nat) (line : List UInt8)

/-- `ICC_Async_Receive` of `n` bytes to `m + off`.  Of the bytes that do not
come, `ICC_Async_InvertBuffer` inverse what was there. -/
def icReceive : Memory :=
  let m :=
    if inverse then
      m.write off ((m.read off n).map fun byte => ~~~ invertByte byte)
    else m
  m.write off (line.take n)

def icWrite : Write where
  start := off
  size := if inverse then n else min n line.length

end

/-- What a procedure byte says. -/
inductive Procedure where
  | null
  | sw1
  | ack
  | complement
  | other
  deriving DecidableEq

def procedure (ins byte : UInt8) : Procedure :=
  if byte = 0x60 then .null
  else if byte &&& 0xF0 = 0x60 ∨ byte &&& 0xF0 = 0x90 then .sw1
  else if byte &&& 0x0E = ins &&& 0x0E then .ack
  else if byte &&& 0x0E = ~~~ins &&& 0x0E then .complement
  else .other

/-- The counters of `Protocol_T0_ExchangeTPDU`, and what has passed over the
line: the data that were transmitted behind the header, what the procedure
bytes said, and the bytes of the card that were received as data and as
status. -/
structure Exchange where
  buffer : Memory
  line : List UInt8
  nulls : Nat
  sent : Nat
  recv : Nat
  transmitted : List UInt8
  asked : List Procedure
  received : List UInt8
  status : List UInt8
  writes : List Write

/-- The state with which the loop is gone through again, or left with a
`break` or an error. -/
inductive Next where
  | again (s : Exchange)
  | ended (s : Exchange)
  | error (s : Exchange)

def Next.state : Next → Exchange
  | .again s | .ended s | .error s => s

namespace Exchange

def start (buffer : Memory) (line : List UInt8) : Exchange where
  buffer := buffer
  line := line
  nulls := 0
  sent := 0
  recv := 0
  transmitted := []
  asked := []
  received := []
  status := []
  writes := []

/-- What is copied to `rsp` in the end. -/
def rsp (s : Exchange) : List UInt8 := s.buffer.read 0 s.recv

section

variable (inverse : Bool)

/-- `n` bytes to `buffer + recv` -/
def receive (s : Exchange) (n : Nat) : Exchange :=
  { s with
    buffer := icReceive inverse s.buffer s.recv n s.line
    line := s.line.drop n
    writes := s.writes ++ [icWrite inverse s.recv n s.line] }

def onNull (s : Exchange) : Next :=
  let s := { s with nulls := s.nulls + 1, asked := s.asked ++ [.null] }
  if maxNulls ≤ s.nulls then .error s else .again s

/-- The branch of SW1, which was received as `sw1`. -/
def onStatus (sw1 : List UInt8) (s : Exchange) : Next :=
  let s := { s with recv := s.recv + 1 }
  if maxShortResponse ≤ s.recv then .error s
  else
    let sw2 := s.line.take 1
    let s := s.receive inverse 1
    .ended { s with recv := s.recv + 1, status := sw1 ++ sw2 }

variable (tpdu : Tpdu)

def onAck (s : Exchange) : Next :=
  let s := { s with nulls := 0, asked := s.asked ++ [.ack] }
  if tpdu.sends then
    if tpdu.lc ≤ s.sent then .error s
    else
      let data := (tpdu.data.drop s.sent).take (tpdu.lc - s.sent)
      .again
        { s with sent := tpdu.lc, transmitted := s.transmitted ++ data }
  else if maxShortResponse ≤ s.recv then .error s
  else
    let n := tpdu.le - s.recv
    let data := s.line.take n
    let s := s.receive inverse n
    .again { s with recv := tpdu.le, received := s.received ++ data }

def onComplement (s : Exchange) : Next :=
  let s := { s with nulls := 0, asked := s.asked ++ [.complement] }
  if tpdu.sends then
    if tpdu.lc ≤ s.sent then .error s
    else
      let data := (tpdu.data.drop s.sent).take 1
      .again
        { s with sent := s.sent + 1, transmitted := s.transmitted ++ data }
  else if maxShortResponse ≤ s.recv then .error s
  else
    let data := s.line.take 1
    let s := s.receive inverse 1
    .again { s with recv := s.recv + 1, received := s.received ++ data }

/-- One procedure byte and what follows from it. -/
def round (s : Exchange) : Next :=
  let heard := s.line.take 1
  let s := s.receive inverse 1
  match procedure tpdu.ins (s.buffer s.recv) with
  | .null => s.onNull
  | .sw1 => s.onStatus inverse heard
  | .ack => s.onAck inverse tpdu
  | .complement => s.onComplement inverse tpdu
  | .other => .error s

/-- The loop, for so many rounds. -/
def loop : Nat → Exchange → Next
  | 0, s => .again s
  | fuel + 1, s =>
      if s.recv < maxShortResponse then
        match s.round inverse tpdu with
        | .again s => loop fuel s
        | next => next
      else .ended s

end

end Exchange

/-! ## Responses -/

/-- `CTA_RES_LEN`, the size of `rsp` and of every `tpdu_rsp`. -/
abbrev ctaResLen : Nat := 512

/-- A response and its length, as the memory from two bytes in front of the
array on. -/
structure Response where
  memory : Memory
  lr : Nat

namespace Response

/-- `rsp[lr - 2]`, in front of the array when the response is empty. -/
def sw1 (rsp : Response) : UInt8 := rsp.memory rsp.lr

/-- `rsp[lr - 1]` -/
def sw2 (rsp : Response) : UInt8 := rsp.memory (rsp.lr + 1)

def bytes (rsp : Response) : List UInt8 := rsp.memory.read 2 rsp.lr

def reset (rsp : Response) : Response := { rsp with lr := 0 }

/-- Bytes that are copied to the front, as the response. -/
def put (rsp : Response) (bytes : List UInt8) : Response :=
  { memory := rsp.memory.write 2 bytes, lr := bytes.length }

/-- Bytes that are copied to `rsp + (lr - 2)`, with their length added. -/
def append (rsp : Response) (bytes : List UInt8) : Response :=
  { memory := rsp.memory.write rsp.lr bytes, lr := rsp.lr + bytes.length }

end Response

/-- The line, the TPDUs that were sent, and the writes to the buffers of the
exchanges and to the responses. -/
structure Session where
  line : List UInt8
  tpdus : List (List UInt8)
  buffers : List Write
  responses : List Write

namespace Session

def start : Session where
  line := []
  tpdus := []
  buffers := []
  responses := []

def wrote (s : Session) (start : Int) (size : Nat) : Session :=
  { s with responses := s.responses ++ [{ start := start, size := size }] }

end Session

/-- What a function returns; `running` where it has not returned yet after so
many rounds of its loops. -/
inductive Ret where
  | ok
  | error
  | running
  deriving DecidableEq

structure Outcome where
  ret : Ret
  rsp : Response
  session : Session

/-- `memcpy(rsp, tpdu_rsp, tpdu_lr)` before the end. -/
def copied (rsp tpduRsp : Response) (s : Session) : Outcome where
  ret := .ok
  rsp := rsp.put tpduRsp.bytes
  session := s.wrote 0 tpduRsp.lr

/-- The reader with its card, and what is on the stack where the functions put
their arrays. -/
structure Reader where
  inverse : Bool
  -- what comes from the card after these TPDUs
  card : List (List UInt8) → List UInt8
  -- before each exchange
  buffer : Nat → Memory
  case2E : Memory
  case3E : Memory
  case4E : Memory

section

variable (reader : Reader) (fuel : Nat)

/-- The exchange that begins with the header of a command. -/
def exchange (tpdu : Tpdu) (command : List UInt8) (s : Session) : Next :=
  let tpdus := s.tpdus ++ [command]
  (Exchange.start (reader.buffer s.tpdus.length)
    (s.line ++ reader.card tpdus)).loop reader.inverse tpdu fuel

def Session.after (s : Session) (command : List UInt8) (e : Exchange) :
    Session :=
  { s with
    line := e.line
    tpdus := s.tpdus ++ [command]
    buffers := s.buffers ++ e.writes }

/-- `Protocol_T0_ExchangeTPDU` -/
def protocolT0ExchangeTPDU (command : List UInt8) (rsp : Response)
    (s : Session) : Outcome :=
  let rsp := rsp.reset
  match tpduOf command with
  | none => { ret := .error, rsp := rsp, session := s }
  | some tpdu =>
      match exchange reader fuel tpdu command s with
      | .again e =>
          { ret := .running, rsp := rsp, session := s.after command e }
      | .error e =>
          { ret := .error, rsp := rsp, session := s.after command e }
      | .ended e =>
          { ret := .ok
            rsp := rsp.put e.rsp
            session := (s.after command e).wrote 0 e.recv }

/-! ## Extended APDUs -/

/-- The loop over the envelopes, with the bytes of the APDU that are left. -/
def envelopes (cla : UInt8) :
    Nat → List UInt8 → Response → Response → Session → Outcome
  | 0, _, _, rsp, s => { ret := .ok, rsp := rsp, session := s }
  | rounds + 1, left, tpduRsp, rsp, s =>
      if left = [] then { ret := .ok, rsp := rsp, session := s }
      else
        let n := min 255 left.length
        let o := protocolT0ExchangeTPDU reader fuel
          ([cla, 0xC2, 0, 0] ++ [UInt8.ofNat n] ++ left.take n) tpduRsp s
        if o.ret = .running then { o with rsp := rsp }
        else if o.rsp.sw1 = 0x90 then
          if n < left.length then
            envelopes cla rounds (left.drop n) o.rsp.reset rsp o.session
          else copied rsp o.rsp o.session
        else copied rsp o.rsp o.session

/-- `Protocol_T0_Case2E` -/
def protocolT0Case2E (command : List UInt8) (rsp : Response) (s : Session) :
    Outcome :=
  let lc := extendedLength command
  if lc < 256 then
    protocolT0ExchangeTPDU reader fuel
      (command.take 4 ++ [UInt8.ofNat lc] ++ (command.drop 7).take lc) rsp s
  else
    envelopes reader fuel (command.getD 0 0) command.length command
      { memory := reader.case2E, lr := 0 } rsp s

/-- The loop of `GET RESPONSE`, with `Le` and `Lx`. -/
def getResponses (header : List UInt8) (le lx : Nat) :
    Nat → Response → Response → Session → Outcome
  | 0, _, rsp, s => { ret := .running, rsp := rsp, session := s }
  | rounds + 1, tpduRsp, rsp, s =>
      let lm := le + 2 - rsp.lr
      if 0 < lm then
        let o := protocolT0ExchangeTPDU reader fuel
          (header ++ [UInt8.ofNat (min lm lx)]) tpduRsp s
        if o.ret = .running then { o with rsp := rsp }
        else if ctaResLen < rsp.lr + o.rsp.lr then
          { ret := .error, rsp := rsp, session := o.session }
        else
          getResponses header le lx rounds o.rsp.reset
            (rsp.append o.rsp.bytes)
            (o.session.wrote (rsp.lr - 2) o.rsp.lr)
      else { ret := .ok, rsp := rsp, session := s }

/-- A length of two bytes, where zero stands for 65536. -/
def expected (n : Nat) : Nat := if n = 0 then 65536 else n

/-- `Protocol_T0_Case3E` -/
def protocolT0Case3E (command : List UInt8) (rsp : Response) (s : Session) :
    Outcome :=
  let le := expected (extendedLength command)
  let header := command.take 4
  if le ≤ 256 then
    protocolT0ExchangeTPDU reader fuel (header ++ [UInt8.ofNat le]) rsp s
  else
    let o := protocolT0ExchangeTPDU reader fuel (header ++ [0])
      { memory := reader.case3E, lr := 0 } s
    if o.ret = .running then { o with rsp := rsp }
    else if o.rsp.sw1 = 0x6C then
      protocolT0ExchangeTPDU reader fuel (header ++ [o.rsp.sw2]) rsp o.session
    else
      let c := copied rsp o.rsp o.session
      if o.rsp.sw1 = 0x61 then
        let lx := if o.rsp.sw2 = 0 then 256 else o.rsp.sw2.toNat
        getResponses reader fuel [command.getD 0 0, 0xC0, 0, 0] le lx fuel
          o.rsp c.rsp c.session
      else c

/-- `Le` from the end of the command. -/
def expectedLength (command : List UInt8) : Nat :=
  expected
    ((command.getD (command.length - 2) 0).toNat * 256 +
      (command.getD (command.length - 1) 0).toNat)

/-- The extended `GET RESPONSE` that follows the response to the data, if one
does. -/
def extendedGetResponse (command : List UInt8) (tpduRsp : Response) :
    Option (List UInt8) :=
  let le := expectedLength command
  let cla := command.getD 0 0
  if tpduRsp.sw1 = 0x61 then
    let le := if tpduRsp.sw2 = 0 then le else min tpduRsp.sw2.toNat le
    some [cla, 0xC0, 0, 0, 0, UInt8.ofNat (le / 256), UInt8.ofNat le]
  else if tpduRsp.sw1 &&& 0xF0 = 0x60 then none
  else
    -- the cast in `(BYTE) Le >> 8` comes before the shift
    some [cla, 0xC0, 0, 0, 0, UInt8.ofNat ((UInt8.ofNat le).toNat / 256),
      UInt8.ofNat le]

/-- 4E1 and 4E2, the data of `Protocol_T0_Case4E`. -/
def case4EData (command : List UInt8) (s : Session) : Outcome :=
  let lc := extendedLength command
  let tpduRsp : Response := { memory := reader.case4E, lr := 0 }
  if lc < 256 then
    protocolT0ExchangeTPDU reader fuel
      (command.take 4 ++ [UInt8.ofNat lc] ++ command.take lc) tpduRsp s
  else protocolT0Case2E reader fuel command tpduRsp s

/-- `Protocol_T0_Case4E` -/
def protocolT0Case4E (command : List UInt8) (rsp : Response) (s : Session) :
    Outcome :=
  let o := case4EData reader fuel command s
  if o.ret = .ok then
    match extendedGetResponse command o.rsp with
    | some apdu => protocolT0Case3E reader fuel apdu rsp o.session
    | none => copied rsp o.rsp o.session
  else { o with rsp := rsp }

/-- `Protocol_T0_Command` -/
def protocolT0Command (command : List UInt8) (rsp : Response) (s : Session) :
    Outcome :=
  let rsp := rsp.reset
  if command.length < 5 then { ret := .error, rsp := rsp, session := s }
  else
    match apduCmdCase command with
    | .case2E => protocolT0Case2E reader fuel command rsp s
    | .case3E => protocolT0Case3E reader fuel command rsp s
    | .case4E => protocolT0Case4E reader fuel command rsp s
    | .case4S =>
        protocolT0ExchangeTPDU reader fuel command.dropLast rsp s
    | .case2S | .case3S => protocolT0ExchangeTPDU reader fuel command rsp s
    | _ => { ret := .error, rsp := rsp, session := s }

end

end Oscam.T0
