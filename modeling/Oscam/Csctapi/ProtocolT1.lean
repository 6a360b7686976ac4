import Oscam.Csctapi.T1Block

/-!
# Commands to a T=1 card

`Protocol_T1_Command` sends a command in a chain of I-blocks and puts the
response together from the I-blocks of the card.  The macro `call` around some
of the transmissions only reports an error.
-/

namespace Oscam.T1

/-- What `Protocol_T1_Command` returns; `crash` where it uses a block or an
information field that is not there. -/
inductive Ret where
  | ok (rsp : Option (List UInt8))
  | error
  | crash
  deriving DecidableEq

/-- The fields of the reader for T=1. -/
structure Reader where
  ns : UInt8
  ifsc : UInt16

/-- The blocks that were exchanged, and the send sequence number. -/
structure Exchange where
  ns : UInt8
  sent : List Block
  received : List Block

structure Outcome where
  ret : Ret
  exchange : Exchange

/-! ## One block -/

/-- `Protocol_T1_ReceiveBlock` on the bytes of the line: four bytes, and as many
more as the third of them says. -/
def receiveBlock (line : List UInt8) : Option (Block × List UInt8) :=
  if enough : (line.getD 2 0).toNat + 4 ≤ line.length then
    some
      ({ data := line.take ((line.getD 2 0).toNat + 4)
         whole := by
          have third : (line.take ((line.getD 2 0).toNat + 4)).getD 2 0 =
              line.getD 2 0 := by
            simp [List.getD_eq_getElem?_getD]
          rw [third, List.length_take, Nat.min_eq_left enough] },
        line.drop ((line.getD 2 0).toNat + 4))
  else none

/-- The blocks on the line, up to one that is not whole. -/
def receiveBlocks : Nat → List UInt8 → List Block
  | 0, _ => []
  | fuel + 1, line =>
      match receiveBlock line with
      | none => []
      | some (block, line) => block :: receiveBlocks fuel line

theorem receiveBlock_data (block : Block) (line : List UInt8) :
    receiveBlock (block.data ++ line) = some (block, line) := by
  obtain ⟨data, whole⟩ := block
  have third : (data ++ line).getD 2 0 = data.getD 2 0 :=
    List.getD_append _ _ _ _ (by omega)
  have enough : ((data ++ line).getD 2 0).toNat + 4 ≤ (data ++ line).length := by
    rw [third, List.length_append]
    omega
  unfold receiveBlock
  rw [dif_pos enough]
  simp only [third, ← whole, List.take_left', List.drop_left']

/-- Every sequence of blocks can come from the card. -/
theorem receiveBlocks_data (blocks : List Block) {fuel : Nat}
    (enough : blocks.length ≤ fuel) :
    receiveBlocks fuel (blocks.flatMap Block.data) = blocks := by
  induction blocks generalizing fuel with
  | nil =>
      cases fuel with
      | zero => rfl
      | succ fuel => rfl
  | cons block blocks induction =>
      cases fuel with
      | zero => cases enough
      | succ fuel =>
          rw [List.length_cons] at enough
          rw [List.flatMap_cons]
          unfold receiveBlocks
          rw [receiveBlock_data]
          exact congrArg (block :: ·) (induction (by omega))

namespace Exchange

/-- The block that goes to `ICC_Async_Transmit`. -/
def send (s : Exchange) (block : Block) : Exchange :=
  { s with sent := s.sent ++ [block] }

def receive (s : Exchange) (block : Block) : Exchange :=
  { s with received := s.received ++ [block] }

/-- The toggle from 0 to 1 and back. -/
def toggle (ns : UInt8) : UInt8 := if ns = 1 then 0 else 1

end Exchange

open Exchange (toggle)

/-! ## The response -/

section

-- whether `ICC_Async_Transmit` succeeds for each block
variable (transmits : Nat → Bool)

/-- The loop that receives the response.  The buffer keeps its bytes when
`realloc` moves it. -/
def respond : List Block → Exchange → Memory → Nat → Outcome
  | [], s, _, _ => { ret := .error, exchange := s }
  | block :: incoming, s, buffer, counter =>
      let s := s.receive block
      if block.getType = typeI then
        let nr := (block.getNS + 1) % 2
        let bytes := block.getLen
        let buffer := buffer.write counter block.getInf
        let counter := (counter + bytes.toNat) % 2 ^ 16
        if block.getMore then
          if transmits s.sent.length then
            respond incoming (s.send (.newRBlock typeROk nr)) buffer counter
          else { ret := .error, exchange := s.send (.newRBlock typeROk nr) }
        else { ret := .ok (some (buffer.read 0 counter)), exchange := s }
      else if block.getType = typeSWtxReq then
        match block.getInf with
        | [] => { ret := .crash, exchange := s }
        | wtx :: _ =>
            let answer := Block.newSBlock typeSWtxRes 1 (Memory.zero.write 0 [wtx])
            if transmits s.sent.length then
              respond incoming (s.send answer) buffer counter
            else { ret := .error, exchange := s.send answer }
      else { ret := .error, exchange := s }

/-! ## The command -/

/-- The loop that sends the chained blocks, with the counter and the length of
the block before. -/
def sendChain (command : Memory) (commandLen ifsc : Nat) (heap : Memory) :
    List Block → Exchange → Nat → UInt8 → Bool → Outcome
  | incoming, s, _, _, false => respond transmits incoming s heap 0
  | [], s, _, _, true => { ret := .crash, exchange := s }
  | block :: incoming, s, counter, bytes, true =>
      let s := s.receive block
      if block.getType = typeROk then
        let s := { s with ns := toggle s.ns }
        let counter := (counter + bytes.toNat) % 2 ^ 16
        let bytes := UInt8.ofNat (min (commandLen - counter) ifsc)
        let more := decide (ifsc < commandLen - counter)
        let iBlock := Block.newIBlock bytes (command.shift counter) s.ns more
        sendChain command commandLen ifsc heap incoming (s.send iBlock) counter
          bytes more
      else { ret := .error, exchange := s }

/-- A request in an S-block, and its answer. -/
def sRequest (block : Block) (answered : Block → Exchange → Outcome)
    (s : Exchange) : List Block → Outcome
  | [] => { ret := .error, exchange := s.send block }
  | answer :: _ => answered answer ((s.send block).receive answer)

/-- The answer to an IFS request, of which the information is looked at. -/
def ifsAnswered (answer : Block) (s : Exchange) : Outcome :=
  if answer.getType = typeSIfsRes ∧ answer.getInf = [] then
    { ret := .crash, exchange := s }
  else { ret := .ok none, exchange := s }

def resynchAnswered (answer : Block) (s : Exchange) : Outcome :=
  { ret := .ok none
    exchange :=
      if answer.getType = typeSResynchRes then { s with ns := 0 } else s }

/-- `Protocol_T1_Command`: the command, the blocks that come from the card, and
what is in memory that `realloc` gives. -/
def protocolT1Command (reader : Reader) (command : Memory) (commandLen : Nat)
    (heap : Memory) (incoming : List Block) : Outcome :=
  let s := { ns := reader.ns, sent := [], received := [] }
  if command 1 = typeSIfsReq then
    sRequest (.newSBlock typeSIfsReq 1 (command.shift 3)) ifsAnswered s incoming
  else if command 1 = typeSResynchReq then
    sRequest (.newSBlock typeSResynchReq 0 Memory.zero) resynchAnswered s
      incoming
  else
    let ifsc := reader.ifsc.toNat
    let bytes := UInt8.ofNat (min commandLen ifsc)
    let more := decide (ifsc < commandLen)
    let s := { s with ns := toggle s.ns }
    sendChain transmits command commandLen ifsc heap incoming
      (s.send (.newIBlock bytes command s.ns more)) 0 bytes more

/-- A command with the bytes that are on the line. -/
def runCommand (reader : Reader) (command : Memory) (commandLen : Nat)
    (heap : Memory) (line : List UInt8) : Outcome :=
  protocolT1Command transmits reader command commandLen heap
    (receiveBlocks line.length line)

end

end Oscam.T1
