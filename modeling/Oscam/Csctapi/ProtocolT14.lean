import Oscam.Csctapi.ProtocolT0

/-!
# Commands to a T=14 card

`Protocol_T14_ExchangeTPDU` reads eight bytes, as many more as the last of them
says, and a checksum.
-/

namespace Oscam.T14

open T0 (Write Ret apduCmdCase icReceive icWrite maxShortResponse ctaResLen)

/-- The response, and the writes to `buffer` and to `rsp`. -/
structure Outcome where
  ret : Ret
  rsp : List UInt8
  buffer : List Write
  response : List Write

section

-- `beyondMouse` is `reader->typ > R_MOUSE`; what is in `buffer` before, and
-- the bytes of the card
variable (beyondMouse inverse : Bool) (stack : Memory)
  (command line : List UInt8)

/-- The checksum of the command. -/
def commandXor : UInt8 := command.foldl (· ^^^ ·) 0x3E

/-- `buffer` after the command was sent. -/
def sentBuffer : Memory :=
  if beyondMouse then
    ((stack.write 0 [0x01]).write 1 command).write (command.length + 1)
      [commandXor command]
  else stack

def sentWrites : List Write :=
  if beyondMouse then
    [{ start := 0, size := 1 }, { start := 1, size := command.length },
      { start := command.length + 1, size := 1 }]
  else []

/-- `buffer` with the eight bytes that come first. -/
def firstBuffer : Memory :=
  icReceive inverse (sentBuffer beyondMouse stack command) 0 8 line

/-- `buffer[7]` -/
def lengthByte : Nat :=
  (firstBuffer beyondMouse inverse stack command line 7).toNat

/-- `buffer` with the bytes behind them. -/
def answerBuffer : Memory :=
  let first := firstBuffer beyondMouse inverse stack command line
  let recv := lengthByte beyondMouse inverse stack command line
  if recv = 0 then first else icReceive inverse first 8 recv (line.drop 8)

def answerWrites : List Write :=
  let recv := lengthByte beyondMouse inverse stack command line
  icWrite inverse 0 8 line ::
    if recv = 0 then [] else [icWrite inverse 8 recv (line.drop 8)]

/-- The checksum of the answer is the one that follows it. -/
def checks : Bool :=
  let recv := lengthByte beyondMouse inverse stack command line
  let answer := answerBuffer beyondMouse inverse stack command line
  let ixor1 := (answer.read 0 (8 + recv)).foldl (· ^^^ ·) 0x3F
  let ixor := icReceive inverse (Memory.zero.write 0 [commandXor command]) 0 1
    (line.drop (8 + recv)) 0
  ixor1 == ixor

/-- `Protocol_T14_ExchangeTPDU` -/
def protocolT14ExchangeTPDU : Outcome :=
  if apduCmdCase command ≠ .case2S ∧ apduCmdCase command ≠ .case3S then
    { ret := .error, rsp := [], buffer := [], response := [] }
  else
    let recv := lengthByte beyondMouse inverse stack command line
    let answer := answerBuffer beyondMouse inverse stack command line
    let writes := sentWrites beyondMouse command ++
      answerWrites beyondMouse inverse stack command line
    if checks beyondMouse inverse stack command line then
      { ret := .ok
        rsp := (answer.move (8 + recv) 2 2).read 8 (recv + 2)
        buffer := writes ++ [{ start := 8 + recv, size := 2 }]
        response := [{ start := 0, size := recv + 2 }] }
    else { ret := .error, rsp := [], buffer := writes, response := [] }

end

end Oscam.T14
