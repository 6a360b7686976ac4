import Oscam.Protocol.Gbox
import Oscam.Protocol.GboxCards
import Mathlib.Logic.Function.Basic

/-!
# Announcements of gbox peers

`gbox_recv` takes one packet from a peer.  A peer announces its cards with hello
packets that have numbers; the number that is expected is kept in a static
variable, so that all peers have the same one.  What a peer says about itself
besides its cards (name, version, check code) is left out, and so is what is
done with the ECM of a peer.
-/

namespace Oscam.Gbox

open Memory

/-! ## Packets -/

def msgEcm : Nat := 0x445c

def msgCw : Nat := 0x4844

def msgHello : Nat := 0xddab

def msgBoxinfo : Nat := 0xa0a1

/-- What `recvfrom` gives, and whether `cs_malloc` has memory for the cards, the
name of the peer and the data of an ECM. -/
structure Datagram where
  bytes : List UInt8
  short : bytes.length ≤ 1024
  cardMemory : Nat → Bool
  nameMemory : Bool
  ecmMemory : Bool

/-- `struct gbox_data` with its peer and its reader; there is no list of cards
before the first announcement. -/
structure Gbox where
  key : Key
  peerKey : Key
  buf : Memory
  cws : List UInt8
  cards : Option (List GboxCard)
  online : Bool
  helloCount : Nat
  helloExpired : Bool
  helloInitial : Bool
  writeLock : Nat
  tcpConnected : Nat
  cardInserted : Bool

/-- `lzo1x_decompress`: the bytes that are unpacked from a source of a length,
when `unpacked_len` has some value. -/
abbrev Lzo := Memory → Int → Nat → List UInt8

namespace Gbox

/-- `ll_count` of the cards. -/
def cardCount (g : Gbox) : Nat := (g.cards.getD []).length

/-- `cs_writelock`: it waits until nobody has the lock or the time is over. -/
def lock (g : Gbox) : Gbox := { g with writeLock := 1 }

/-- `cs_writeunlock`. -/
def unlock (g : Gbox) : Gbox := { g with writeLock := g.writeLock - 1 }

/-- The packet in `gbox->buf` after `gbox_decrypt`. -/
def received (g : Gbox) (call : Datagram) : Memory :=
  decrypt (g.buf.write 0 call.bytes) call.bytes.length g.key

/-- `gbox_send_hello`, as far as the receiver is concerned. -/
def sendHello (g : Gbox) : Gbox :=
  { g with
    helloCount := if g.helloCount + 1 = 2 then 0 else g.helloCount + 1
    helloInitial := false }

/-- The peer has sent a hello, which is an initial one if its byte is 0. -/
def heard (g : Gbox) (data : Memory) : Gbox :=
  { g with
    buf := data
    online := true
    helloExpired := data 10 == 0 || g.helloExpired }

/-- The cards of a first packet; with a card the reader is connected. -/
def setCards (g : Gbox) (cards : List GboxCard) : Gbox :=
  let g := { g with cards := some cards }
  if cards.length = 0 then g
  else { g with tcpConnected := 2, cardInserted := true }

end Gbox

/-- `gbox_decode_cmd`. -/
def decodeCmd (buf : Memory) : Nat := buf.number 0 2

/-- `gbox_decompress`: the buffer and the length with the head, nothing if more
is written than the buffer has. -/
def decompress (lzo : Lzo) (buf : Memory) (unpackedLen : Nat) :
    Option (Memory × Nat) :=
  let tmp := lzo (buf.shift 12) ((buf 12).toNat - 13) unpackedLen
  if tmp.length + 12 ≤ 1024 then some (buf.write 12 tmp, tmp.length + 12)
  else none

/-- What a call leaves: the number that is expected, the data and the value. -/
structure Received where
  expSeq : Nat
  gbox : Gbox
  rc : Int

/-- The end of the hello branch, behind the cards. -/
def helloEnd (expSeq : Nat) (g : Gbox) (origCardCount : Nat) (final : Bool) :
    Received :=
  let expSeq := if final then 0 else expSeq
  let g := if g.cardCount = 0 then { g with tcpConnected := 1 } else g
  let g :=
    if origCardCount ≠ g.cardCount then { g with helloExpired := true } else g
  let g :=
    if final && g.helloExpired then
      ({ g with helloExpired := false } : Gbox).sendHello
    else g
  { expSeq := expSeq, gbox := g.unlock, rc := 0 }

/-- The hello branch of `gbox_recv` behind the decompression. -/
def takeHello (expSeq : Nat) (g : Gbox) (call : Datagram) (data : Memory)
    (payloadLen : Nat) : Received :=
  let g := g.heard data
  let seqno := (data 11 &&& 0x7f).toNat
  let final := data 11 &&& 0x80 != 0
  -- the lock is not released here
  if seqno ≠ expSeq then { expSeq := expSeq, gbox := g, rc := -1 }
  else
    let origCardCount := g.cardCount
    if seqno = 0 then
      let footerLen := (data (payloadLen - 1)).toNat + 2
      let cards := readGroups call.cardMemory data
        (payloadLen - footerLen - 7 - 1) 12 0
      let g := g.setCards cards
      if call.nameMemory then helloEnd (expSeq + 1) g origCardCount final
      else { expSeq := expSeq + 1, gbox := g.unlock, rc := -1 }
    else
      let cards := readGroups call.cardMemory data (payloadLen - 1) 12 0
      -- nothing is appended to a list that is not there
      helloEnd expSeq { g with cards := g.cards.map (· ++ cards) } origCardCount
        final

/-- The hello branch of `gbox_recv`. -/
def recvHello (lzo : Lzo) (expSeq : Nat) (g : Gbox) (call : Datagram) :
    Option Received :=
  (decompress lzo g.buf call.bytes.length).map fun unpacked =>
    takeHello expSeq g call unpacked.1 unpacked.2

/-- `gbox_recv`; nothing if memory outside of its buffer is overwritten. -/
def recv (lzo : Lzo) (expSeq : Nat) (g : Gbox) (call : Datagram) :
    Option Received :=
  let g := ({ g with online := true } : Gbox).lock
  if call.bytes.length < 8 then
    let g := { g with buf := g.buf.write 0 call.bytes }
    some { expSeq := expSeq, gbox := g.unlock, rc := -1 }
  else
    let data := g.received call
    let g := { g with buf := data }
    let cmd := decodeCmd data
    if data.read 2 4 ≠ List.ofFn g.key then
      some { expSeq := expSeq, gbox := g.unlock, rc := -1 }
    else if data.read 6 4 ≠ List.ofFn g.peerKey ∧ cmd ≠ msgCw then
      some { expSeq := expSeq, gbox := g.unlock, rc := -1 }
    else if cmd = msgHello then recvHello lzo expSeq g call
    else if cmd = msgBoxinfo then
      some { expSeq := expSeq, gbox := g.sendHello.unlock, rc := 0 }
    else if cmd = msgCw then
      let g := { g with cws := data.read 14 16 }
      some { expSeq := expSeq, gbox := g.unlock, rc := 0 }
    else if cmd = msgEcm then
      let rc : Int := if call.ecmMemory then 0 else -1
      some { expSeq := expSeq, gbox := g.unlock, rc := rc }
    else some { expSeq := expSeq, gbox := g.unlock, rc := 0 }

/-! ## What a call does -/

variable {lzo : Lzo} {expSeq : Nat} {g : Gbox} {call : Datagram}

/-- The packet is a hello of the peer. -/
structure IsHello (g : Gbox) (call : Datagram) : Prop where
  long : 8 ≤ call.bytes.length
  key : (g.received call).read 2 4 = List.ofFn g.key
  peerKey : (g.received call).read 6 4 = List.ofFn g.peerKey
  cmd : decodeCmd (g.received call) = msgHello

/-- The bytes that are unpacked from a hello. -/
def unpacked (lzo : Lzo) (g : Gbox) (call : Datagram) : List UInt8 :=
  lzo ((g.received call).shift 12) (((g.received call) 12).toNat - 13)
    call.bytes.length

/-- What is announced in one packet: the groups of cards and what stands behind
them. -/
structure Hello where
  groups : List CardGroup
  rest : List UInt8

def Hello.cards (hello : Hello) : List GboxCard :=
  hello.groups.flatMap CardGroup.cards

def Hello.payload (hello : Hello) : List UInt8 :=
  hello.groups.flatMap CardGroup.bytes ++ hello.rest

/-- Behind the cards the first packet has nine bytes (check code, version and
type), the name of the peer and its length, and another packet one byte or
none. -/
def Hello.Formed (hello : Hello) (seqno : Nat) : Prop :=
  if seqno = 0 then
    ∃ front hostname : List UInt8, front.length = 9 ∧ hostname.length < 256 ∧
      hello.rest = front ++ (hostname ++ [UInt8.ofNat hostname.length])
  else hello.rest.length ≤ 1

/-- A datagram brings the packet with a number, and there is memory for what
it announces. -/
structure Carries (lzo : Lzo) (g : Gbox) (call : Datagram) (seqno : Nat)
    (final : Bool) (hello : Hello) : Prop where
  isHello : IsHello g call
  unpacked : unpacked lzo g call = hello.payload
  number : g.received call 11 = UInt8.ofNat (seqno + if final then 128 else 0)
  cardMemory : ∀ i, call.cardMemory i = true
  nameMemory : call.nameMemory = true

/-- The number that is expected and the cards. -/
def Received.view (r : Received) : Nat × Option (List GboxCard) :=
  (r.expSeq, r.gbox.cards)

variable {seqno : Nat} {final : Bool} {hello : Hello}

/-- The number that is expected and the cards behind a hello packet. -/
def next (expSeq : Nat) (cards : Option (List GboxCard)) (seqno : Nat)
    (final : Bool) (hello : Hello) : Nat × Option (List GboxCard) :=
  if seqno ≠ expSeq then (expSeq, cards)
  else if seqno = 0 then (if final then 0 else expSeq + 1, some hello.cards)
  else (if final then 0 else expSeq, cards.map (· ++ hello.cards))

/-- A packet that leaves the receiver as it should: no hello, or the only one of
an announcement, with a payload that fits in the buffer. -/
def Harmless (lzo : Lzo) (g : Gbox) (call : Datagram) : Prop :=
  IsHello g call →
    (unpacked lzo g call).length + 12 ≤ 1024 ∧ g.received call 11 = 0x80 ∧
      call.nameMemory = true

end Oscam.Gbox
