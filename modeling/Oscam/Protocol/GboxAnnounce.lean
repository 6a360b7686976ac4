import Oscam.Protocol.GboxRecv

/-!
# Whole announcements

The packets of an announcement one after the other, and runs of any packets
from any peers: what is known of the cards at the end, and when the receiver is
ready for the next announcement.
-/

namespace Oscam.Gbox

open Memory

/-! ## Runs -/

/-- All peers, with the number that `gbox_recv` expects. -/
structure World where
  expSeq : Nat
  peers : Nat → Gbox

/-- A call of `gbox_recv` for a peer. -/
structure Call where
  peer : Nat
  datagram : Datagram

def World.set (w : World) (p : Nat) (r : Received) : World :=
  { expSeq := r.expSeq, peers := Function.update w.peers p r.gbox }

def step (lzo : Lzo) (w : World) (call : Call) : Option World :=
  (recv lzo w.expSeq (w.peers call.peer) call.datagram).map (w.set call.peer)

def run (lzo : Lzo) (w : World) (calls : List Call) : Option World :=
  calls.foldlM (step lzo) w

/-- The receiver is ready for an announcement: no lock is held and the packet
with number 0 is expected. -/
structure Ready (w : World) : Prop where
  first : w.expSeq = 0
  free : ∀ p, (w.peers p).writeLock = 0

variable {lzo : Lzo} {w w' : World} {p seqno : Nat}

/-- The packets of an announcement arrive in order, from number `seqno` on. -/
def InOrder (lzo : Lzo) (w : World) (p seqno : Nat) :
    List Hello → List Datagram → Prop
  | [], [] => True
  | hello :: hellos, datagram :: datagrams =>
      seqno < 128 ∧ hello.Formed seqno ∧
        Carries lzo (w.peers p) datagram seqno hellos.isEmpty hello ∧
        ∀ w', step lzo w { peer := p, datagram := datagram } = some w' →
          InOrder lzo w' p (seqno + 1) hellos datagrams
  | _, _ => False

/-- The calls for the packets of a peer. -/
def callsOf (p : Nat) (datagrams : List Datagram) : List Call :=
  datagrams.map fun datagram => { peer := p, datagram := datagram }

/-- After the last packet the cards are those of all packets in order. -/
def Announced (lzo : Lzo) (w : World) (p : Nat) (hellos : List Hello)
    (datagrams : List Datagram) : Prop :=
  ∃ w', run lzo w (callsOf p datagrams) = some w' ∧
    (w'.peers p).cards = some (hellos.flatMap Hello.cards)

theorem run_cons {calls : List Call} (call : Call) :
    run lzo w (call :: calls) =
      (step lzo w call).bind fun w => run lzo w calls := List.foldlM_cons

/-- The cards of the peer behind the packets. -/
def Left (lzo : Lzo) (w : World) (p : Nat) (datagrams : List Datagram)
    (cards : Option (List GboxCard)) : Prop :=
  ∃ w', run lzo w (callsOf p datagrams) = some w' ∧ (w'.peers p).cards = cards

variable {hello : Hello} {hellos : List Hello} {datagram : Datagram}
  {datagrams : List Datagram}

theorem holds_write (m : Memory) (bytes : List UInt8) :
    Holds (m.write 0 bytes) 0 bytes := read_write m 0 bytes

end Oscam.Gbox
