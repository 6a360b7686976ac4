import Oscam.Cccam.Share

/-!
# The sizes of CCcam messages

`cc_msg_recv` takes a message into a buffer of its caller, whose size it is
told, and `cc_parse_msg` copies parts of the message into buffers of fixed
sizes.  The length of the message comes from the other side.
-/

namespace Oscam.Cccam

/-- The fields of a client and of its `struct cc_data` that receiving reads;
`isClient` is the type `'c'`, `aureaders` counts the list of AU readers. -/
structure Peer where
  isClient : Bool
  udpFd : Int
  cc : Option (CccamMode × CryptBlock)
  aureaders : Nat

/-- The cipher block of a connection that can receive. -/
def Peer.receiving (peer : Peer) (maxlen : Int) : Option CryptBlock :=
  if peer.udpFd ≤ 0 ∨ maxlen < 4 then none
  else
    match peer.cc with
    | none => none
    | some (mode, block) => if mode = .shutdown then none else some block

/-- `cc_msg_recv` into a buffer of `maxlen` bytes.  `header` and `body` are
what the two calls of `recv` can deliver. -/
def msgRecvInto (peer : Peer) (maxlen : Int) (header body : List UInt8)
    (buf : Buffer) : Int × Buffer :=
  match peer.receiving maxlen with
  | none => (-1, buf)
  | some block =>
      if (header.take 4).length ≠ 4 then (-1, buf.write 0 (header.take 4))
      else
        let (block, plain) := crypt .decrypt block (header.take 4)
        let buf := buf.write 0 plain
        let size := sizeField plain
        if size = 0 then (4, buf)
        else if (size : Int) > maxlen then (0, buf)
        else if (body.take size).length ≠ size then
          (-1, buf.write 4 (body.take size))
        else
          (size + 4, buf.write 4 (crypt .decrypt block (body.take size)).2)

/-- `MSG_CMD_05`. -/
abbrev msgCmd05 : UInt8 := 5

/-- `MSG_EMM_ACK`. -/
abbrev msgEmmAck : UInt8 := 2

/-- The buffers that `cc_parse_msg` copies messages to. -/
structure Copies where
  receiveBuffer : Buffer
  cmd05Data : Buffer
  emm : Buffer

/-- `emm->l`, which is one byte. -/
def emmLength (buf : Memory) (l : Nat) : Nat :=
  if l ≤ 0xFF then (buf 15).toNat else (l - 16) % 256

/-- The copies of `cc_parse_msg`; `l` is the length with the header. -/
def parseCopies (peer : Peer) (buf : Memory) (l : Nat) (copies : Copies) :
    Copies :=
  let copies :=
    { copies with
      receiveBuffer := copies.receiveBuffer.write 0 (buf.read 4 (l - 4)) }
  if buf 1 = msgCmd05 ∧ ¬ peer.isClient then
    { copies with cmd05Data := copies.cmd05Data.write 0 (buf.read 4 (l - 4)) }
  else if buf 1 = msgEmmAck ∧ peer.isClient ∧ 4 < l ∧ peer.aureaders ≠ 0 then
    { copies with
      emm := copies.emm.write 0 (buf.read 16 (emmLength buf l)) }
  else copies

/-- The parts of `cc_recv` that write to memory: the message in a buffer of
`l` bytes, and the copies of it if it is handed on. -/
def ccRecv (peer : Peer) (l : Int) (header body : List UInt8) (buf : Memory)
    (copies : Copies) : Buffer × Copies :=
  let received := msgRecvInto peer l header body (.fresh buf)
  if received.1 < 4 then (received.2, copies)
  else
    (received.2,
      parseCopies peer received.2.memory received.1.toNat copies)

/-- The buffers at the start of a call: nothing has been written. -/
def Copies.fresh (receiveBuffer cmd05Data emm : Memory) : Copies where
  receiveBuffer := .fresh receiveBuffer
  cmd05Data := .fresh cmd05Data
  emm := .fresh emm

/-- Nothing was written behind the end of a buffer. -/
structure Copies.Inside (copies : Copies) : Prop where
  receiveBuffer : copies.receiveBuffer.written ≤ maxMsgSize
  cmd05Data : copies.cmd05Data.written ≤ 256
  emm : copies.emm.written ≤ 258

/-- A message that is taken in and has a body. -/
def Taken (peer : Peer) (maxlen : Int) (header : List UInt8) (size : Nat)
    (command : UInt8) : Prop :=
  ∃ block, peer.receiving maxlen = some block ∧ 4 ≤ header.length ∧
    let plain := (crypt .decrypt block (header.take 4)).2
    size = sizeField plain ∧ command = plain.getD 1 0 ∧ size ≠ 0 ∧
      (size : Int) ≤ maxlen

/-- The message leaves room for its header, and for the buffers that it is
copied to when it arrives whole. -/
def Fits (peer : Peer) (maxlen : Int) (header body : List UInt8) : Prop :=
  ∀ size command, Taken peer maxlen header size command →
    (4 + min size body.length : Nat) ≤ maxlen ∧
      (size ≤ body.length →
        size ≤ maxMsgSize ∧
          (command = msgCmd05 → peer.isClient = false → size ≤ 256))

/-! ## What is written -/

variable {peer : Peer} {maxlen : Int} {block : CryptBlock}
  {header body : List UInt8} {buf : Memory}

theorem written_fresh_write (m : Memory) (bytes : List UInt8) :
    ((Buffer.fresh m).write 0 bytes).written = bytes.length := by
  cases bytes <;> simp [Buffer.write, Buffer.fresh]

/-- Bytes that are written where the earlier ones end. -/
theorem written_write_behind (b : Buffer) (bytes : List UInt8) :
    (b.write b.written bytes).written = b.written + bytes.length := by
  cases bytes <;> simp [Buffer.write]

theorem four_le_of_receiving (found : peer.receiving maxlen = some block) :
    4 ≤ maxlen := by
  unfold Peer.receiving at found
  split at found
  · cases found
  · omega

theorem emmLength_lt (buf : Memory) (l : Nat) : emmLength buf l < 256 := by
  unfold emmLength
  split
  · exact (buf 15).toNat_lt
  · exact Nat.mod_lt _ (by decide)

/-- The length of an EMM is a byte, so only two of the copies can be too
long. -/
theorem parseCopies_inside_iff (peer : Peer) (buf : Memory) (l : Nat)
    (receiveBuffer cmd05Data emm : Memory) :
    (parseCopies peer buf l (.fresh receiveBuffer cmd05Data emm)).Inside ↔
      l - 4 ≤ maxMsgSize ∧
        (buf 1 = msgCmd05 → peer.isClient = false → l - 4 ≤ 256) := by
  have length (m : Memory) (start : Nat) (n : Nat) :
      ((Buffer.fresh m).write 0 (buf.read start n)).written = n := by
    rw [written_fresh_write, Memory.length_read]
  have small := emmLength_lt buf l
  unfold parseCopies
  dsimp only [Copies.fresh]
  split
  · rename_i long
    constructor
    · rintro ⟨whole, data, _⟩
      dsimp only at whole data
      rw [length] at whole data
      exact ⟨whole, fun _ _ => data⟩
    · rintro ⟨whole, data⟩
      refine ⟨?_, ?_, Nat.zero_le _⟩
      · rwa [length]
      · rw [length]
        exact data long.1 (Bool.eq_false_iff.mpr long.2)
  · rename_i other
    have skipped : buf 1 = msgCmd05 → peer.isClient = false → l - 4 ≤ 256 := by
      intro command reader
      exact absurd ⟨command, by simp [reader]⟩ other
    split
    · constructor
      · rintro ⟨whole, _, _⟩
        dsimp only at whole
        rw [length] at whole
        exact ⟨whole, skipped⟩
      · rintro ⟨whole, _⟩
        refine ⟨?_, Nat.zero_le _, ?_⟩
        · rwa [length]
        · rw [length]
          omega
    · constructor
      · rintro ⟨whole, _, _⟩
        dsimp only at whole
        rw [length] at whole
        exact ⟨whole, skipped⟩
      · rintro ⟨whole, _⟩
        refine ⟨?_, Nat.zero_le _, Nat.zero_le _⟩
        rwa [length]

/-- Nothing is written behind the buffer of the caller, nor behind a buffer
that the message is copied to. -/
def Contained (peer : Peer) (maxlen : Int) (header body : List UInt8)
    (buf : Memory) (copies : Copies) : Prop :=
  let done := ccRecv peer maxlen header body buf copies
  (done.1.written : Int) ≤ max maxlen 0 ∧ done.2.Inside

variable {copies : Copies}

/-- A message that is not handed on. -/
theorem contained_dropped_iff {n : Int} {b : Buffer}
    (received : msgRecvInto peer maxlen header body (.fresh buf) = (n, b))
    (dropped : n < 4) (receiveBuffer cmd05Data emm : Memory) :
    Contained peer maxlen header body buf
        (.fresh receiveBuffer cmd05Data emm) ↔
      (b.written : Int) ≤ max maxlen 0 := by
  unfold Contained ccRecv
  rw [received]
  dsimp only
  rw [if_pos dropped]
  exact and_iff_left ⟨Nat.zero_le _, Nat.zero_le _, Nat.zero_le _⟩

/-- A message that is handed on. -/
theorem contained_parsed_iff {n : Nat} {b : Buffer}
    (received :
      msgRecvInto peer maxlen header body (.fresh buf) = ((n : Int), b))
    (whole : 4 ≤ n) (receiveBuffer cmd05Data emm : Memory) :
    Contained peer maxlen header body buf
        (.fresh receiveBuffer cmd05Data emm) ↔
      (b.written : Int) ≤ max maxlen 0 ∧ n - 4 ≤ maxMsgSize ∧
        (b.memory 1 = msgCmd05 → peer.isClient = false → n - 4 ≤ 256) := by
  have kept : ¬ (n : Int) < 4 := by omega
  unfold Contained ccRecv
  rw [received]
  dsimp only
  rw [if_neg kept, Int.toNat_natCast, parseCopies_inside_iff]

theorem fits_of_not_receiving (missing : peer.receiving maxlen = none) :
    Fits peer maxlen header body := by
  rintro size command ⟨block, found, _⟩
  rw [missing] at found
  cases found

theorem fits_of_short (short : header.length < 4) :
    Fits peer maxlen header body := by
  rintro size command ⟨block, _, complete, _⟩
  omega

/-- With the block and the header in place, only one size is in question. -/
theorem fits_iff (found : peer.receiving maxlen = some block)
    (complete : 4 ≤ header.length) {plain : List UInt8}
    (decrypted : (crypt .decrypt block (header.take 4)).2 = plain) :
    Fits peer maxlen header body ↔
      (sizeField plain ≠ 0 → (sizeField plain : Int) ≤ maxlen →
        (4 + min (sizeField plain) body.length : Nat) ≤ maxlen ∧
          (sizeField plain ≤ body.length → sizeField plain ≤ maxMsgSize ∧
            (plain.getD 1 0 = msgCmd05 → peer.isClient = false →
              sizeField plain ≤ 256))) := by
  subst decrypted
  constructor
  · intro fits something small
    exact fits _ _ ⟨block, found, complete, rfl, rfl, something, small⟩
  · rintro fits size command ⟨other, same, _, rfl, rfl, something, small⟩
    rw [found] at same
    cases same
    exact fits something small

/-- The byte of the command is not changed by the body. -/
theorem command_kept (plain bytes : List UInt8) (four : plain.length = 4)
    (m : Memory) :
    (((Buffer.fresh m).write 0 plain).write 4 bytes).memory 1 =
      plain.getD 1 0 := by
  have some : plain.isEmpty = false := by
    cases plain
    · cases four
    · rfl
  have first : ((Buffer.fresh m).write 0 plain).memory (0 + 1) =
      plain.getD 1 0 := by
    rw [Buffer.write, some]
    exact Memory.write_inside (by omega)
  rw [Buffer.memory_write_of_lt (by decide), first]

/-- The body stands behind the header. -/
theorem written_body {plain : List UInt8} (four : plain.length = 4)
    (m : Memory) (bytes : List UInt8) :
    (((Buffer.fresh m).write 0 plain).write 4 bytes).written =
      4 + bytes.length := by
  have step := written_write_behind ((Buffer.fresh m).write 0 plain) bytes
  rwa [written_fresh_write, four] at step

/-- What is done with a complete header. -/
theorem msgRecvInto_complete (body : List UInt8) (buf : Memory)
    (found : peer.receiving maxlen = some block)
    (complete : 4 ≤ header.length) {next : CryptBlock} {plain : List UInt8}
    (decrypted : crypt .decrypt block (header.take 4) = (next, plain)) :
    msgRecvInto peer maxlen header body (.fresh buf) =
      if sizeField plain = 0 then ((4 : Int), (Buffer.fresh buf).write 0 plain)
      else if (sizeField plain : Int) > maxlen then
        (0, (Buffer.fresh buf).write 0 plain)
      else if (body.take (sizeField plain)).length ≠ sizeField plain then
        (-1, ((Buffer.fresh buf).write 0 plain).write 4
          (body.take (sizeField plain)))
      else
        (sizeField plain + 4, ((Buffer.fresh buf).write 0 plain).write 4
          (crypt .decrypt next (body.take (sizeField plain))).2) := by
  have whole : (header.take 4).length = 4 := by
    rw [List.length_take]
    omega
  simp only [msgRecvInto, found, decrypted, whole, ne_eq, not_true_eq_false,
    if_false]

/-- A complete header: the body is not taken in, or cut short, or whole. -/
theorem contained_complete_iff (found : peer.receiving maxlen = some block)
    (complete : 4 ≤ header.length) (body : List UInt8)
    (buf receiveBuffer cmd05Data emm : Memory) :
    Contained peer maxlen header body buf
        (.fresh receiveBuffer cmd05Data emm) ↔
      Fits peer maxlen header body := by
  have room := four_le_of_receiving found
  obtain ⟨next, plain, decrypted⟩ :
      ∃ next plain, crypt .decrypt block (header.take 4) = (next, plain) :=
    ⟨_, _, rfl⟩
  have second : (crypt .decrypt block (header.take 4)).2 = plain := by
    rw [decrypted]
  have four : plain.length = 4 := by
    rw [← second, length_crypt, List.length_take]
    omega
  have start : ((Buffer.fresh buf).write 0 plain).written = 4 := by
    rw [written_fresh_write, four]
  have received := msgRecvInto_complete body buf found complete decrypted
  rw [fits_iff found complete second]
  by_cases empty : sizeField plain = 0
  · rw [if_pos empty] at received
    rw [contained_parsed_iff (n := 4) received (by decide), start]
    refine iff_of_true ⟨by omega, by decide, fun _ _ => by decide⟩ ?_
    intro something
    exact absurd empty something
  · rw [if_neg empty] at received
    by_cases big : (sizeField plain : Int) > maxlen
    · rw [if_pos big] at received
      rw [contained_dropped_iff received (by decide), start]
      refine iff_of_true (by omega) ?_
      intro _ small
      omega
    · rw [if_neg big] at received
      by_cases cut : (body.take (sizeField plain)).length ≠ sizeField plain
      · rw [if_pos cut] at received
        rw [contained_dropped_iff received (by decide), written_body four,
          List.length_take]
        rw [List.length_take] at cut
        constructor
        · intro fits _ _
          exact ⟨by omega, fun _ => by omega⟩
        · intro fits
          have := (fits empty (by omega)).1
          omega
      · rw [if_neg cut] at received
        have delivered : sizeField plain ≤ body.length := by
          rw [List.length_take] at cut
          omega
        have length :
            (crypt .decrypt next (body.take (sizeField plain))).2.length =
              sizeField plain := by
          rw [length_crypt]
          exact not_not.mp cut
        rw [contained_parsed_iff (n := sizeField plain + 4)
          (by exact_mod_cast received) (by omega), written_body four, length,
          command_kept plain _ four, Nat.add_sub_cancel]
        constructor
        · rintro ⟨fits, copied, data⟩ _ _
          exact ⟨by omega, fun _ => ⟨copied, data⟩⟩
        · intro fits
          obtain ⟨inside, copied⟩ := fits empty (by omega)
          exact ⟨by omega, copied delivered⟩

/-- The message stays in the buffer of the caller and its copies in theirs if
and only if the size in its header leaves room. -/
theorem contained_iff (peer : Peer) (maxlen : Int) (header body : List UInt8)
    (buf receiveBuffer cmd05Data emm : Memory) :
    Contained peer maxlen header body buf
        (.fresh receiveBuffer cmd05Data emm) ↔
      Fits peer maxlen header body := by
  cases found : peer.receiving maxlen with
  | none =>
      have received : msgRecvInto peer maxlen header body (.fresh buf) =
          (-1, .fresh buf) := by
        simp only [msgRecvInto, found]
      rw [contained_dropped_iff received (by decide)]
      exact iff_of_true (by simp [Buffer.fresh]) (fits_of_not_receiving found)
  | some block =>
      have room := four_le_of_receiving found
      by_cases complete : 4 ≤ header.length
      · exact contained_complete_iff found complete body buf receiveBuffer
          cmd05Data emm
      · have short : (header.take 4).length ≠ 4 := by
          rw [List.length_take]
          omega
        have received : msgRecvInto peer maxlen header body (.fresh buf) =
            (-1, (Buffer.fresh buf).write 0 (header.take 4)) := by
          simp only [msgRecvInto, found, if_pos short]
        rw [contained_dropped_iff received (by decide), written_fresh_write,
          List.length_take]
        exact iff_of_true (by omega) (fits_of_short (by omega))

/-- A reader whose cipher starts with the plain table. -/
def somePeer : Peer where
  isClient := false
  udpFd := 7
  cc := some (.normal, { keytable := id, state := 0, counter := 0, sum := 0 })
  aureaders := 0

/-- A header as a server sends it. -/
def someHeader (command high low : UInt8) : List UInt8 :=
  (crypt .encrypt { keytable := id, state := 0, counter := 0, sum := 0 }
    [0, command, high, low]).2

/-- A body of 1024 bytes ends four bytes behind a buffer of that size, and
one of 300 bytes fits there but not into `cmd05_data`. -/
theorem message_behind_buffers :
    ¬ Contained somePeer maxMsgSize (someHeader msgCwEcm 4 0)
        (List.replicate 1024 0) .zero (.fresh .zero .zero .zero) ∧
      ¬ Contained somePeer maxMsgSize (someHeader msgCmd05 1 44)
        (List.replicate 300 0) .zero (.fresh .zero .zero .zero) := by
  constructor
  · rw [contained_complete_iff rfl (by decide)]
    intro fits
    have room := (fits 1024 msgCwEcm
      ⟨_, rfl, by decide, by decide, by decide, by decide, by decide⟩).1
    rw [List.length_replicate] at room
    exact absurd room (by decide)
  · rw [contained_complete_iff rfl (by decide)]
    intro fits
    have copied := (fits 300 msgCmd05
      ⟨_, rfl, by decide, by decide, by decide, by decide, by decide⟩).2
    rw [List.length_replicate] at copied
    exact absurd ((copied (by decide)).2 rfl rfl) (by decide)

end Oscam.Cccam
