import Oscam.Globals
import Oscam.Lib.Memory

/-!
# The length of an ECM that a client sends

The receive routines of the camd35, CCcam and newcamd servers and the part of
their message handling that fills an ECM request.  A call of `recv` delivers
a list of bytes, at most as many as were asked for.
-/

namespace Oscam

/-- `boundary`: the next multiple of `2 ^ exp`. -/
def boundary (exp : Nat) (n : Int) : Int :=
  ((n - 1) / 2 ^ exp + 1) * 2 ^ exp

/-- The value that `er->l`, an `int16_t`, takes. -/
def toInt16 (n : Int) : Int := (n + 2 ^ 15) % 2 ^ 16 - 2 ^ 15

theorem toInt16_of_small {n : Int} (low : -2 ^ 15 ≤ n) (high : n < 2 ^ 15) :
    toInt16 n = n := by
  unfold toInt16
  omega

/-- The buffer of `er->ecm`. -/
abbrev ecmSize : Int := 512

/-- The length field of an ECM, twelve bits over two bytes. -/
def ecmLength (m : Memory) (off : Nat) : Nat :=
  (m off).toNat % 16 * 256 + (m (off + 1)).toNat

theorem ecmLength_lt (m : Memory) (off : Nat) : ecmLength m off < 4096 := by
  unfold ecmLength
  have low := (m (off + 1)).toNat_lt
  omega

/-! ## camd35 -/

namespace Camd35

/-- `AES_decrypt` with the key of the client, the checksum, and what
`camd35_auth_client` says to a user checksum. -/
structure Env where
  aes : List UInt8 → List UInt8
  crc32 : List UInt8 → Nat
  authClient : List UInt8 → Int

/-- What the sockets deliver: a datagram, or a first read and a second one. -/
structure Input where
  isUdp : Bool
  first : List UInt8
  rest : List UInt8

/-- `REQ_SIZE`, the size of a slot in `client->req`. -/
abbrev reqSize : Nat := 584

/-- The buffer of `camd35_server`. -/
abbrev bufSize : Nat := 1024

/-- `aes_decrypt`, block by block. -/
def aesDecrypt (env : Env) (m : Memory) (off n : Nat) : Memory :=
  (List.range ((n + 15) / 16)).foldl
    (fun m i => m.write (off + 16 * i) (env.aes (m.read (off + 16 * i) 16))) m

/-- `process_client_pipe`: a datagram that does not fit is not copied. -/
def processClientPipe (m : Memory) (datagram : List UInt8) : Memory :=
  if datagram.length + 3 ≤ bufSize then
    m.write 0
      (0x55 :: UInt8.ofNat datagram.length ::
        UInt8.ofNat (datagram.length / 256) :: datagram)
  else m

/-- `recv_from_udpipe`; without the mark of the pipe the thread exits. -/
def recvFromUdpipe (m : Memory) : Option (Memory × Nat) :=
  if m 0 ≠ 0x55 then none
  else
    let n := (m 1).toNat + 256 * (m 2).toNat
    some (m.move 0 3 n, n)

/-- The first read of `camd35_recv`. -/
def firstRead (input : Input) (m : Memory) : Option (Memory × Nat) :=
  if input.isUdp then
    recvFromUdpipe (processClientPipe m (input.first.take 2045))
  else some (m.write 0 (input.first.take 36), (input.first.take 36).length)

/-- The length of the data the message announces. -/
def buflen (m : Memory) : Nat :=
  if m 0 = 0 then ecmLength m 21 + 3 else (m 1).toNat

def messageSize (m : Memory) : Int :=
  boundary 4 ((if m 0 = 3 then 0x34 else 0) + 20 + buflen m : Nat)

/-- Case 2 of `camd35_recv`: the message is decrypted, and over TCP its rest
is read. -/
def secondRead (env : Env) (input : Input) (m : Memory) (rs : Nat) :
    Memory × Nat :=
  let m := aesDecrypt env m 0 rs
  let n := messageSize m
  if ¬ input.isUdp ∧ (rs : Int) < n ∧ n - 32 > 0 then
    let rest := input.rest.take (n - 32).toNat
    (aesDecrypt env (m.write 32 rest) 32 rest.length, rs + rest.length)
  else (m, rs)

/-- `camd35_recv`, `none` when the thread exits: the return code and the
buffer. -/
def recv (env : Env) (input : Input) (m : Memory) : Option (Int × Memory) :=
  (firstRead input m).map fun (m, rs) =>
    if rs < 24 then (-1, m)
    else if env.authClient (m.read 0 4) = 1 then (-2, m)
    else if env.authClient (m.read 0 4) ≠ 0 then (-9, m)
    else
      let m := m.move 0 4 (rs - 4)
      let n := messageSize (aesDecrypt env m 0 (rs - 4))
      let bytes := buflen (aesDecrypt env m 0 (rs - 4))
      let (m, rs) := secondRead env input m (rs - 4)
      if n > rs then (-3, m)
      else if env.crc32 (m.read 20 bytes) ≠ m.number 4 4 then (-4, m)
      else (n, m)

/-- The request is saved in `client->req`: where, and how many bytes. -/
structure Saved where
  start : Nat
  size : Int

/-- `camd35_process_ecm` up to `get_cw`. -/
def processEcm (m : Memory) (er : EcmRequest) : EcmRequest × Saved :=
  let l := toInt16 (ecmLength m 21 + 3)
  ({ er with
      l := l, srvid := m.number 8 2, caid := m.number 10 2
      prid := m.number 12 4, pid := m.number 16 2, ecm := m.read 20 l.toNat },
    { start := er.cpti * reqSize, size := 0x34 + 20 + l })

end Camd35

/-! ## CCcam -/

namespace Cccam

/-- `struct cc_crypt_block`. -/
structure CryptBlock where
  keytable : UInt8 → UInt8
  state : UInt8
  counter : UInt8
  sum : UInt8

inductive CryptMode where
  | decrypt
  | encrypt
  deriving DecidableEq, Repr

/-- The cipher byte by byte: the next state of the key table, and the byte
that is mixed in. -/
def CryptBlock.turn (block : CryptBlock) : CryptBlock × UInt8 :=
  let counter := block.counter + 1
  let sum := block.sum + block.keytable counter
  let keytable := fun i =>
    if i = counter then block.keytable sum
    else if i = sum then block.keytable counter
    else block.keytable i
  ({ block with keytable := keytable, counter := counter, sum := sum },
    keytable (keytable counter + keytable sum))

/-- `cc_crypt`: the state is mixed with the plain bytes. -/
def crypt (mode : CryptMode) :
    CryptBlock → List UInt8 → CryptBlock × List UInt8
  | block, [] => (block, [])
  | block, z :: data =>
      let turned := block.turn
      let out := z ^^^ turned.2 ^^^ block.state
      let plain := if mode = .decrypt then out else z
      let rest :=
        crypt mode { turned.1 with state := block.state ^^^ plain } data
      (rest.1, out :: rest.2)

/-- `CC_MAXMSGSIZE`. -/
abbrev maxMsgSize : Nat := 1024

/-- `MSG_CW_ECM`. -/
abbrev msgCwEcm : UInt8 := 1

/-- The length field of a decrypted header. -/
def sizeField (header : List UInt8) : Nat :=
  (header.getD 2 0).toNat * 256 + (header.getD 3 0).toNat

/-- `cc_msg_recv`: what is received and how many bytes that are.  `header`
and `body` are what the two calls of `recv` deliver. -/
def msgRecv (block : CryptBlock) (header body : List UInt8) (m : Memory) :
    Int × Memory :=
  if (header.take 4).length ≠ 4 then (-1, m.write 0 (header.take 4))
  else
    let (block, plain) := crypt .decrypt block (header.take 4)
    let m := m.write 0 plain
    let size := sizeField plain
    if size = 0 then (4, m)
    else if size > maxMsgSize then (0, m)
    else if (body.take size).length ≠ size then
      (-1, m.write 4 (body.take size))
    else
      (size + 4, m.write 4 (crypt .decrypt block (body.take size)).2)

/-- The part of `cc_parse_msg` for `MSG_CW_ECM` on the server. -/
def processEcm (m : Memory) (l : Int) (er : EcmRequest) : EcmRequest :=
  let length := toInt16 (l - 17)
  { er with
    caid := m.number 4 2, srvid := m.number 14 2, l := length
    ecm := m.read 17 length.toNat, prid := m.number 6 4 }

end Cccam

/-! ## newcamd -/

namespace Newcamd

/-- Decryption of one DES block with the session key, and the caid of the
port. -/
structure Env where
  euroDes : List UInt8 → List UInt8
  portCaid : Nat

inductive Proto where
  | auto
  | ncd525
  | ncd524
  deriving DecidableEq, Repr

/-- `CWS_NETMSGSIZE`. -/
abbrev netMsgSize : Nat := 272

def xorBytes (left right : List UInt8) : List UInt8 :=
  List.zipWith (· ^^^ ·) left right

/-- The block loop of `des_decrypt`, in cipher block chaining. -/
def desBlocks (env : Env) (m : Memory) (len : Nat) : Memory :=
  ((List.range ((len - 2) / 8)).foldl
    (fun (state : Memory × List UInt8) i =>
      let block := state.1.read (2 + 8 * i) 8
      (state.1.write (2 + 8 * i) (xorBytes (env.euroDes block) state.2),
        block))
    (m, m.read len 8)).1

/-- `des_decrypt`: the initial vector is at the end, and the checksum over
the bytes must be zero. -/
def desDecrypt (env : Env) (m : Memory) (len : Nat) : Option (Nat × Memory) :=
  if (len - 2) % 8 ≠ 0 ∨ len - 2 < 16 then none
  else
    let m := desBlocks env m (len - 8)
    if (m.read 2 (len - 8 - 2)).foldl (· ^^^ ·) 0 ≠ 0 then none
    else some (len - 8, m)

/-- The protocol that `network_message_receive` goes by. -/
def detect (proto : Proto) (m : Memory) (len : Nat) : Option Proto :=
  let l5 := ecmLength m 13 + 3
  let l4 := ecmLength m 9 + 3
  if proto ≠ .auto then some proto
  else if (l5 : Int) ≤ len - 12 ∧
      ((m 12).toNat / 16 = 0xE ∨ (m 12).toNat / 16 = 0x8) then some .ncd525
  else if (l4 : Int) ≤ len - 8 ∧
      ((m 8).toNat / 16 = 0xE ∨ (m 9).toNat / 16 = 0x8) then some .ncd524
  else none

/-- `network_message_receive` on the server: the return code and the buffer.
`header` and `body` are what the two calls of `recv` deliver. -/
def messageReceive (env : Env) (proto : Proto) (header body : List UInt8)
    (net buffer : Memory) : Int × Memory :=
  let net := net.write 0 (header.take 2)
  let size := (net 0).toNat * 256 + (net 1).toNat
  if (header.take 2).length = 0 then (0, buffer)
  else if (header.take 2).length ≠ 2 then (-1, buffer)
  else if size > netMsgSize - 2 then (-1, buffer)
  else if (body.take size).length = 0 then (0, buffer)
  else if (body.take size).length ≠ size then (-1, buffer)
  else
    match desDecrypt env (net.write 2 (body.take size)) (size + 2) with
    | none => (-1, buffer)
    | some (len, net) =>
        if len < 11 then (-1, buffer)
        else
          match detect proto net len with
          | none => (-1, buffer)
          | some proto =>
              let ncdOff := if proto = .ncd525 then 4 else 0
              let returnLen := ecmLength net (9 + ncdOff) + 3
              if (returnLen : Int) > len - (8 + ncdOff : Nat) then
                (-1, buffer)
              else
                let sid := if proto = .ncd525 then 4 else 6
                (returnLen + 2,
                  buffer.write 0
                    (net.read sid 2 ++ net.read (8 + ncdOff) returnLen))

/-- `newcamd_recv`. -/
def recv (env : Env) (proto : Proto) (header body : List UInt8)
    (net buffer : Memory) : Int × Memory :=
  let received := messageReceive env proto header body net buffer
  (if received.1 < 5 then -1 else received.1, received.2)

/-- `newcamd_process_ecm` up to `get_cw`. -/
def processEcm (env : Env) (m : Memory) (er : EcmRequest) : EcmRequest :=
  let l := toInt16 ((m 4).toNat + 3)
  { er with
    l := l, srvid := m.number 0 2, caid := env.portCaid
    ecm := m.read 2 l.toNat }

end Newcamd

/-! ## What the receive stages leave of the lengths -/

namespace Cccam

variable {block : CryptBlock} {header body : List UInt8} {m : Memory}

/-- The length field in the header of a message. -/
def headerSize (block : CryptBlock) (header : List UInt8) : Nat :=
  sizeField (crypt .decrypt block (header.take 4)).2

/-- A message that is taken has the size its header says, and that is not
more than the buffer holds. -/
theorem msgRecv_size (taken : 4 ≤ (msgRecv block header body m).1) :
    (msgRecv block header body m).1 = headerSize block header + 4 ∧
      headerSize block header ≤ maxMsgSize := by
  unfold msgRecv at taken ⊢
  split at taken
  · omega
  · rename_i complete
    rw [if_neg complete]
    dsimp only at taken ⊢
    split at taken
    · rename_i empty
      rw [if_pos empty, headerSize, empty]
      exact ⟨rfl, Nat.zero_le _⟩
    · rename_i something
      rw [if_neg something]
      split at taken
      · omega
      · rename_i fits
        rw [if_neg fits]
        split at taken
        · omega
        · rename_i whole
          rw [if_neg whole]
          exact ⟨rfl, not_lt.mp fits⟩

theorem length_crypt (mode : CryptMode) (block : CryptBlock)
    (data : List UInt8) : (crypt mode block data).2.length = data.length := by
  induction data generalizing block with
  | nil => rfl
  | cons z data induction => simp [crypt, induction]

/-- Both directions of the cipher go through the same states, and decryption
gives the plain bytes back. -/
theorem crypt_decrypt_encrypt (block : CryptBlock) (data : List UInt8) :
    crypt .decrypt block (crypt .encrypt block data).2 =
      ((crypt .encrypt block data).1, data) := by
  induction data generalizing block with
  | nil => rfl
  | cons z data induction =>
      have plain : z ^^^ block.turn.2 ^^^ block.state ^^^ block.turn.2 ^^^
          block.state = z := by
        calc z ^^^ block.turn.2 ^^^ block.state ^^^ block.turn.2 ^^^ block.state
            = z ^^^ ((block.turn.2 ^^^ block.turn.2) ^^^
                (block.state ^^^ block.state)) := by ac_rfl
          _ = z := by simp
      simp only [crypt, reduceCtorEq, if_false, if_true, plain]
      rw [induction]

/-- What a peer with the same cipher state encrypts is what is received. -/
theorem msgRecv_encrypted (block : CryptBlock) (plain data : List UInt8)
    (m : Memory) (four : plain.length = 4) (some : data ≠ [])
    (size : sizeField plain = data.length) (fits : data.length ≤ maxMsgSize) :
    msgRecv block (crypt .encrypt block plain).2
        (crypt .encrypt (crypt .encrypt block plain).1 data).2 m =
      ((data.length : Int) + 4, (m.write 0 plain).write 4 data) := by
  have header : (crypt .encrypt block plain).2.take 4 =
      (crypt .encrypt block plain).2 := by
    apply List.take_of_length_le
    rw [length_crypt, four]
  have body : (crypt .encrypt (crypt .encrypt block plain).1 data).2.take
      data.length = (crypt .encrypt (crypt .encrypt block plain).1 data).2 := by
    apply List.take_of_length_le
    rw [length_crypt]
  have filled : data.length ≠ 0 := by
    intro empty
    exact some (List.length_eq_zero_iff.mp empty)
  have small : ¬ data.length > maxMsgSize := not_lt.mpr fits
  simp only [msgRecv, header, length_crypt, four, ne_eq, not_true_eq_false,
    if_false, crypt_decrypt_encrypt, size, filled, small, body]

end Cccam

/-! ## The messages of the three protocols -/

/-- What a client of one of the servers sends, the state it meets and the
request that `get_ecmtask` gave. -/
inductive EcmMessage where
  | camd35 (env : Camd35.Env) (input : Camd35.Input) (buffer : Memory)
      (er : EcmRequest)
  | cccam (block : Cccam.CryptBlock) (header body : List UInt8)
      (buffer : Memory) (er : EcmRequest)
  | newcamd (env : Newcamd.Env) (proto : Newcamd.Proto)
      (header body : List UInt8) (net buffer : Memory) (er : EcmRequest)

namespace EcmMessage

/-- The message is received and taken as an ECM. -/
def Accepted : EcmMessage → Prop
  | camd35 env input buffer _ =>
      ∃ received ∈ Camd35.recv env input buffer, 0 < received.1 ∧
        (received.2 0 = 0 ∨ received.2 0 = 3)
  | cccam block header body buffer _ =>
      let received := Cccam.msgRecv block header body buffer
      4 ≤ received.1 ∧ received.2 1 = Cccam.msgCwEcm
  | newcamd env proto header body net buffer _ =>
      let received := Newcamd.recv env proto header body net buffer
      0 < received.1 ∧ (received.2 2 = 0x80 ∨ received.2 2 = 0x81)

/-- The length of the copy to `er->ecm` is in range. -/
def EcmFits (er : EcmRequest) : Prop := 0 ≤ er.l ∧ er.l ≤ ecmSize

/-- All copies stay inside their buffers. -/
def InBounds : EcmMessage → Prop
  | camd35 env input buffer er =>
      ∀ received ∈ Camd35.recv env input buffer,
        let filled := Camd35.processEcm received.2 er
        EcmFits filled.1 ∧ er.cpti * Camd35.reqSize ≤ filled.2.start ∧
          filled.2.start + filled.2.size ≤
            ((er.cpti + 1) * Camd35.reqSize : Nat)
  | cccam block header body buffer er =>
      let received := Cccam.msgRecv block header body buffer
      EcmFits (Cccam.processEcm received.2 received.1 er)
  | newcamd env proto header body net buffer er =>
      EcmFits (Newcamd.processEcm env
        (Newcamd.recv env proto header body net buffer).2 er)

/-- The length field of the message is small enough: the twelve bits in the
ECM of camd35, and the size in the header of CCcam, which must not be too
small either. -/
def LengthFits : EcmMessage → Prop
  | camd35 env input buffer _ =>
      ∀ received ∈ Camd35.recv env input buffer,
        ecmLength received.2 21 ≤ 509
  | cccam block header _ _ _ =>
      13 ≤ Cccam.headerSize block header ∧
        Cccam.headerSize block header ≤ 525
  | newcamd .. => True

theorem camd35_fits_iff (m : Memory) (er : EcmRequest) :
    (EcmFits (Camd35.processEcm m er).1 ∧
      er.cpti * Camd35.reqSize ≤ (Camd35.processEcm m er).2.start ∧
      (Camd35.processEcm m er).2.start + (Camd35.processEcm m er).2.size ≤
        ((er.cpti + 1) * Camd35.reqSize : Nat)) ↔ ecmLength m 21 ≤ 509 := by
  have short := ecmLength_lt m 21
  have same : toInt16 (ecmLength m 21 + 3) = ecmLength m 21 + 3 := by
    apply toInt16_of_small
    · omega
    · omega
  simp only [EcmFits, Camd35.processEcm, same, ecmSize, Camd35.reqSize]
  omega

theorem newcamd_fits (env : Newcamd.Env) (m : Memory) (er : EcmRequest) :
    EcmFits (Newcamd.processEcm env m er) := by
  have short := (m 4).toNat_lt
  have same : toInt16 ((m 4).toNat + 3) = (m 4).toNat + 3 := by
    apply toInt16_of_small
    · omega
    · omega
  simp only [EcmFits, Newcamd.processEcm, same, ecmSize]
  omega

/-- The copies of an accepted ECM stay inside their buffers if and only if its
length field fits. -/
theorem inBounds_iff (message : EcmMessage) (accepted : message.Accepted) :
    message.InBounds ↔ message.LengthFits := by
  cases message with
  | camd35 env input buffer er =>
      constructor
      · intro bounds received member
        exact (camd35_fits_iff received.2 er).mp (bounds received member)
      · intro fits received member
        exact (camd35_fits_iff received.2 er).mpr (fits received member)
  | cccam block header body buffer er =>
      obtain ⟨size, most⟩ := Cccam.msgRecv_size accepted.1
      have small : Cccam.headerSize block header ≤ 1024 := most
      have same : toInt16 ((Cccam.headerSize block header : Int) + 4 - 17) =
          Cccam.headerSize block header + 4 - 17 := by
        apply toInt16_of_small
        · omega
        · omega
      simp only [InBounds, LengthFits, EcmFits, Cccam.processEcm, size, same,
        ecmSize]
      omega
  | newcamd env proto header body net buffer er =>
      constructor
      · intro _
        trivial
      · intro _
        exact newcamd_fits env _ er

/-- The plain header of a `MSG_CW_ECM` with `size` bytes. -/
def ecmHeader (size : Nat) : List UInt8 :=
  [0, Cccam.msgCwEcm, UInt8.ofNat (size / 256), UInt8.ofNat size]

/-- A CCcam message of `size` zero bytes, as a client with the cipher state of
the server sends it. -/
def cccamMessage (block : Cccam.CryptBlock) (size : Nat) : EcmMessage :=
  let header := Cccam.crypt .encrypt block (ecmHeader size)
  .cccam block header.2
    (Cccam.crypt .encrypt header.1 (List.replicate size 0)).2 Memory.zero
    EcmRequest.zero

theorem sizeField_ecmHeader {size : Nat} (small : size ≤ 1024) :
    Cccam.sizeField (ecmHeader size) = size := by
  simp only [Cccam.sizeField, ecmHeader, List.getD_cons_succ,
    List.getD_cons_zero, UInt8.toNat_ofNat']
  omega

/-- A cipher state whose key table counts up. -/
def countingBlock : Cccam.CryptBlock :=
  { keytable := id, state := 0, counter := 0, sum := 0 }

theorem headerSize_ecmHeader (block : Cccam.CryptBlock) {size : Nat}
    (small : size ≤ 1024) :
    Cccam.headerSize block (Cccam.crypt .encrypt block (ecmHeader size)).2 =
      size := by
  have whole : (Cccam.crypt .encrypt block (ecmHeader size)).2.length ≤ 4 := by
    rw [Cccam.length_crypt]
    rfl
  rw [Cccam.headerSize, List.take_of_length_le whole,
    Cccam.crypt_decrypt_encrypt]
  exact sizeField_ecmHeader small

theorem cccamMessage_accepted (block : Cccam.CryptBlock) {size : Nat}
    (some : 0 < size) (small : size ≤ 1024) :
    (cccamMessage block size).Accepted := by
  have received := Cccam.msgRecv_encrypted block (ecmHeader size)
    (List.replicate size 0) Memory.zero rfl (by simpa using some.ne')
    (by simpa using sizeField_ecmHeader small) (by simpa using small)
  simp only [cccamMessage, Accepted, received, List.length_replicate]
  constructor
  · omega
  · rw [Memory.write_of_lt (by decide)]
    rfl

/-- A message of 26 bytes fits, as its length field does. -/
theorem inBounds_cccamMessage :
    (cccamMessage countingBlock 26).InBounds := by
  refine (inBounds_iff (cccamMessage countingBlock 26)
    (cccamMessage_accepted countingBlock (by decide) (by decide))).mpr ?_
  show 13 ≤ Cccam.headerSize _ _ ∧ Cccam.headerSize _ _ ≤ 525
  rw [headerSize_ecmHeader countingBlock (by decide)]
  decide

/-- In every state of the cipher a client can send a message that is too
short, and one that is too long. -/
theorem ecm_out_of_bounds :
    ¬ ∃ block : Cccam.CryptBlock, ∀ header body buffer er,
      (cccam block header body buffer er).Accepted →
        (cccam block header body buffer er).InBounds := by
  rintro ⟨block, always⟩
  have bounds : (cccamMessage block 8).InBounds :=
    always _ _ _ _ (cccamMessage_accepted block (by decide) (by decide))
  have fits := (inBounds_iff (cccamMessage block 8)
    (cccamMessage_accepted block (by decide) (by decide))).mp bounds
  have low : 13 ≤ Cccam.headerSize block _ := fits.1
  rw [headerSize_ecmHeader block (by decide)] at low
  omega

end EcmMessage

end Oscam
