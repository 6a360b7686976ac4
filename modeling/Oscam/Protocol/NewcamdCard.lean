import Mathlib.Logic.Equiv.Basic
import Oscam.Lib.Chaining
import Oscam.Protocol.EcmLength

/-!
# The card data of a newcamd server

After the login `newcamd_auth_client` announces the providers of a filter in
one message, and `connect_newcamd_server` reads them.  The message goes through
`network_message_send` with its buffer of 272 bytes and through the DES frame;
the records of the providers stand two bytes later in the buffer of the
receiver.
-/

namespace Oscam.Newcamd

/-! ## Sending -/

inductive CommType where
  | client
  | server
  deriving DecidableEq, Repr

/-- `custom_data_t`. -/
structure CustomData where
  sid : Nat
  caid : Nat
  provid : Nat
  deriving DecidableEq, Repr

/-- What `des_random_get` gives for the padding and for the initial vector. -/
structure Random where
  padBytes : Memory
  ivec : Memory

/-- The padding that `des_encrypt` puts behind the data. -/
def noPadBytes (len : Nat) : Nat := (8 - (len - 1) % 8) % 8

/-- The data with its padding, the checksum and the initial vector. -/
def desPad (random : Random) (m : Memory) (len : Nat) : Memory :=
  let m := m.write len (random.padBytes.read 0 (noPadBytes len))
  let len := len + noPadBytes len
  let m := m.write len [(m.read 2 (len - 2)).foldl (· ^^^ ·) 0]
  m.write (len + 1) (random.ivec.read 0 8)

/-- `des_encrypt`: all but the initial vector is encrypted. -/
def desEncrypt (euroDes : List UInt8 → List UInt8) (random : Random)
    (m : Memory) (len : Nat) : Option (Nat × Memory) :=
  if len + noPadBytes len + 1 ≥ netMsgSize - 8 then none
  else
    let m := desPad random m len
    let len := len + noPadBytes len + 1
    some (len + 8,
      (m.chain euroDes 2 8 ((len - 2 + 7) / 8) (random.ivec.read 0 8)).1)

def headSize (proto : Proto) : Nat := if proto = .ncd524 then 8 else 12

/-- A message is numbered, by the client with the next number. -/
def nextMsgId (commType : CommType) (netMsgId : Nat) : Nat :=
  if commType = .client then (netMsgId + 1) % 2 ^ 16 else netMsgId

/-- The length of a message, twelve bits in its second and third byte. -/
def setLength (buffer : Memory) (len : Nat) : Memory :=
  buffer.write 1
    [(buffer 1 &&& 0xf0) ||| UInt8.ofNat ((len - 3) / 256 % 16),
      UInt8.ofNat (len - 3)]

/-- `netbuf` of `network_message_send` before it is encrypted. -/
def netBuffer (proto : Proto) (netMsgId sid : Nat) (cd : Option CustomData)
    (net buffer : Memory) (len : Nat) : Memory :=
  let net := net.write (headSize proto) ((setLength buffer len).read 0 len)
  let net := net.write 2 (Memory.digits 2 netMsgId)
  let net := net.write 4
    (List.replicate (if proto = .ncd524 then 4 else 8) 0)
  let net :=
    if sid ≠ 0 then
      net.write (if proto = .ncd524 then 6 else 4) (Memory.digits 2 sid)
    else net
  let net :=
    match cd with
    | none => net
    | some cd =>
        net.write 4 (Memory.digits 2 cd.sid ++ Memory.digits 2 cd.caid ++
          Memory.digits 3 cd.provid)
  net.write 0 (Memory.digits 2 (len + headSize proto - 2))

/-- `network_message_send`: the bytes that are sent. -/
def messageSend (euroDes : List UInt8 → List UInt8) (random : Random)
    (proto : Proto) (commType : CommType) (netMsgId sid : Nat)
    (cd : Option CustomData) (net buffer : Memory) (len : Nat) :
    Option (List UInt8) :=
  if len < 3 ∨ len + headSize proto > netMsgSize then none
  else
    (desEncrypt euroDes random
      (netBuffer proto (nextMsgId commType netMsgId) sid cd net buffer len)
      (len + headSize proto)).map fun (len, net) =>
        (net.write 0 (Memory.digits 2 (len - 2))).read 0 len

/-! ## The server -/

/-- `CS_MAXPROV`. -/
abbrev csMaxprov : Nat := 32

/-- `MSG_CARD_DATA`. -/
abbrev msgCardData : UInt8 := 0xe4

/-- One entry of a `FTAB`. -/
structure Filter where
  caid : UInt16
  prids : List UInt32
  nprids_le : prids.length ≤ csMaxprov

/-- What is announced of the reader for which the client is the AU client. -/
structure AuReader where
  caid : UInt16
  hexserial : Memory
  nprov : Nat
  prid : Nat → Memory
  sa : Nat → Memory
  blockemm : Nat

structure Server where
  filter : Filter
  aureader : Option AuReader
  threadnum : Nat
  ncdMsgid : Nat

/-- Betacrypt and Irdeto cards. -/
def betaIrdeto (caid : UInt16) : Bool :=
  caid.toNat / 256 == 0x17 || caid.toNat / 256 == 0x06

/-- `hexserial_to_newcamd`. -/
def hexserialToNewcamd (source : Memory) (caid : UInt16) : List UInt8 :=
  if betaIrdeto caid then
    [0, 0, source 3, source 0, source 1, source 2]
  else if caid.toNat / 256 = 0x05 ∨ caid.toNat / 256 = 0x0D then
    0 :: source.read 0 5
  else source.read 0 6

namespace Server

variable (server : Server)

def prid (j : Nat) : UInt32 := server.filter.prids.getD j 0

/-- The bytes 15, 16 and 17 of a record. -/
def providerBytes (j : Nat) : List UInt8 :=
  if betaIrdeto server.filter.caid then [0, 0, UInt8.ofNat j]
  else Memory.digits 3 (server.prid j).toNat

/-- The place of a provider on the card. -/
def onCard (aureader : AuReader) (j : Nat) : Option Nat :=
  if server.filter.caid = aureader.caid then
    (List.range aureader.nprov).find? fun k =>
      (aureader.prid k).number 1 3 == (server.prid j).toNat
  else none

/-- The shared address that is announced for a provider: the bytes 22 to 25 of
a record. -/
def sharedAddress (j : Nat) : List UInt8 :=
  match server.aureader with
  | some aureader =>
      -- check if user provid from IDENT exists on card
      match server.onCard aureader j with
      | some k =>
          if betaIrdeto server.filter.caid then (aureader.prid k).read 0 4
          else (aureader.sa k).read 0 4
      | none => [0, 0, 0, 0]
  | none =>
      if betaIrdeto server.filter.caid then
        0 :: Memory.digits 3 (server.prid j).toNat
      else [0, 0, 0, 0]

def record (j : Nat) : List UInt8 :=
  server.providerBytes j ++ [0, 0, 0, 0] ++ server.sharedAddress j

def nprids : Nat := server.filter.prids.length

def userNumber : UInt8 :=
  match server.aureader with
  | some _ => 1
  | none => UInt8.ofNat (server.threadnum + 10) -- Unique user number

def serial : List UInt8 :=
  match server.aureader with
  | some aureader => hexserialToNewcamd aureader.hexserial server.filter.caid
  | none => List.replicate 6 0

/-- The head of the message. -/
def cardHead : List UInt8 :=
  [msgCardData, 0, 0, server.userNumber,
    UInt8.ofNat (server.filter.caid.toNat / 256),
    UInt8.ofNat server.filter.caid.toNat, 0, 0] ++
  server.serial ++ [UInt8.ofNat server.nprids]

/-- `mbuf` of `newcamd_auth_client` with the card data. -/
def cardData (mbuf : Memory) : Memory :=
  (mbuf.write 0 server.cardHead).writeRecords server.record 15 11
    server.nprids

/-- The messages that are blocked, one bit each. -/
def customData : CustomData :=
  let blocked (flag : Nat) : Bool :=
    match server.aureader with
    | some aureader => aureader.blockemm / flag % 2 == 1
    | none => false
  { sid :=
      (if blocked 4 then 4 else 0) + (if blocked 2 then 2 else 0) +
        (if blocked 1 then 1 else 0)
    caid := 0
    provid := 0 }

/-- The end of `newcamd_auth_client`: the bytes of the card data message, or
`none` when the thread exits. -/
def authClient (euroDes : List UInt8 → List UInt8) (random : Random)
    (proto : Proto) (net mbuf : Memory) : Option (List UInt8) :=
  messageSend euroDes random proto .server server.ncdMsgid 0
    (some server.customData) net (server.cardData mbuf)
    (15 + 11 * server.nprids)

end Server

/-! ## The client -/

/-- The frame that `network_message_receive` reads, decrypted, or its return
code.  `header` and `body` are what the two calls of `recv` deliver. -/
def receiveFrame (env : Env) (header body : List UInt8) (net : Memory) :
    Except Int (Nat × Memory) :=
  let net := net.write 0 (header.take 2)
  let size := (net 0).toNat * 256 + (net 1).toNat
  if (header.take 2).length = 0 then .error 0
  else if (header.take 2).length ≠ 2 then .error (-1)
  else if size > netMsgSize - 2 then .error (-1)
  else if (body.take size).length = 0 then .error 0
  else if (body.take size).length ≠ size then .error (-1)
  else
    match desDecrypt env (net.write 2 (body.take size)) (size + 2) with
    | none => .error (-1)
    | some (len, net) => if len < 11 then .error (-1) else .ok (len, net)

/-- The rest of `network_message_receive` on the client: the number of the
message and the message. -/
def clientMessage (proto : Proto) (len : Nat) (net buffer : Memory) :
    Int × Memory :=
  match detect proto net len with
  | none => (-1, buffer)
  | some proto =>
      let ncdOff := if proto = .ncd525 then 4 else 0
      let returnLen := ecmLength net (9 + ncdOff) + 3
      if (returnLen : Int) > len - (8 + ncdOff : Nat) then (-1, buffer)
      else
        (returnLen + 2,
          buffer.write 0 (net.read 2 2 ++ net.read (8 + ncdOff) returnLen))

/-- `network_message_receive` on the client. -/
def clientReceive (env : Env) (proto : Proto) (header body : List UInt8)
    (net buffer : Memory) : Int × Memory :=
  match receiveFrame env header body net with
  | .error code => (code, buffer)
  | .ok (len, net) => clientMessage proto len net buffer

/-- `newcamd_to_hexserial`. -/
def newcamdToHexserial (source dest : Memory) (caid : Nat) : Memory :=
  if caid / 256 = 0x17 ∨ caid / 256 = 0x06 then
    dest.write 0 (source.read 3 3 ++ [source 2, 0, 0])
  else if caid / 256 = 0x05 ∨ caid / 256 = 0x0D then
    dest.write 0 (source.read 1 5 ++ [0])
  else dest.write 0 (source.read 0 6)

/-- What the card data sets in `s_reader`. -/
structure CardReader where
  caid : Nat
  hexserial : Memory
  nprov : Nat
  prid : List (List UInt8)
  sa : List (List UInt8)

/-- Step 5 of `connect_newcamd_server`. -/
def parseCard (buf hexserial : Memory) : CardReader :=
  let caid := buf.number 6 2
  let nprov := (buf 16).toNat
  { caid := caid
    hexserial :=
      newcamdToHexserial (fun i => buf (10 + i)) hexserial caid
    nprov := nprov
    prid := (List.range nprov).map fun i => 0 :: buf.read (17 + 11 * i) 3
    -- the 4 first bytes are not read
    sa := (List.range nprov).map fun i => buf.read (24 + 11 * i) 4 }

/-- `connect_newcamd_server` from the answer to `MSG_CARD_DATA_REQ` on. -/
def connectNewcamdServer (env : Env) (proto : Proto)
    (header body : List UInt8) (net buf hexserial : Memory) :
    Option CardReader :=
  let received := clientReceive env proto header body net buf
  if received.1 < 16 ∨ received.2 2 ≠ msgCardData then none
  else some (parseCard received.2 hexserial)

/-! ## The frame -/

variable {env : Env} {euroDes : List UInt8 → List UInt8} {random : Random}
  {m net buffer : Memory} {len : Nat}

theorem desBlocks_eq (env : Env) (m : Memory) (len : Nat) :
    desBlocks env m len =
      (m.unchain env.euroDes 2 8 ((len - 2) / 8) (m.read len 8)).1 := rfl

/-- The padding fills the last block up to the checksum. -/
theorem noPadBytes_spec (some : 0 < len) :
    (len + noPadBytes len - 1) % 8 = 0 := by
  unfold noPadBytes
  omega

theorem desPad_of_lt {i : Nat} (data : i < len) :
    desPad random m len i = m i := by
  unfold desPad
  rw [Memory.write_of_lt (by omega), Memory.write_of_lt (by omega),
    Memory.write_of_lt data]

theorem read_desPad_ivec (random : Random) (m : Memory) (len : Nat) :
    (desPad random m len).read (len + noPadBytes len + 1) 8 =
      random.ivec.read 0 8 := by
  have written := Memory.read_write
    ((m.write len (random.padBytes.read 0 (noPadBytes len))).write
      (len + noPadBytes len)
      [((m.write len (random.padBytes.read 0 (noPadBytes len))).read 2
        (len + noPadBytes len - 2)).foldl (· ^^^ ·) 0])
    (len + noPadBytes len + 1) (random.ivec.read 0 8)
  rwa [Memory.length_read] at written

/-- All bytes together with the checksum cancel out. -/
theorem checksum_desPad (random : Random) (m : Memory) (two : 2 ≤ len) :
    ((desPad random m len).read 2 (len + noPadBytes len - 1)).foldl
      (· ^^^ ·) 0 = 0 := by
  let data := m.write len (random.padBytes.read 0 (noPadBytes len))
  let sum := (data.read 2 (len + noPadBytes len - 2)).foldl (· ^^^ ·) 0
  have front : (desPad random m len).read 2 (len + noPadBytes len - 2) =
      data.read 2 (len + noPadBytes len - 2) := by
    apply Memory.read_congr
    intro i _low high
    unfold desPad
    rw [Memory.write_of_lt (by omega), Memory.write_of_lt (by omega)]
  have behind : (desPad random m len).read (len + noPadBytes len) 1 =
      [sum] := by
    have written := Memory.read_write data (len + noPadBytes len) [sum]
    rw [← written]
    apply Memory.read_congr
    intro i _low high
    exact Memory.write_of_lt (by omega)
  have split : len + noPadBytes len - 1 = len + noPadBytes len - 2 + 1 := by
    omega
  have place : 2 + (len + noPadBytes len - 2) = len + noPadBytes len := by
    omega
  rw [split, Memory.read_add, place, front, behind, List.foldl_append]
  show sum ^^^ sum = 0
  exact UInt8.xor_self

/-- What `des_decrypt` makes of an encrypted frame, with its padding. -/
theorem desDecrypt_desPad
    (cipher : Memory.BlockCipher 8 euroDes env.euroDes) (two : 2 ≤ len)
    {n : Nat} {c x : Memory}
    (sent : desEncrypt euroDes random m len = some (n, c))
    (same : ∀ i, 2 ≤ i → i < n → x i = c i) :
    n = len + noPadBytes len + 9 ∧ n < netMsgSize ∧
      ∃ d, desDecrypt env x n = some (n - 8, d) ∧
        ∀ i, 2 ≤ i → i < len + noPadBytes len + 1 →
          d i = desPad random m len i := by
  unfold desEncrypt at sent
  split at sent
  · cases sent
  rename_i fits
  obtain ⟨rfl, rfl⟩ := Prod.mk.inj (Option.some.inj sent)
  have vector : (random.ivec.read 0 8).length = 8 := Memory.length_read ..
  obtain ⟨blocks, all⟩ : ∃ blocks, len + noPadBytes len - 1 = 8 * blocks :=
    ⟨(len + noPadBytes len - 1) / 8, by
      have full : (len + noPadBytes len - 1) % 8 = 0 :=
        noPadBytes_spec (by omega)
      omega⟩
  have count : (len + noPadBytes len + 1 - 2 + 7) / 8 = blocks := by omega
  rw [count] at same
  have chained := Memory.chained_chain cipher vector (desPad random m len) 2
    blocks
  have ivec : x.read (len + noPadBytes len + 1) 8 = random.ivec.read 0 8 := by
    rw [← read_desPad_ivec random m len]
    apply Memory.read_congr
    intro i low high
    rw [same i (by omega) (by omega),
      chained.outside i (.inr (by omega))]
  have held : ∀ i < blocks, x.read (2 + 8 * i) 8 =
      Memory.chained euroDes (desPad random m len) 2 8
        (random.ivec.read 0 8) (i + 1) := by
    intro i inside
    rw [← chained.block i inside]
    apply Memory.read_congr
    intro j low high
    exact same j (by omega) (by omega)
  have plain := Memory.unchained_unchain cipher vector held
  let d := (x.unchain env.euroDes 2 8 blocks (random.ivec.read 0 8)).1
  have bytes : ∀ i, 2 ≤ i → i < len + noPadBytes len + 1 →
      d i = desPad random m len i := by
    intro i low high
    exact Memory.apply_of_blocks plain.block low (by omega)
  refine ⟨rfl, by omega, d, ?_, bytes⟩
  · have data : d.read 2 (len + noPadBytes len - 1) =
        (desPad random m len).read 2 (len + noPadBytes len - 1) := by
      apply Memory.read_congr
      intro i low high
      exact bytes i low (by omega)
    have sum : (d.read 2 (len + noPadBytes len - 1)).foldl (· ^^^ ·) 0 =
        0 := by
      rw [data]
      exact checksum_desPad random m two
    have decrypted : desBlocks env x (len + noPadBytes len + 1) = d := by
      rw [desBlocks_eq, ivec]
      have same : (len + noPadBytes len + 1 - 2) / 8 = blocks := by omega
      rw [same]
    have size : len + noPadBytes len + 1 + 8 - 8 =
        len + noPadBytes len + 1 := by omega
    unfold desDecrypt
    rw [if_neg (by omega), size]
    dsimp only
    rw [decrypted]
    have rest : len + noPadBytes len + 1 - 2 = len + noPadBytes len - 1 := by
      omega
    rw [rest, if_neg (by rw [sum]; simp)]

variable {proto : Proto} {commType : CommType} {netMsgId sid : Nat}
  {cd : Option CustomData}

/-- A message is sent when it fits the buffer with the padding, the checksum
and the initial vector. -/
theorem messageSend_isSome :
    (messageSend euroDes random proto commType netMsgId sid cd net buffer
      len).isSome ↔
      3 ≤ len ∧ len + headSize proto + noPadBytes (len + headSize proto) + 1 <
        netMsgSize - 8 := by
  unfold messageSend desEncrypt
  have room : netMsgSize = 272 := rfl
  split
  · simp only [Option.isSome_none, Bool.false_eq_true, false_iff]
    omega
  · rw [Option.isSome_map]
    split
    · simp only [Option.isSome_none, Bool.false_eq_true, false_iff]
      omega
    · simp only [Option.isSome_some, true_iff]
      omega

/-- The first two bytes of a frame say how many follow. -/
theorem size_digits (m : Memory) {n : Nat} (small : n < 2 ^ 16) :
    ((m.write 0 (Memory.digits 2 n)) 0).toNat * 256 +
      ((m.write 0 (Memory.digits 2 n)) 1).toNat = n := by
  have first : (m.write 0 (Memory.digits 2 n)) 0 = UInt8.ofNat (n / 256) := by
    simp [Memory.digits, Memory.write]
  have second : (m.write 0 (Memory.digits 2 n)) 1 = UInt8.ofNat n := by
    simp [Memory.digits, Memory.write]
  rw [first, second, UInt8.toNat_ofNat', UInt8.toNat_ofNat']
  omega

/-- A frame arrives with the bytes that were in the buffer of the sender, and
the padding. -/
theorem receiveFrame_desPad
    (cipher : Memory.BlockCipher 8 euroDes env.euroDes) (received : Memory)
    {bytes : List UInt8}
    (sent : messageSend euroDes random proto commType netMsgId sid cd net
      buffer len = some bytes) :
    ∃ size d,
      receiveFrame env (bytes.take 2) (bytes.drop 2) received =
        .ok (size, d) ∧
      size = len + headSize proto + noPadBytes (len + headSize proto) + 1 ∧
      ∀ i, 2 ≤ i → i < size →
        d i = desPad random
          (netBuffer proto (nextMsgId commType netMsgId) sid cd net buffer len)
          (len + headSize proto) i := by
  unfold messageSend at sent
  split at sent
  · cases sent
  rename_i fits
  obtain ⟨⟨n, c⟩, encrypted, rfl⟩ := Option.map_eq_some_iff.mp sent
  have head : 8 ≤ headSize proto := by
    unfold headSize
    split <;> omega
  let x := (received.write 0 (Memory.digits 2 (n - 2))).write 2
    (c.read 2 (n - 2))
  have same : ∀ i, 2 ≤ i → i < n → x i = c i := by
    intro i low high
    obtain ⟨j, rfl⟩ := Nat.le.dest low
    have inside : j < n - 2 := by omega
    show (Memory.write _ 2 (c.read 2 (n - 2))) (2 + j) = c (2 + j)
    rw [Memory.write_inside (by rw [Memory.length_read]; exact inside),
      Memory.getD_read c 2 inside]
  obtain ⟨count, room, d, decrypted, plain⟩ :=
    desDecrypt_desPad cipher (by omega) encrypted same
  have small : n < 272 := room
  have frame : (c.write 0 (Memory.digits 2 (n - 2))).read 0 n =
      Memory.digits 2 (n - 2) ++ c.read 2 (n - 2) := by
    have split : n = 2 + (n - 2) := by omega
    have front := Memory.read_write c 0 (Memory.digits 2 (n - 2))
    rw [Memory.length_digits] at front
    conv_lhs => rw [split, Memory.read_add]
    rw [show 2 + (n - 2) - 2 = n - 2 by omega, front]
    congr 1
    apply Memory.read_congr
    intro i low _high
    exact Memory.write_of_le (by rw [Memory.length_digits]; omega)
  have header : ((c.write 0 (Memory.digits 2 (n - 2))).read 0 n).take 2 =
      Memory.digits 2 (n - 2) := by
    rw [frame, List.take_left' (Memory.length_digits 2 (n - 2))]
  have body : ((c.write 0 (Memory.digits 2 (n - 2))).read 0 n).drop 2 =
      c.read 2 (n - 2) := by
    rw [frame, List.drop_left' (Memory.length_digits 2 (n - 2))]
  have whole : (c.read 2 (n - 2)).take (n - 2) = c.read 2 (n - 2) :=
    List.take_of_length_le (Nat.le_of_eq (Memory.length_read ..))
  have two : (Memory.digits 2 (n - 2)).take 2 = Memory.digits 2 (n - 2) :=
    List.take_of_length_le (Nat.le_of_eq (Memory.length_digits ..))
  have back : n - 2 + 2 = n := by omega
  refine ⟨n - 8, d, ?_, by omega, fun i low high => plain i low (by omega)⟩
  show receiveFrame env
    (((c.write 0 (Memory.digits 2 (n - 2))).read 0 n).take 2)
    (((c.write 0 (Memory.digits 2 (n - 2))).read 0 n).drop 2) received = _
  rw [header, body]
  unfold receiveFrame
  rw [two]
  dsimp only
  rw [size_digits received (by omega), whole, Memory.length_digits,
    Memory.length_read, if_neg (by omega), if_neg (by omega),
    if_neg (by show ¬ n - 2 > 270; omega), if_neg (by omega),
    if_neg (by omega), back, decrypted]
  dsimp only
  rw [if_neg (by omega)]

/-- A frame arrives with the bytes that were in the buffer of the sender. -/
theorem receiveFrame_messageSend
    (cipher : Memory.BlockCipher 8 euroDes env.euroDes) (received : Memory)
    {bytes : List UInt8}
    (sent : messageSend euroDes random proto commType netMsgId sid cd net
      buffer len = some bytes) :
    ∃ size d,
      receiveFrame env (bytes.take 2) (bytes.drop 2) received =
        .ok (size, d) ∧
      len + headSize proto < size ∧
      ∀ i, 2 ≤ i → i < len + headSize proto →
        d i = netBuffer proto (nextMsgId commType netMsgId) sid cd net buffer
          len i := by
  obtain ⟨size, d, frame, count, plain⟩ :=
    receiveFrame_desPad cipher received sent
  refine ⟨size, d, frame, by omega, ?_⟩
  intro i low high
  rw [plain i low (by omega), desPad_of_lt high]

/-! ## What the buffers hold -/

theorem headSize_of_ne (other : proto ≠ .ncd524) : headSize proto = 12 :=
  if_neg other

/-- The message stands behind a head of twelve bytes, which the custom data
does not pass. -/
theorem netBuffer_data (other : proto ≠ .ncd524) (netMsgId : Nat)
    (data : CustomData) (net buffer : Memory) {i : Nat} (inside : i < len) :
    netBuffer proto netMsgId 0 (some data) net buffer len (12 + i) =
      setLength buffer len i := by
  unfold netBuffer
  rw [headSize_of_ne other]
  dsimp only
  rw [if_neg (fun sid => sid rfl), if_neg other,
    Memory.write_of_le (by rw [Memory.length_digits]; omega),
    Memory.write_of_le (by
      simp only [List.length_append, Memory.length_digits]
      omega),
    Memory.write_of_le (by rw [List.length_replicate]; omega),
    Memory.write_of_le (by rw [Memory.length_digits]; omega),
    Memory.write_inside (by rw [Memory.length_read]; exact inside),
    Memory.getD_read _ _ inside, Nat.zero_add]

/-- The head of protocol 524 has eight bytes: custom data goes over the command
and the length behind them. -/
theorem netBuffer_ncd524 (netMsgId : Nat) {data : CustomData}
    (provid : data.provid = 0) (net buffer : Memory) (len : Nat) :
    (netBuffer .ncd524 netMsgId 0 (some data) net buffer len).read 8 3 =
      [0, 0, 0] := by
  let front := ((net.write 8 ((setLength buffer len).read 0 len)).write 2
    (Memory.digits 2 netMsgId)).write 4 (List.replicate 4 0)
  let custom := Memory.digits 2 data.sid ++ Memory.digits 2 data.caid ++
    Memory.digits 3 data.provid
  have seven : custom.length = 7 := by
    simp only [custom, List.length_append, Memory.length_digits]
  have written := Memory.read_write front 4 custom
  have part := Memory.read_part (front.write 4 custom) 4
    (show 4 + 3 ≤ 7 by omega)
  rw [seven] at written
  have zeros : (custom.drop 4).take 3 = [0, 0, 0] := by
    simp only [custom, provid]
    rfl
  rw [written, zeros] at part
  rw [← part]
  apply Memory.read_congr
  intro i low _high
  exact Memory.write_of_le (by rw [Memory.length_digits]; omega)

theorem setLength_of_ne (buffer : Memory) (len : Nat) {i : Nat}
    (first : i ≠ 1) (second : i ≠ 2) : setLength buffer len i = buffer i := by
  unfold setLength
  by_cases zero : i = 0
  · exact Memory.write_of_lt (by omega)
  · exact Memory.write_of_le (by
      simp only [List.length_cons, List.length_nil]
      omega)

/-- The low half of a byte that was put behind the high half of another. -/
theorem low_half (high low : UInt8) (small : low.toNat < 16) :
    ((high &&& 0xf0) ||| low).toNat % 16 = low.toNat := by
  have upper : 0xf0 % 2 ^ 4 = 0 := rfl
  show _ % 2 ^ 4 = _
  rw [UInt8.toNat_or, UInt8.toNat_and, Nat.or_mod_two_pow,
    Nat.and_mod_two_pow]
  show (high.toNat % 2 ^ 4 &&& 0) ||| low.toNat % 2 ^ 4 = low.toNat
  rw [Nat.and_zero, Nat.zero_or, Nat.mod_eq_of_lt small]

theorem ecmLength_setLength (buffer : Memory) (small : len - 3 < 4096) :
    ecmLength (setLength buffer len) 1 = len - 3 := by
  have first : setLength buffer len 1 =
      (buffer 1 &&& 0xf0) ||| UInt8.ofNat ((len - 3) / 256 % 16) := by
    simp [setLength, Memory.write]
  have second : setLength buffer len 2 = UInt8.ofNat (len - 3) := by
    simp [setLength, Memory.write]
  have half : (UInt8.ofNat ((len - 3) / 256 % 16)).toNat =
      (len - 3) / 256 % 16 := by
    rw [UInt8.toNat_ofNat']
    omega
  unfold ecmLength
  rw [first, second, low_half _ _ (by rw [half]; omega), half,
    UInt8.toNat_ofNat']
  omega

/-- A message behind a head of twelve bytes is read as it was sent. -/
theorem clientMessage_of_ne (other : proto ≠ .ncd524) {size : Nat}
    {d sent : Memory} (card : sent 0 = msgCardData) (three : 3 ≤ len)
    (small : len - 3 < 4096) (whole : len + 12 < size)
    (same : ∀ i < len, d (12 + i) = setLength sent len i) :
    ∃ message : Memory, clientMessage proto size d buffer =
        ((len : Int) + 2, message) ∧
      ∀ i < len, message (2 + i) = setLength sent len i := by
  have length : ecmLength d 13 = len - 3 := by
    have bytes := ecmLength_setLength sent small
    unfold ecmLength at bytes ⊢
    rw [← bytes, ← same 1 (by omega), ← same 2 (by omega)]
  have first : d 12 = msgCardData := by
    rw [← card, ← setLength_of_ne sent len (by omega : 0 ≠ 1) (by omega),
      ← same 0 (by omega)]
  have detected : detect proto d size = some .ncd525 := by
    unfold detect
    cases proto with
    | auto =>
        have command : (d 12).toNat / 16 = 0xE := by
          rw [first]
          rfl
        dsimp only
        rw [if_neg (by simp),
          if_pos ⟨by rw [length]; omega, .inl command⟩]
    | ncd525 => rfl
    | ncd524 => exact absurd rfl other
  refine ⟨buffer.write 0 (d.read 2 2 ++ d.read 12 len), ?_, ?_⟩
  · unfold clientMessage
    rw [detected]
    dsimp only
    rw [if_pos rfl, length, if_neg (by omega)]
    have back : len - 3 + 3 = len := by omega
    rw [back]
  · intro i inside
    have placed : 2 + i < (d.read 2 2 ++ d.read 12 len).length := by
      simp only [List.length_append, Memory.length_read]
      omega
    have written : buffer.write 0 (d.read 2 2 ++ d.read 12 len) (0 + (2 + i)) =
        (d.read 2 2 ++ d.read 12 len).getD (2 + i) 0 :=
      Memory.write_inside placed
    rw [Nat.zero_add] at written
    rw [written, List.getD_append_right _ _ _ _ (by
        rw [Memory.length_read]
        omega), Memory.length_read, Nat.add_sub_cancel_left,
      Memory.getD_read _ _ inside, same i inside]

/-- With the head of protocol 524 the client finds no command and no length. -/
theorem clientMessage_ncd524 {size : Nat} {d : Memory}
    (zeros : d.read 8 3 = [0, 0, 0]) :
    (clientMessage .ncd524 size d buffer).1 < 16 := by
  have bytes := List.cons.inj zeros
  have first : d 9 = 0 := (List.cons.inj bytes.2).1
  have second : d 10 = 0 := (List.cons.inj (List.cons.inj bytes.2).2).1
  have length : ecmLength d 9 = 0 := by
    unfold ecmLength
    rw [first, second]
    rfl
  unfold clientMessage
  have detected : detect .ncd524 d size = some .ncd524 := rfl
  have other : ¬ Proto.ncd524 = Proto.ncd525 := by decide
  rw [detected]
  dsimp only
  rw [if_neg other, length]
  split
  · show (-1 : Int) < 16
    decide
  · show ((0 + 3 : Nat) : Int) + 2 < 16
    decide

/-! ## What the client parses -/

theorem length_hexserialToNewcamd (source : Memory) (caid : UInt16) :
    (hexserialToNewcamd source caid).length = 6 := by
  unfold hexserialToNewcamd
  split_ifs
  · rfl
  · rw [List.length_cons, Memory.length_read]
  · rw [Memory.length_read]

namespace Server

variable {server : Server} {mbuf message hexserial : Memory}

theorem length_serial (server : Server) : server.serial.length = 6 := by
  unfold serial
  split
  · exact length_hexserialToNewcamd _ _
  · rfl

theorem length_cardHead (server : Server) : server.cardHead.length = 15 := by
  unfold cardHead
  simp only [List.length_append, List.length_cons, List.length_nil,
    length_serial]

theorem length_providerBytes (server : Server) (j : Nat) :
    (server.providerBytes j).length = 3 := by
  unfold providerBytes
  split
  · rfl
  · rw [Memory.length_digits]

theorem length_sharedAddress (server : Server) (j : Nat) :
    (server.sharedAddress j).length = 4 := by
  unfold sharedAddress
  split
  · split
    · split <;> rw [Memory.length_read]
    · rfl
  · split
    · rw [List.length_cons, Memory.length_digits]
    · rfl

theorem length_record (server : Server) (j : Nat) :
    (server.record j).length = 11 := by
  unfold record
  simp only [List.length_append, List.length_cons, List.length_nil,
    length_providerBytes, length_sharedAddress]

theorem nprids_le (server : Server) : server.nprids ≤ 32 :=
  server.filter.nprids_le

theorem cardData_head {i : Nat} (inside : i < 15) :
    server.cardData mbuf i = server.cardHead.getD i 0 := by
  unfold cardData
  have placed : mbuf.write 0 server.cardHead (0 + i) =
      server.cardHead.getD i 0 :=
    Memory.write_inside (by rw [length_cardHead]; exact inside)
  rw [Memory.writeRecords_of_lt inside, ← placed, Nat.zero_add]

theorem read_record {j : Nat} (inside : j < server.nprids) :
    (server.cardData mbuf).read (15 + 11 * j) 11 = server.record j :=
  Memory.read_writeRecords server.length_record inside

/-- The bytes of the message that the client reads. -/
def Carries (server : Server) (mbuf message : Memory) : Prop :=
  ∀ i, 3 ≤ i → i < 15 + 11 * server.nprids →
    message (2 + i) = server.cardData mbuf i

theorem Carries.read (carries : server.Carries mbuf message) {off n : Nat}
    (low : 3 ≤ off) (high : off + n ≤ 15 + 11 * server.nprids) :
    message.read (2 + off) n = (server.cardData mbuf).read off n := by
  apply Memory.read_of_apply
  intro i inside
  rw [Nat.add_assoc]
  exact carries (off + i) (by omega) (by omega)

theorem Carries.record (carries : server.Carries mbuf message)
    {j start n : Nat} (inside : j < server.nprids) (part : start + n ≤ 11) :
    message.read (17 + 11 * j + start) n =
      ((server.record j).drop start).take n := by
  rw [← read_record inside, ← Memory.read_part _ _ part]
  have place : 17 + 11 * j + start = 2 + (15 + 11 * j + start) := by omega
  rw [place]
  exact carries.read (by omega) (by omega)

theorem Carries.caid (carries : server.Carries mbuf message) :
    message.number 6 2 = server.filter.caid.toNat := by
  have small : server.filter.caid.toNat < 256 ^ 2 :=
    server.filter.caid.toNat_lt
  have bytes : message.read 6 2 =
      Memory.digits 2 server.filter.caid.toNat := by
    have moved := carries.read (show 3 ≤ 4 by omega)
      (show 4 + 2 ≤ 15 + 11 * server.nprids by omega)
    refine moved.trans ?_
    show [server.cardData mbuf 4, server.cardData mbuf 5] = _
    rw [cardData_head (by omega), cardData_head (by omega)]
    simp [cardHead, Memory.digits]
  rw [Memory.number_of_read bytes, Nat.mod_eq_of_lt small]

theorem Carries.nprov (carries : server.Carries mbuf message) :
    (message 16).toNat = server.nprids := by
  have few := server.nprids_le
  have byte : message 16 = UInt8.ofNat server.nprids := by
    have moved := carries 14 (by omega) (by omega)
    refine moved.trans ?_
    rw [cardData_head (by omega)]
    unfold cardHead
    rw [List.getD_append_right _ _ _ _ (by
      simp only [List.length_append, List.length_cons, List.length_nil,
        length_serial]
      omega)]
    simp only [List.length_append, List.length_cons, List.length_nil,
      length_serial]
    rfl
  rw [byte, UInt8.toNat_ofNat']
  omega

/-- The client parses the announced providers. -/
theorem Carries.parse (carries : server.Carries mbuf message) :
    parseCard message hexserial =
      { caid := server.filter.caid.toNat
        hexserial :=
          newcamdToHexserial (fun i => message (10 + i)) hexserial
            server.filter.caid.toNat
        nprov := server.nprids
        prid := (List.range server.nprids).map fun j =>
          0 :: server.providerBytes j
        sa := (List.range server.nprids).map server.sharedAddress } := by
  have provider (j : Nat) (inside : j < server.nprids) :
      message.read (17 + 11 * j) 3 = server.providerBytes j := by
    have three := server.length_providerBytes j
    refine (carries.record (show j < server.nprids from inside)
      (show 0 + 3 ≤ 11 by omega)).trans ?_
    rw [Server.record, List.append_assoc, List.drop_zero,
      List.take_left' three]
  have address (j : Nat) (inside : j < server.nprids) :
      message.read (24 + 11 * j) 4 = server.sharedAddress j := by
    have seven : (server.providerBytes j ++ [0, 0, 0, 0]).length = 7 := by
      rw [List.length_append, length_providerBytes]
      rfl
    have place : 24 + 11 * j = 17 + 11 * j + 7 := by omega
    rw [place, carries.record inside (by omega), Server.record,
      List.drop_left' seven]
    exact List.take_of_length_le
      (Nat.le_of_eq (length_sharedAddress server j))
  have prids : (List.range server.nprids).map
      (fun i => 0 :: message.read (17 + 11 * i) 3) =
        (List.range server.nprids).map fun j =>
          0 :: server.providerBytes j := by
    apply List.map_congr_left
    intro j member
    rw [provider j (List.mem_range.mp member)]
  have addresses : (List.range server.nprids).map
      (fun i => message.read (24 + 11 * i) 4) =
        (List.range server.nprids).map server.sharedAddress := by
    apply List.map_congr_left
    intro j member
    exact address j (List.mem_range.mp member)
  unfold parseCard
  dsimp only
  rw [carries.caid, carries.nprov, prids, addresses]

end Server

/-- The identification of a provider, `b2i(3, &prid[i][1])`. -/
def provid (bytes : List UInt8) : Nat :=
  (bytes.drop 1).foldl (fun value byte => value * 256 + byte.toNat) 0

/-- The reader has the card data of the server. -/
structure SameCard (server : Server) (reader : CardReader) : Prop where
  caid : reader.caid = server.filter.caid.toNat
  nprov : reader.nprov = server.nprids
  limit : reader.nprov ≤ csMaxprov
  prid : betaIrdeto server.filter.caid = false →
    reader.prid.map provid = server.filter.prids.map UInt32.toNat
  sa : reader.sa = (List.range server.nprids).map server.sharedAddress

/-- The server sends the card data and the client parses it. -/
def CardArrives (server : Server) (env : Env)
    (euroDes : List UInt8 → List UInt8) (random : Random) (proto : Proto)
    (net mbuf received buf hexserial : Memory) : Prop :=
  ∃ bytes ∈ server.authClient euroDes random proto net mbuf,
    ∃ reader ∈ connectNewcamdServer env proto (bytes.take 2) (bytes.drop 2)
      received buf hexserial,
      SameCard server reader

variable {server : Server} {received buf hexserial mbuf : Memory}

theorem prids_map (server : Server)
    (other : betaIrdeto server.filter.caid = false) :
    ((List.range server.nprids).map fun j =>
      0 :: server.providerBytes j).map provid =
        server.filter.prids.map fun prid => prid.toNat % 2 ^ 24 := by
  apply List.ext_getElem
  · simp [Server.nprids]
  · intro j _first second
    have inside : j < server.filter.prids.length := by
      rwa [List.length_map] at second
    have prid : server.prid j = server.filter.prids[j] :=
      List.getD_eq_getElem _ _ inside
    have three : 256 ^ 3 = 2 ^ 24 := rfl
    simp only [List.getElem_map, List.getElem_range]
    unfold provid Server.providerBytes
    rw [other, if_neg (by simp), prid, List.drop_one, List.tail_cons,
      Memory.foldl_digits, Nat.zero_mul, Nat.zero_add, three]

/-- Three bytes hold the identifications if none is longer. -/
theorem prids_iff (prids : List UInt32) :
    (prids.map fun prid => prid.toNat % 2 ^ 24) = prids.map UInt32.toNat ↔
      ∀ prid ∈ prids, prid.toNat < 2 ^ 24 := by
  rw [List.map_inj_left]
  constructor
  · intro same prid member
    rw [← same prid member]
    exact Nat.mod_lt _ (by decide)
  · intro small prid member
    exact Nat.mod_eq_of_lt (small prid member)

/-- The client takes the message, which carries the card data. -/
theorem connect_of_ne (cipher : Memory.BlockCipher 8 euroDes env.euroDes)
    (other : proto ≠ .ncd524) {bytes : List UInt8}
    (sent : server.authClient euroDes random proto net mbuf = some bytes) :
    ∃ message, server.Carries mbuf message ∧
      connectNewcamdServer env proto (bytes.take 2) (bytes.drop 2) received
        buf hexserial = some (parseCard message hexserial) := by
  have few := server.nprids_le
  obtain ⟨size, d, frame, whole, plain⟩ :=
    receiveFrame_messageSend cipher received sent
  rw [headSize_of_ne other] at whole plain
  have card : server.cardData mbuf 0 = msgCardData := by
    rw [Server.cardData_head (by omega)]
    rfl
  have data : ∀ i < 15 + 11 * server.nprids, d (12 + i) =
      setLength (server.cardData mbuf) (15 + 11 * server.nprids) i := by
    intro i inside
    rw [plain (12 + i) (by omega) (by omega)]
    exact netBuffer_data other _ _ _ _ inside
  obtain ⟨message, read, same⟩ := clientMessage_of_ne other
    card (by omega) (by omega) whole data
  have command : message 2 = msgCardData := by
    rw [← card, ← setLength_of_ne (server.cardData mbuf)
      (15 + 11 * server.nprids) (show 0 ≠ 1 by omega) (by omega)]
    exact same 0 (by omega)
  have taken : clientReceive env proto (bytes.take 2) (bytes.drop 2) received
      buf = (((15 + 11 * server.nprids : Nat) : Int) + 2, message) := by
    unfold clientReceive
    rw [frame]
    exact read
  refine ⟨message, ?_, ?_⟩
  · intro i low high
    rw [same i high, setLength_of_ne _ _ (by omega) (by omega)]
  · unfold connectNewcamdServer
    rw [taken]
    dsimp only
    rw [if_neg]
    rintro (short | wrong)
    · omega
    · exact wrong command

/-- With the older protocol the client refuses the message. -/
theorem connect_ncd524 (cipher : Memory.BlockCipher 8 euroDes env.euroDes)
    {bytes : List UInt8}
    (sent : server.authClient euroDes random .ncd524 net mbuf = some bytes) :
    connectNewcamdServer env .ncd524 (bytes.take 2) (bytes.drop 2) received
      buf hexserial = none := by
  obtain ⟨size, d, frame, whole, plain⟩ :=
    receiveFrame_messageSend cipher received sent
  have eight : headSize .ncd524 = 8 := rfl
  rw [eight] at whole plain
  have zeros : d.read 8 3 = [0, 0, 0] := by
    rw [← netBuffer_ncd524 (nextMsgId .server server.ncdMsgid)
      (show server.customData.provid = 0 from rfl) net (server.cardData mbuf)
      (15 + 11 * server.nprids)]
    apply Memory.read_congr
    intro i low high
    exact plain i (by omega) (by omega)
  unfold connectNewcamdServer clientReceive
  rw [frame]
  exact if_pos (.inl (clientMessage_ncd524 zeros))

/-- There is room for twenty providers. -/
theorem authClient_isSome (other : proto ≠ .ncd524) :
    (server.authClient euroDes random proto net mbuf).isSome ↔
      server.nprids ≤ 20 := by
  unfold Server.authClient
  rw [messageSend_isSome, headSize_of_ne other]
  unfold noPadBytes
  have room : netMsgSize = 272 := rfl
  omega

/-- The card data of a server arrives if and only if the connection does not
have the older protocol, there are at most twenty providers, and their
identifications have three bytes. -/
theorem cardArrives_iff
    (cipher : Memory.BlockCipher 8 euroDes env.euroDes) :
    CardArrives server env euroDes random proto net mbuf received buf
        hexserial ↔
      proto ≠ .ncd524 ∧ server.nprids ≤ 20 ∧
        (betaIrdeto server.filter.caid = true ∨
          ∀ prid ∈ server.filter.prids, prid.toNat < 2 ^ 24) := by
  constructor
  · rintro ⟨bytes, sent, reader, parsed, same⟩
    have newer : proto ≠ .ncd524 := by
      rintro rfl
      rw [connect_ncd524 cipher sent] at parsed
      cases parsed
    obtain ⟨message, carries, taken⟩ :=
      connect_of_ne cipher newer sent
    have some : (server.authClient euroDes random proto net mbuf).isSome := by
      rw [Option.mem_def.mp sent]
      rfl
    refine ⟨newer, (authClient_isSome newer).mp some, ?_⟩
    · by_cases full : betaIrdeto server.filter.caid = true
      · exact .inl full
      · right
        have normal := Bool.eq_false_iff.mpr full
        have prid := same.prid normal
        rw [taken, carries.parse] at parsed
        rw [← Option.some.inj parsed, prids_map server normal] at prid
        exact (prids_iff _).mp prid
  · rintro ⟨newer, few, short⟩
    obtain ⟨bytes, sent⟩ := Option.isSome_iff_exists.mp
      ((authClient_isSome newer).mpr few)
    obtain ⟨message, carries, taken⟩ := connect_of_ne cipher newer sent
    refine ⟨bytes, sent, _, taken, ?_⟩
    rw [carries.parse]
    constructor
    · rfl
    · rfl
    · exact server.nprids_le
    · intro other
      rw [prids_map server other, prids_iff]
      rcases short with full | small
      · rw [full] at other
        cases other
      · exact small
    · rfl

/-! ## A card with one provider -/

/-- A permutation of blocks that exchanges these pairs, the last one first. -/
def exchange (pairs : List (List UInt8 × List UInt8)) :
    Equiv.Perm (List UInt8) :=
  pairs.foldr (fun pair rest => rest.trans (Equiv.swap pair.1 pair.2))
    (Equiv.refl _)

theorem length_exchange {size : Nat} {pairs : List (List UInt8 × List UInt8)}
    (whole : ∀ pair ∈ pairs, pair.1.length = size ∧ pair.2.length = size)
    {block : List UInt8} (length : block.length = size) :
    (exchange pairs block).length = size := by
  induction pairs with
  | nil => exact length
  | cons pair pairs induction =>
      have rest := induction fun other member =>
        whole other (List.mem_cons_of_mem _ member)
      obtain ⟨first, second⟩ := whole pair List.mem_cons_self
      show (Equiv.swap pair.1 pair.2 (exchange pairs block)).length = size
      rw [Equiv.swap_apply_def]
      split_ifs
      · exact second
      · exact first
      · exact rest

theorem blockCipher_exchange {size : Nat}
    {pairs : List (List UInt8 × List UInt8)}
    (whole : ∀ pair ∈ pairs, pair.1.length = size ∧ pair.2.length = size) :
    Memory.BlockCipher size (exchange pairs) (exchange pairs).symm where
  length := fun _block length => length_exchange whole length
  inverse := fun block _length => (exchange pairs).symm_apply_apply block

/-- The blocks of the card data below and what DES makes of them with the
session key of the password "pass" and the DES key 0102030405060708091011121314
of the port. -/
def desPairs : List (List UInt8 × List UInt8) :=
  [([0x00, 0x02, 0x00, 0x00, 0x00, 0x00, 0x00, 0x00],
    [0x8b, 0x2a, 0x28, 0x4a, 0x43, 0xcd, 0xa3, 0x4e]),
   ([0x8b, 0x2a, 0xcc, 0x4a, 0x54, 0xc6, 0xa6, 0x4e],
    [0x75, 0x88, 0x95, 0x69, 0x30, 0x1f, 0x1a, 0x8f]),
   ([0x75, 0x88, 0x95, 0x69, 0x30, 0x1f, 0x1a, 0x8f],
    [0xf4, 0x8d, 0xdb, 0xff, 0x73, 0x2c, 0x9a, 0x79]),
   ([0xf5, 0x8e, 0xf3, 0xcf, 0x73, 0x2c, 0x9a, 0x79],
    [0x43, 0xbb, 0x6b, 0x06, 0x33, 0xe3, 0xee, 0x1a]),
   ([0x43, 0xbb, 0x6b, 0x06, 0x33, 0xe3, 0xee, 0xff],
    [0x4e, 0x91, 0x19, 0x7e, 0xaa, 0xd2, 0x5c, 0x5d])]

theorem length_desPairs :
    ∀ pair ∈ desPairs, pair.1.length = 8 ∧ pair.2.length = 8 := by
  decide

def desEnv : Env := { euroDes := (exchange desPairs).symm, portCaid := 0x0500 }

/-- Random bytes that are all zero. -/
def zeroRandom : Random := { padBytes := Memory.zero, ivec := Memory.zero }

/-- A server that announces these providers of a Viaccess card. -/
def viaccess (prids : List UInt32) (few : prids.length ≤ csMaxprov) :
    Server :=
  { filter := { caid := 0x0500, prids := prids, nprids_le := few }
    aureader := none
    threadnum := 1
    ncdMsgid := 2 }

example :
    (viaccess [0x032830] (by decide)).authClient (exchange desPairs)
        zeroRandom .ncd525 Memory.zero Memory.zero =
      some ([0, 48] ++ desPairs.flatMap Prod.snd ++ List.replicate 8 0) := by
  decide +kernel

theorem cardArrives_iff_viaccess :
    CardArrives (viaccess [0x032830] (by decide)) desEnv (exchange desPairs)
        zeroRandom .ncd525 Memory.zero Memory.zero Memory.zero Memory.zero
        Memory.zero ↔
      Proto.ncd525 ≠ .ncd524 ∧
        (viaccess [0x032830] (by decide)).nprids ≤ 20 ∧
        (betaIrdeto (viaccess [0x032830] (by decide)).filter.caid = true ∨
          ∀ prid ∈ (viaccess [0x032830] (by decide)).filter.prids,
            prid.toNat < 2 ^ 24) :=
  cardArrives_iff (blockCipher_exchange length_desPairs)

/-- The data of a card with 21 providers is not sent. -/
theorem not_cardArrives_many :
    ¬ CardArrives
        (viaccess ((List.range 21).map UInt32.ofNat) (by decide)) desEnv
        (exchange desPairs) zeroRandom .ncd525 Memory.zero Memory.zero
        Memory.zero Memory.zero Memory.zero := by
  rintro ⟨bytes, sent, _reader, _parsed, _same⟩
  have some : ((viaccess ((List.range 21).map UInt32.ofNat)
      (by decide)).authClient (exchange desPairs) zeroRandom .ncd525
      Memory.zero Memory.zero).isSome := by
    rw [Option.mem_def.mp sent]
    rfl
  have few := (authClient_isSome (by decide)).mp some
  exact absurd few (by decide)

end Oscam.Newcamd
