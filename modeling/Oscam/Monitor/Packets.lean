import Oscam.Lib.Chaining
import Oscam.Monitor.Requests
import Oscam.Simples

/-!
# Packets for monitors

`monitor_send_idx` packs a text into a buffer of 288 bytes: the mark, the check
of the user, and then in whole blocks a checksum, the length and the text.  The
other end takes it apart as `monitor_recv` does.
-/

namespace Oscam.Monitor

/-! ## Blocks -/

/-- The cipher of `AES_encrypt` and `AES_decrypt`, with a key and one block. -/
structure Aes where
  encrypt : List UInt8 → List UInt8 → List UInt8
  decrypt : List UInt8 → List UInt8 → List UInt8

/-- A cipher on the first `n` blocks, each on its own. -/
def blockwise (cipher : List UInt8 → List UInt8) : Nat → List UInt8 →
    List UInt8
  | 0, data => data
  | n + 1, data => cipher (data.take 16) ++ blockwise cipher n (data.drop 16)

/-- How often the loop over some bytes runs, with sixteen at a time. -/
def blocks (n : Nat) : Nat := (n + 15) / 16

/-- `aes_decrypt`. -/
def Aes.aesDecrypt (aes : Aes) (key data : List UInt8) : List UInt8 :=
  blockwise (aes.decrypt key) (blocks data.length) data

/-- `aes_encrypt_idx`, on `n` bytes of a buffer. -/
def Aes.aesEncryptIdx (aes : Aes) (key : List UInt8) (buf : Memory)
    (off n : Nat) : Memory :=
  buf.write off
    (blockwise (aes.encrypt key) (blocks n) (buf.read off (16 * blocks n)))

/-- The libraries of both ends. -/
def Aes.crypto (aes : Aes) (crc32 : List UInt8 → Vector UInt8 4)
    (md5 : List UInt8 → List UInt8) : Crypto :=
  { aesDecrypt := aes.aesDecrypt
    crc32 := fun bytes => (crc32 bytes).toList
    md5 := md5 }

/-! ## Sending -/

/-- The size of `buf` in `monitor_send_idx`. -/
abbrev sendBufSize : Nat := 256 + 32

/-- A packet: the buffer, how much of it is sent, and up to where it was read
or written. -/
structure Packet where
  buf : Memory
  len : Nat
  reach : Nat

/-- The buffer with the text in it, but without the checksum. -/
def unchecked (cl : MonitorClient) (stack : Memory) (txt : List UInt8) :
    Memory :=
  (((stack.write 0 [38]).write 9 [UInt8.ofNat txt.length]).write 1
    (cl.ucrc.take 4)).write 10 (csStrncpy (sendBufSize - 10) txt ++ [0])

/-- The buffer with the checksum of so many bytes. -/
def checked (crc32 : List UInt8 → Vector UInt8 4) (buf : Memory) (n : Nat) :
    Memory :=
  buf.write 5 (crc32 (buf.read 10 n)).toList

/-- The packet for a client with a key.  Of the stack, the bytes that the text
does not fill are sent as well. -/
def cryptedPacket (aes : Aes) (crc32 : List UInt8 → Vector UInt8 4)
    (cl : MonitorClient) (stack : Memory) (txt : List UInt8) : Packet :=
  let l := boundary 4 (txt.length + 5) + 5
  let buf := checked crc32 (unchecked cl stack txt) (l - 10)
  { buf := aes.aesEncryptIdx cl.aesKey buf 5 (l - 5)
    len := l
    reach := max (10 + min txt.length (sendBufSize - 11) + 1)
      (max l (5 + 16 * blocks (l - 5))) }

/-- What is handed to `sendto`. -/
inductive Sending where
  | plain (txt : List UInt8)
  | packet (packet : Packet)

/-- `monitor_send_idx`, for a C string in some bytes. -/
def monitorSendIdx (aes : Aes) (crc32 : List UInt8 → Vector UInt8 4)
    (cl : MonitorClient) (udpFd : Bool) (stack : Memory) (txt : List UInt8) :
    Option Sending :=
  if udpFd = false then none
  else if cl.crypted = false then some (.plain (cstr txt))
  else some (.packet (cryptedPacket aes crc32 cl stack (cstr txt)))

/-! ## Taking apart -/

/-- The framing of `monitor_recv`: the text of an encrypted datagram, unless
its size or its checksum is wrong. -/
def takeApart (crypto : Crypto) (cl : MonitorClient) (data : List UInt8) :
    Option (List UInt8) :=
  if data.length < 21 then none
  else
    let head := decryptAt crypto cl data 5 16
    let len := (head.getD 9 0).toNat
    let bsize := boundary 4 (len + 5) + 5
    if data.length < bsize then none
    else
      let text := decryptAt crypto cl (head.take bsize) 21 (bsize - 21)
      if (text.drop 5).take 4 ≠ crypto.crc32 (text.drop 10) then none
      else some ((text.drop 10).take len)

/-- For a client that has logged in, this is what `monitor_recv` makes its
request of. -/
theorem recvCrypted_request {crypto : Crypto} {cfg : MonitorCfg}
    {cl : MonitorClient} {data : List UInt8} (auth : cl.auth = true)
    (check : cl.ucrc = (data.drop 1).take 4) :
    (recvCrypted crypto cfg cl data).map (·.request) =
      some (((takeApart crypto cl data).map fun txt => trim (cstr txt)).getD
        []) := by
  have known : secmonAuthClient crypto cfg cl ((data.drop 1).take 4) =
      some (cl, true) := by
    rw [secmonAuthClient, if_pos auth, check, beq_self_eq_true]
  unfold recvCrypted takeApart
  dsimp only
  split
  · rfl
  · rw [known]
    dsimp only
    split
    · rfl
    · split
      · rfl
      · rfl

/-! ## Ciphers on blocks -/

variable {aes : Aes} {cipher inverse : List UInt8 → List UInt8}
  {data : List UInt8} {n : Nat}

theorem length_blockwise
    (pair : Memory.BlockCipher 16 cipher inverse)
    (whole : data.length = 16 * n) :
    (blockwise cipher n data).length = 16 * n := by
  induction n generalizing data with
  | zero => exact whole
  | succ n induction =>
      have first : (data.take 16).length = 16 := by
        rw [List.length_take]
        omega
      have rest : (data.drop 16).length = 16 * n := by
        rw [List.length_drop]
        omega
      rw [blockwise, List.length_append, pair.length _ first, induction rest]
      omega

theorem blockwise_inverse
    (pair : Memory.BlockCipher 16 cipher inverse)
    (whole : data.length = 16 * n) :
    blockwise inverse n (blockwise cipher n data) = data := by
  induction n generalizing data with
  | zero => rfl
  | succ n induction =>
      have first : (data.take 16).length = 16 := by
        rw [List.length_take]
        omega
      have rest : (data.drop 16).length = 16 * n := by
        rw [List.length_drop]
        omega
      have block := pair.length _ first
      rw [blockwise, blockwise, List.take_left' block, List.drop_left' block,
        pair.inverse _ first, induction rest, List.take_append_drop]

theorem blocks_whole (n : Nat) : blocks (16 * n) = n := by
  unfold blocks
  omega

theorem boundary_whole (n : Nat) : ∃ k, boundary 4 (n + 1) = 16 * (k + 1) ∧
    16 * k ≤ n ∧ n < 16 * (k + 1) := by
  refine ⟨n / 16, ?_, ?_, ?_⟩
  · rw [boundary, Nat.add_sub_cancel]
    omega
  · omega
  · omega

/-! ## Delivery -/

variable {crc32 : List UInt8 → Vector UInt8 4}
  {md5 : List UInt8 → List UInt8} {cl peer : MonitorClient} {stack : Memory}
  {txt : List UInt8}

/-- The length of a text that was taken apart was in one byte. -/
theorem takeApart_length {crypto : Crypto} {text : List UInt8}
    (taken : takeApart crypto cl data = some text) : text.length ≤ 255 := by
  unfold takeApart at taken
  dsimp only at taken
  split at taken
  · cases taken
  split at taken
  · cases taken
  split at taken
  · cases taken
  · cases taken
    have byte := UInt8.toNat_lt ((decryptAt crypto cl data 5 16).getD 9 0)
    rw [List.length_take]
    omega

/-- What of a packet is in clear, and the bytes behind it before they are
encrypted. -/
structure Framed (front body : List UInt8) (k : Nat) (crypto : Crypto)
    (txt : List UInt8) : Prop where
  sizeFront : front.length = 5
  sizeBody : body.length = 16 * (k + 1)
  size : boundary 4 (txt.length + 5) = 16 * (k + 1)
  check : (body.take 4) = crypto.crc32 (body.drop 5)
  length : body.getD 4 0 = UInt8.ofNat txt.length
  text : (body.drop 5).take txt.length = txt

/-- Bytes between others are deciphered. -/
theorem decryptAt_middle {crypto : Crypto} {front middle behind : List UInt8}
    {off : Nat} (place : front.length = off) (size : middle.length = n) :
    decryptAt crypto cl (front ++ middle ++ behind) off n =
      front ++ crypto.aesDecrypt cl.aesKey middle ++ behind := by
  have both : (front ++ middle).length = off + n := by
    rw [List.length_append, place, size]
  rw [decryptAt, List.drop_left' both, List.append_assoc front middle behind,
    List.take_left' place, List.drop_left' place, List.take_left' size]

theorem aesDecrypt_blockwise
    (pair : Memory.BlockCipher 16 (aes.encrypt peer.aesKey)
      (aes.decrypt peer.aesKey)) (whole : data.length = 16 * n) :
    aes.aesDecrypt peer.aesKey (blockwise (aes.encrypt peer.aesKey) n data) =
      data := by
  rw [Aes.aesDecrypt, length_blockwise pair whole, blocks_whole,
    blockwise_inverse pair whole]

/-- A framed text is taken out again. -/
theorem Framed.takeApart {front body : List UInt8} {k : Nat}
    (framed : Framed front body k (aes.crypto crc32 md5) txt)
    (pair : Memory.BlockCipher 16 (aes.encrypt peer.aesKey)
      (aes.decrypt peer.aesKey)) (short : txt.length ≤ 255) :
    takeApart (aes.crypto crc32 md5) peer
      (front ++ blockwise (aes.encrypt peer.aesKey) (k + 1) body) =
        some txt := by
  obtain ⟨sizeFront, sizeBody, size, check, length, text⟩ := framed
  have first : (body.take 16).length = 16 * 1 := by
    rw [List.length_take]
    omega
  have rest : (body.drop 16).length = 16 * k := by
    rw [List.length_drop]
    omega
  have split : blockwise (aes.encrypt peer.aesKey) (k + 1) body =
      blockwise (aes.encrypt peer.aesKey) 1 (body.take 16) ++
        blockwise (aes.encrypt peer.aesKey) k (body.drop 16) := by
    have none : (body.take 16).drop 16 = [] :=
      List.drop_of_length_le (Nat.le_of_eq first)
    rw [blockwise, blockwise, blockwise, none, List.append_nil,
      List.take_of_length_le (Nat.le_of_eq first)]
  have behind := length_blockwise pair rest
  -- the first block is deciphered on its own, then the rest of them
  have head : decryptAt (aes.crypto crc32 md5) peer
      (front ++ blockwise (aes.encrypt peer.aesKey) (k + 1) body) 5 16 =
        front ++ body.take 16 ++
          blockwise (aes.encrypt peer.aesKey) k (body.drop 16) := by
    rw [split, ← List.append_assoc,
      decryptAt_middle sizeFront (length_blockwise pair first)]
    show front ++ aes.aesDecrypt _ _ ++ _ = _
    rw [aesDecrypt_blockwise pair first]
  have whole : decryptAt (aes.crypto crc32 md5) peer
      (front ++ body.take 16 ++
        blockwise (aes.encrypt peer.aesKey) k (body.drop 16)) 21 (16 * k) =
        front ++ body := by
    have place : (front ++ body.take 16).length = 21 := by
      rw [List.length_append, sizeFront, first]
    have found : decryptAt (aes.crypto crc32 md5) peer (_ ++ _ ++ []) 21
        (16 * k) = _ := decryptAt_middle place behind
    rw [List.append_nil, List.append_nil] at found
    rw [found]
    show front ++ _ ++ aes.aesDecrypt _ _ = _
    rw [aesDecrypt_blockwise pair rest, List.append_assoc,
      List.take_append_drop]
  have byte : (front ++ body.take 16 ++
      blockwise (aes.encrypt peer.aesKey) k (body.drop 16)).getD 9 0 =
        UInt8.ofNat txt.length := by
    rw [← length, List.append_assoc, List.getD_eq_getElem?_getD,
      List.getElem?_append_right (by omega), sizeFront,
      List.getElem?_append_left (by omega), List.getElem?_take,
      if_pos (by decide), ← List.getD_eq_getElem?_getD]
  have len : (UInt8.ofNat txt.length).toNat = txt.length :=
    Nat.mod_eq_of_lt (Nat.lt_succ_of_le short)
  have sent : (front ++
      blockwise (aes.encrypt peer.aesKey) (k + 1) body).length =
        16 * (k + 1) + 5 := by
    rw [List.length_append, length_blockwise pair sizeBody, sizeFront,
      Nat.add_comm]
  have received : (front ++ body.take 16 ++
      blockwise (aes.encrypt peer.aesKey) k (body.drop 16)).length =
        16 * (k + 1) + 5 := by
    rw [List.length_append, List.length_append, sizeFront, first, behind]
    omega
  have behindFront : (front ++ body).drop 10 = body.drop 5 := by
    rw [show 10 = 5 + 5 from rfl, ← List.drop_drop, List.drop_left' sizeFront]
  have count : 16 * (k + 1) + 5 - 21 = 16 * k := by omega
  unfold Monitor.takeApart
  dsimp only
  rw [if_neg (by omega), head, byte, len, size, if_neg (by omega),
    List.take_of_length_le (Nat.le_of_eq received), count, whole, behindFront,
    List.drop_left' sizeFront, if_neg (not_not_intro check), text]

/-! ### The packet before it is encrypted -/

theorem read_unchecked (short : txt.length ≤ 255) :
    (unchecked cl stack txt).read 10 txt.length = txt := by
  have whole : txt.take (sendBufSize - 10 - 1) = txt :=
    List.take_of_length_le (by show txt.length ≤ 277; omega)
  unfold unchecked csStrncpy
  rw [whole, ← Memory.write_write]
  generalize Memory.write _ 1 _ = buf
  have copied := Memory.read_write buf 10 txt
  conv_rhs => rw [← copied]
  apply Memory.read_congr
  intro i _ inside
  exact Memory.write_of_lt (by omega)

theorem unchecked_length :
    unchecked cl stack txt 9 = UInt8.ofNat txt.length := by
  unfold unchecked csStrncpy
  rw [Memory.write_of_lt (by decide), Memory.write_of_le, Memory.write_head]
  rw [List.length_take]
  omega

theorem framed_checked (short : txt.length ≤ 255) {k : Nat}
    (size : boundary 4 (txt.length + 5) = 16 * (k + 1))
    (room : txt.length + 5 ≤ 16 * (k + 1)) :
    Framed
      ((checked crc32 (unchecked cl stack txt) (16 * (k + 1) - 5)).read 0 5)
      ((checked crc32 (unchecked cl stack txt) (16 * (k + 1) - 5)).read 5
        (16 * (k + 1))) k (aes.crypto crc32 md5) txt := by
  have text := @read_unchecked cl stack txt short
  have length := @unchecked_length cl stack txt
  generalize unchecked cl stack txt = buf at text length
  have crc (bytes : List UInt8) : (crc32 bytes).toList.length = 4 := by simp
  have behind (n : Nat) :
      (checked crc32 buf (16 * (k + 1) - 5)).read 10 n = buf.read 10 n := by
    apply Memory.read_congr
    intro i low _
    exact Memory.write_of_le (by rw [crc]; omega)
  have count : 16 * (k + 1) = 4 + (1 + (16 * (k + 1) - 5)) := by omega
  have parts : (checked crc32 buf (16 * (k + 1) - 5)).read 5 (16 * (k + 1)) =
      (crc32 (buf.read 10 (16 * (k + 1) - 5))).toList ++
        UInt8.ofNat txt.length :: buf.read 10 (16 * (k + 1) - 5) := by
    generalize 16 * (k + 1) - 5 = rest at behind count
    have first : (checked crc32 buf rest).read 5 4 =
        (crc32 (buf.read 10 rest)).toList := by
      have written := Memory.read_write buf 5 (crc32 (buf.read 10 rest)).toList
      rwa [crc] at written
    have byte : (checked crc32 buf rest).read 9 1 =
        [UInt8.ofNat txt.length] := by
      rw [← length]
      show [buf.write 5 (crc32 (buf.read 10 rest)).toList 9] = [buf 9]
      rw [Memory.write_of_le (by rw [crc])]
    rw [count, Memory.read_add, Memory.read_add, first, byte, behind]
    rfl
  have drop : ((checked crc32 buf (16 * (k + 1) - 5)).read 5
      (16 * (k + 1))).drop 5 = buf.read 10 (16 * (k + 1) - 5) := by
    rw [parts, List.append_cons, List.drop_left']
    rw [List.length_append, crc]
    rfl
  refine ⟨Memory.length_read _ _ _, Memory.length_read _ _ _, size, ?_, ?_, ?_⟩
  · rw [drop, parts, List.take_left' (crc _)]
    rfl
  · rw [parts, List.getD_eq_getElem?_getD,
      List.getElem?_append_right (Nat.le_of_eq (crc _)), crc]
    rfl
  · have inside : txt.length ≤ 16 * (k + 1) - 5 := by omega
    have front : 0 + txt.length ≤ 16 * (k + 1) - 5 := by omega
    have part := buf.read_part 10 front
    rw [drop, ← List.drop_zero (l := buf.read 10 _), ← part, Nat.add_zero, text]

/-! ### Sending and taking apart -/

/-- A text is sent within the buffer, and comes out at the other end. -/
def Delivered (aes : Aes) (crc32 : List UInt8 → Vector UInt8 4)
    (md5 : List UInt8 → List UInt8) (cl peer : MonitorClient)
    (stack : Memory) (txt : List UInt8) : Prop :=
  ∃ packet, monitorSendIdx aes crc32 cl true stack txt =
      some (.packet packet) ∧
    packet.reach ≤ sendBufSize ∧
    takeApart (aes.crypto crc32 md5) peer (packet.buf.read 0 packet.len) =
      some (cstr txt)

theorem cryptedPacket_takeApart
    (pair : Memory.BlockCipher 16 (aes.encrypt cl.aesKey)
      (aes.decrypt cl.aesKey)) (key : peer.aesKey = cl.aesKey)
    (short : txt.length ≤ 255) :
    takeApart (aes.crypto crc32 md5) peer
      ((cryptedPacket aes crc32 cl stack txt).buf.read 0
        (cryptedPacket aes crc32 cl stack txt).len) = some txt := by
  obtain ⟨k, size, low, high⟩ := boundary_whole (txt.length + 4)
  have framed := @framed_checked aes crc32 md5 cl stack txt short k size high
  have count : 16 * (k + 1) + 5 - 5 = 16 * (k + 1) := Nat.add_sub_cancel _ _
  have data : (cryptedPacket aes crc32 cl stack txt).buf.read 0
      (cryptedPacket aes crc32 cl stack txt).len =
        (checked crc32 (unchecked cl stack txt) (16 * (k + 1) - 5)).read 0 5 ++
          blockwise (aes.encrypt peer.aesKey) (k + 1)
            ((checked crc32 (unchecked cl stack txt) (16 * (k + 1) - 5)).read 5
              (16 * (k + 1))) := by
    unfold cryptedPacket
    dsimp only
    rw [size, key, show 16 * (k + 1) + 5 - 10 = 16 * (k + 1) - 5 by omega]
    generalize checked crc32 (unchecked cl stack txt) (16 * (k + 1) - 5) = buf
    have sizeBody := length_blockwise pair (buf.length_read 5 (16 * (k + 1)))
    unfold Aes.aesEncryptIdx
    rw [count, blocks_whole, Nat.add_comm (16 * (k + 1)) 5, Memory.read_add,
      Nat.zero_add]
    generalize blockwise (aes.encrypt cl.aesKey) (k + 1)
      (buf.read 5 (16 * (k + 1))) = body at sizeBody
    have front : (buf.write 5 body).read 0 5 = buf.read 0 5 := by
      apply Memory.read_congr
      intro i _ inside
      exact Memory.write_of_lt (by omega)
    have behind : (buf.write 5 body).read 5 (16 * (k + 1)) = body := by
      rw [← sizeBody]
      exact Memory.read_write buf 5 body
    rw [front, behind]
  rw [data]
  exact framed.takeApart (key ▸ pair) short

theorem cryptedPacket_reach :
    (cryptedPacket aes crc32 cl stack txt).reach ≤ sendBufSize ↔
      txt.length ≤ 267 := by
  obtain ⟨k, size, low, high⟩ := boundary_whole (txt.length + 4)
  have copied : min txt.length (sendBufSize - 11) ≤ 277 :=
    Nat.min_le_right _ _
  unfold cryptedPacket
  dsimp only
  rw [size, Nat.add_sub_cancel, blocks_whole]
  show _ ≤ 288 ↔ _
  omega

/-- A text is sent within the buffer and comes out at the other end if and only
if its length fits into a byte. -/
theorem delivered_iff
    (pair : Memory.BlockCipher 16 (aes.encrypt cl.aesKey)
      (aes.decrypt cl.aesKey)) (key : peer.aesKey = cl.aesKey)
    (crypted : cl.crypted = true) :
    Delivered aes crc32 md5 cl peer stack txt ↔ (cstr txt).length ≤ 255 := by
  have sent : monitorSendIdx aes crc32 cl true stack txt =
      some (.packet (cryptedPacket aes crc32 cl stack (cstr txt))) := by
    rw [monitorSendIdx, crypted]
    rfl
  constructor
  · rintro ⟨packet, _, _, taken⟩
    exact takeApart_length taken
  · intro short
    exact ⟨_, sent, cryptedPacket_reach.mpr (by omega),
      cryptedPacket_takeApart pair key short⟩

/-- A cipher that adds a key to each byte. -/
def addingAes : Aes :=
  { encrypt := fun key block => block.map (· + key.headD 0)
    decrypt := fun key block => block.map (· - key.headD 0) }

theorem addingAes_pair (key : List UInt8) :
    Memory.BlockCipher 16 (addingAes.encrypt key) (addingAes.decrypt key) where
  length := by
    intro block whole
    rw [← whole]
    exact List.length_map _
  inverse := by
    intro block _
    show (block.map _).map _ = block
    rw [List.map_map]
    have same : (fun byte : UInt8 => byte - key.headD 0) ∘
        (fun byte => byte + key.headD 0) = id := by
      funext byte
      exact UInt8.add_sub_cancel byte _
    rw [same, List.map_id]

/-- A monitor that has logged in. -/
def cryptedMonitor : MonitorClient :=
  { ip := 0, auth := true, crypted := true, ucrc := [1, 2, 3, 4]
    aesKey := [5], monlvl := 1 }

/-- The checksum of an example: the sum of the bytes. -/
def sumCrc (bytes : List UInt8) : Vector UInt8 4 :=
  #v[0, 0, 0, bytes.foldl (fun sum byte => sum + byte) 0]

/-- A status line. -/
theorem delivered_iff_line :
    Delivered addingAes sumCrc id cryptedMonitor cryptedMonitor Memory.zero
        (ascii "[S-0000]") ↔
      (cstr (ascii "[S-0000]")).length ≤ 255 :=
  delivered_iff (addingAes_pair _) rfl rfl

/-- A log line of 268 characters. -/
theorem longLine_not_delivered :
    ¬ ∀ (aes : Aes) (crc32 : List UInt8 → Vector UInt8 4)
      (md5 : List UInt8 → List UInt8) (cl peer : MonitorClient)
      (stack : Memory) (txt : List UInt8),
      Memory.BlockCipher 16 (aes.encrypt cl.aesKey) (aes.decrypt cl.aesKey) →
      peer.aesKey = cl.aesKey → cl.crypted = true →
      Delivered aes crc32 md5 cl peer stack txt := by
  intro always
  obtain ⟨packet, _, _, taken⟩ := always addingAes sumCrc id cryptedMonitor
    cryptedMonitor Memory.zero (List.replicate 268 65) (addingAes_pair _) rfl
    rfl
  have short := takeApart_length taken
  have length : (cstr (List.replicate 268 65)).length = 268 := by
    rw [cstr, List.takeWhile_replicate, if_pos (by decide),
      List.length_replicate]
  omega

end Oscam.Monitor
