import Mathlib.Logic.Equiv.Basic
import Oscam.Protocol.EcmLength

/-!
# A camd35 connection over TCP

`camd35_send` and `camd35_recv` compute the length of a message independently
of each other.  Over TCP the receiver reads as many bytes as it has computed,
so that the two have to agree for every command.
-/

namespace Oscam.Camd35

/-! ## The sender -/

/-- The length `camd35_send` computes, before it is rounded up. -/
def sendSize (buf : Memory) : Nat :=
  20 + (if buf 0 = 3 ∨ buf 0 = 4 then 0x34 else 0) + buflen buf

/-- The message in `sbuf` before it is encrypted.  `rbuf` is what the stack
holds; nothing of it is sent, as the message is followed by 15 bytes. -/
def plainMessage (crc32 : List UInt8 → Nat) (rbuf buf : Memory) : Memory :=
  let l := sendSize buf
  let sbuf := (rbuf.write 0 (buf.read 0 l)).write l (List.replicate 15 0xff)
  sbuf.write 4 (Memory.digits 4 (crc32 (sbuf.read 20 (buflen buf))))

/-- `aes_encrypt`. -/
def aesEncrypt (aes : List UInt8 → List UInt8) (m : Memory) (n : Nat) :
    Memory :=
  m.mapBlocks aes 0 ((n + 15) / 16)

/-- The bytes that `camd35_send` passes to `send`. -/
def send (aes : List UInt8 → List UInt8) (crc32 : List UInt8 → Nat)
    (ucrc : List UInt8) (rbuf buf : Memory) : List UInt8 :=
  let l := (boundary 4 (sendSize buf)).toNat
  ucrc ++ (aesEncrypt aes (plainMessage crc32 rbuf buf) l).read 0 l

/-! ## The receiver -/

/-- What two calls of `recv` deliver from a TCP stream: at most 36 bytes, and
then at most `second` bytes of what follows. -/
def tcpInput (stream : List UInt8) (first second : Nat) : Input :=
  { isUdp := false, first := stream.take (min first 36)
    rest := (stream.drop (min first 36)).take second }

/-- The bytes that `camd35_recv` takes from a TCP stream. -/
def consumed (env : Env) (input : Input) (m : Memory) : Nat :=
  match firstRead input m with
  | none => 0
  | some (m, rs) =>
      if rs < 24 ∨ env.authClient (m.read 0 4) ≠ 0 then rs
      else (secondRead env input (m.move 0 4 (rs - 4)) (rs - 4)).2 + 4

/-- A message has arrived: `camd35_recv` returns its rounded length, every byte
but the checksum is in the buffer, and as many bytes have been taken from the
stream as were sent. -/
def Arrives (env : Env) (input : Input) (m buf : Memory) (sent : Nat) : Prop :=
  (∃ m', recv env input m = some (boundary 4 (sendSize buf), m') ∧
    ∀ i < sendSize buf, i < 4 ∨ 8 ≤ i → m' i = buf i) ∧
    consumed env input m = sent

/-- The receiver has the key and the checksum of the sender, and knows the
user. -/
structure Paired (env : Env) (aes : List UInt8 → List UInt8)
    (ucrc : List UInt8) : Prop where
  keeps : Memory.KeepsBlocks aes
  keepsDec : Memory.KeepsBlocks env.aes
  inverse : ∀ block, block.length = 16 → env.aes (aes block) = block
  crc : ∀ bytes, env.crc32 bytes < 2 ^ 32
  four : ucrc.length = 4
  known : env.authClient ucrc = 0

/-! ## Lengths -/

theorem boundary_nat (n : Nat) :
    boundary 4 n = ((n + 15) / 16 * 16 : Nat) := by
  unfold boundary
  omega

theorem aesDecrypt_eq (env : Env) (m : Memory) (off n : Nat) :
    aesDecrypt env m off n = m.mapBlocks env.aes off ((n + 15) / 16) := rfl

theorem sendSize_pos (buf : Memory) : 20 ≤ sendSize buf := by
  unfold sendSize
  omega

/-- The receiver does not count the 52 bytes of a cascading response. -/
theorem messageSize_eq_iff (m : Memory) :
    messageSize m = boundary 4 (sendSize m) ↔ m 0 ≠ 4 := by
  unfold messageSize sendSize
  by_cases request : m 0 = 3
  · have other : m 0 ≠ 4 := by
      rw [request]
      decide
    refine iff_of_true ?_ other
    simp only [request, true_or, if_true]
  · by_cases response : m 0 = 4
    · refine iff_of_false ?_ (not_not.mpr response)
      rw [if_neg request, if_pos (.inr response)]
      unfold boundary
      omega
    · refine iff_of_true ?_ response
      rw [if_neg request, if_neg (not_or.mpr ⟨request, response⟩),
        Nat.zero_add]

/-- The length of a message depends on its first bytes only. -/
theorem messageSize_congr {left right : Memory} (command : left 0 = right 0)
    (size : left 1 = right 1)
    (ecm : right 0 = 0 → left 21 = right 21 ∧ left 22 = right 22) :
    buflen left = buflen right ∧ messageSize left = messageSize right := by
  have data : buflen left = buflen right := by
    unfold buflen
    rw [command, size]
    split_ifs with request
    · obtain ⟨high, low⟩ := ecm request
      rw [ecmLength, ecmLength, high, low]
    · rfl
  refine ⟨data, ?_⟩
  unfold messageSize
  rw [command, data]

/-- The second read over TCP, when there is one. -/
theorem secondRead_more {env : Env} {input : Input} {m : Memory} {rs : Nat}
    (tcp : input.isUdp = false)
    (missing : (rs : Int) < messageSize (aesDecrypt env m 0 rs))
    (large : 32 < messageSize (aesDecrypt env m 0 rs)) :
    secondRead env input m rs =
      (aesDecrypt env ((aesDecrypt env m 0 rs).write 32
          (input.rest.take
            (messageSize (aesDecrypt env m 0 rs) - 32).toNat)) 32
          (input.rest.take
            (messageSize (aesDecrypt env m 0 rs) - 32).toNat).length,
        rs + (input.rest.take
          (messageSize (aesDecrypt env m 0 rs) - 32).toNat).length) := by
  unfold secondRead
  exact if_pos ⟨by simp [tcp], missing, by omega⟩

theorem secondRead_none {env : Env} {input : Input} {m : Memory} {rs : Nat}
    (small : messageSize (aesDecrypt env m 0 rs) ≤ 32) :
    secondRead env input m rs = (aesDecrypt env m 0 rs, rs) := by
  unfold secondRead
  refine if_neg ?_
  rintro ⟨_, _, large⟩
  omega

section Sent

variable {crc32 : List UInt8 → Nat} {rbuf buf : Memory}

theorem plainMessage_apply {i : Nat} (inside : i < sendSize buf)
    (body : i < 4 ∨ 8 ≤ i) : plainMessage crc32 rbuf buf i = buf i := by
  have length : (buf.read 0 (sendSize buf)).length = sendSize buf :=
    Memory.length_read buf 0 (sendSize buf)
  have copied : (rbuf.write 0 (buf.read 0 (sendSize buf))) (0 + i) = buf i := by
    rw [Memory.write_inside (by omega), Memory.getD_read _ _ inside,
      Nat.zero_add]
  rw [Nat.zero_add] at copied
  unfold plainMessage
  rcases body with front | behind
  · rw [Memory.write_of_lt front, Memory.write_of_lt inside, copied]
  · rw [Memory.write_of_le (by simpa using behind), Memory.write_of_lt inside,
      copied]

/-- Fifteen bytes behind the message are filled up. -/
theorem plainMessage_padding {i : Nat} (behind : sendSize buf ≤ i)
    (near : i < sendSize buf + 15) :
    plainMessage crc32 rbuf buf i = 0xff := by
  have long := sendSize_pos buf
  have place : i = sendSize buf + (i - sendSize buf) := by omega
  unfold plainMessage
  rw [Memory.write_of_le (by rw [Memory.length_digits]; omega), place,
    Memory.write_inside (by rw [List.length_replicate]; omega),
    List.getD_eq_getElem _ _ (by rw [List.length_replicate]; omega),
    List.getElem_replicate]

/-- What the stack held is not sent. -/
theorem plainMessage_stack (other : Memory) {i : Nat}
    (near : i < sendSize buf + 15) :
    plainMessage crc32 rbuf buf i = plainMessage crc32 other buf i := by
  have length : (buf.read 0 (sendSize buf)).length = sendSize buf :=
    Memory.length_read buf 0 (sendSize buf)
  have same : ∀ j < sendSize buf + 15,
      ((rbuf.write 0 (buf.read 0 (sendSize buf))).write (sendSize buf)
        (List.replicate 15 0xff)) j =
      ((other.write 0 (buf.read 0 (sendSize buf))).write (sendSize buf)
        (List.replicate 15 0xff)) j := by
    intro j inside
    unfold Memory.write
    rw [List.length_replicate, length]
    split_ifs
    · rfl
    · rfl
    · omega
  have body : 20 + buflen buf ≤ sendSize buf := by
    unfold sendSize
    omega
  unfold plainMessage
  generalize (rbuf.write 0 (buf.read 0 (sendSize buf))).write (sendSize buf)
    (List.replicate 15 0xff) = left at same ⊢
  generalize (other.write 0 (buf.read 0 (sendSize buf))).write (sendSize buf)
    (List.replicate 15 0xff) = right at same ⊢
  have checked : left.read 20 (buflen buf) = right.read 20 (buflen buf) :=
    Memory.read_congr fun j _ high => same j (by omega)
  rw [checked]
  by_cases field : 4 ≤ i ∧ i < 4 + 4
  · have place : i = 4 + (i - 4) := by omega
    rw [place, Memory.write_inside (by rw [Memory.length_digits]; omega),
      Memory.write_inside (by rw [Memory.length_digits]; omega)]
  · rcases Nat.lt_or_ge i 4 with front | behind
    · rw [Memory.write_of_lt front, Memory.write_of_lt front, same i near]
    · rw [Memory.write_of_le (by rw [Memory.length_digits]; omega),
        Memory.write_of_le (by rw [Memory.length_digits]; omega), same i near]

/-- The message carries its own checksum. -/
theorem plainMessage_number (fits : ∀ bytes, crc32 bytes < 2 ^ 32) :
    crc32 ((plainMessage crc32 rbuf buf).read 20 (buflen buf)) =
      (plainMessage crc32 rbuf buf).number 4 4 := by
  unfold plainMessage
  simp only
  generalize (rbuf.write 0 (buf.read 0 (sendSize buf))).write (sendSize buf)
    (List.replicate 15 0xff) = sbuf
  have kept : (sbuf.write 4 (Memory.digits 4
      (crc32 (sbuf.read 20 (buflen buf))))).read 20 (buflen buf) =
        sbuf.read 20 (buflen buf) := by
    apply Memory.read_congr
    intro i low _
    exact Memory.write_of_le (by rw [Memory.length_digits]; omega)
  have written := Memory.read_write sbuf 4
    (Memory.digits 4 (crc32 (sbuf.read 20 (buflen buf))))
  rw [Memory.length_digits] at written
  rw [kept, Memory.number_of_read written]
  exact (Nat.mod_eq_of_lt (fits _)).symm

/-- The data of an ECM request begin behind its length field. -/
theorem sendSize_request (request : buf 0 = 0) : 23 ≤ sendSize buf := by
  unfold sendSize buflen
  rw [if_pos request]
  omega

theorem plainMessage_size (crc32 : List UInt8 → Nat) (rbuf buf : Memory) :
    buflen (plainMessage crc32 rbuf buf) = buflen buf ∧
      messageSize (plainMessage crc32 rbuf buf) = messageSize buf := by
  have long := sendSize_pos buf
  refine messageSize_congr (plainMessage_apply (by omega) (.inl (by decide)))
    (plainMessage_apply (by omega) (.inl (by decide))) fun request => ?_
  have longer := sendSize_request request
  exact ⟨plainMessage_apply (by omega) (.inr (by decide)),
    plainMessage_apply (by omega) (.inr (by decide))⟩

end Sent

/-- The rounded length of a message. -/
def frameSize (buf : Memory) : Nat := (sendSize buf + 15) / 16 * 16

theorem boundary_sendSize (buf : Memory) :
    boundary 4 (sendSize buf) = frameSize buf :=
  boundary_nat (sendSize buf)

theorem frameSize_bounds (buf : Memory) :
    32 ≤ frameSize buf ∧ sendSize buf ≤ frameSize buf ∧
      frameSize buf % 16 = 0 := by
  have long := sendSize_pos buf
  unfold frameSize
  omega

section Connection

variable {env : Env} {aes : List UInt8 → List UInt8} {ucrc more : List UInt8}
  {rbuf buf m : Memory} {first second : Nat}

/-- The encrypted message. -/
def cipherMessage (aes : List UInt8 → List UInt8) (crc32 : List UInt8 → Nat)
    (rbuf buf : Memory) : Memory :=
  (plainMessage crc32 rbuf buf).mapBlocks aes 0 (frameSize buf / 16)

theorem send_eq (crc32 : List UInt8 → Nat) :
    send aes crc32 ucrc rbuf buf =
      ucrc ++ (cipherMessage aes crc32 rbuf buf).read 0 (frameSize buf) := by
  have blocks : (frameSize buf + 15) / 16 = frameSize buf / 16 := by
    have round := (frameSize_bounds buf).2.2
    omega
  unfold send cipherMessage aesEncrypt
  simp only [boundary_sendSize, Int.toNat_natCast, blocks]

theorem length_send (paired : Paired env aes ucrc) :
    (send aes env.crc32 ucrc rbuf buf).length = 4 + frameSize buf := by
  rw [send_eq, List.length_append, paired.four, Memory.length_read]

/-- The bytes of the stream behind the checksum of the user. -/
theorem stream_getD (paired : Paired env aes ucrc) {i : Nat}
    (inside : i < frameSize buf) :
    (send aes env.crc32 ucrc rbuf buf ++ more).getD (4 + i) 0 =
      cipherMessage aes env.crc32 rbuf buf i := by
  have four := paired.four
  rw [send_eq, List.append_assoc, List.getD_append_right _ _ _ _ (by omega),
    List.getD_append _ _ _ _ (by rw [Memory.length_read]; omega), four,
    Nat.add_sub_cancel_left, Memory.getD_read _ _ inside, Nat.zero_add]

/-- What is in the buffer after the first read, decrypted. -/
theorem first_decrypted (paired : Paired env aes ucrc) {bytes : List UInt8}
    (read : bytes =
      (send aes env.crc32 ucrc rbuf buf ++ more).take 36) :
    (m.write 0 bytes).read 0 4 = ucrc ∧
      ∀ i < 32, aesDecrypt env ((m.write 0 bytes).move 0 4 32) 0 32 i =
        plainMessage env.crc32 rbuf buf i := by
  have long := (frameSize_bounds buf).1
  have whole : bytes.length = 36 := by
    rw [read, List.length_take, List.length_append, length_send paired]
    omega
  have held : (m.write 0 bytes).read 0 36 = bytes := by
    have written := Memory.read_write m 0 bytes
    rwa [whole] at written
  constructor
  · have part := Memory.read_part (m.write 0 bytes) 0
      (show 0 + 4 ≤ 36 by omega)
    have front : bytes.take 4 = ucrc := by
      rw [read, List.take_take, send_eq, List.append_assoc]
      exact List.take_left' paired.four
    rwa [held, Nat.zero_add, List.drop_zero, front] at part
  · intro i small
    show ((m.write 0 bytes).move 0 4 32).mapBlocks env.aes (16 * 0) 2 i = _
    refine Memory.mapBlocks_inverse paired.keeps paired.inverse
      paired.keepsDec (show 0 + 2 ≤ frameSize buf / 16 by omega)
      (fun j _ high => ?_) (Nat.zero_le i) (by omega)
    have moved : ((m.write 0 bytes).move 0 4 32) (0 + j) =
        cipherMessage aes env.crc32 rbuf buf j := by
      have byte : bytes.getD (4 + j) 0 =
          (send aes env.crc32 ucrc rbuf buf ++ more).getD (4 + j) 0 := by
        rw [read, List.getD_eq_getElem?_getD, List.getD_eq_getElem?_getD,
          List.getElem?_take_of_lt (by omega)]
      rw [Memory.move, Memory.write_inside (by rw [Memory.length_read]; omega),
        Memory.getD_read _ _ (by omega), ← Nat.zero_add (4 + j),
        Memory.write_inside (by omega), byte, stream_getD paired (by omega)]
    rwa [Nat.zero_add] at moved

theorem messageSize_decrypted {m : Memory} (decrypted : ∀ i < 32,
      m i = plainMessage env.crc32 rbuf buf i) :
    buflen m = buflen buf ∧ messageSize m = messageSize buf := by
  obtain ⟨data, size⟩ := plainMessage_size env.crc32 rbuf buf
  rw [← data, ← size]
  exact messageSize_congr (decrypted 0 (by decide)) (decrypted 1 (by decide))
    fun _ => ⟨decrypted 21 (by decide), decrypted 22 (by decide)⟩

/-- The second read completes the message, if it brings all that is missing. -/
theorem secondRead_full (paired : Paired env aes ucrc)
    (command : buf 0 ≠ 4) (enough : frameSize buf ≤ 32 + second)
    {m : Memory} (decrypted : ∀ i < 32,
      aesDecrypt env m 0 32 i = plainMessage env.crc32 rbuf buf i)
    {input : Input} (tcp : input.isUdp = false)
    (rest : input.rest = ((send aes env.crc32 ucrc rbuf buf ++ more).drop
      36).take second) :
    ∃ m', secondRead env input m 32 = (m', frameSize buf) ∧
      (∀ i < frameSize buf, m' i = plainMessage env.crc32 rbuf buf i) ∧
      ∀ i, frameSize buf ≤ i → m' i = m i := by
  obtain ⟨long, _, round⟩ := frameSize_bounds buf
  have size := (messageSize_decrypted decrypted).2
  rw [(messageSize_eq_iff buf).mpr command, boundary_sendSize] at size
  by_cases large : 32 < frameSize buf
  · have asked : (messageSize (aesDecrypt env m 0 32) - 32).toNat =
        frameSize buf - 32 := by omega
    have count : (input.rest.take (frameSize buf - 32)).length =
        frameSize buf - 32 := by
      rw [rest, List.length_take, List.length_take, List.length_drop,
        List.length_append, length_send paired]
      omega
    rw [secondRead_more tcp (by omega) (by omega), asked, count,
      Nat.add_sub_cancel' long]
    have blocks : (frameSize buf - 32 + 15) / 16 = frameSize buf / 16 - 2 := by
      omega
    refine ⟨_, rfl, fun i inside => ?_, fun i behind => ?_⟩
    rotate_left
    · rw [aesDecrypt_eq, Memory.mapBlocks_outside paired.keepsDec
        (.inr (by omega)), Memory.write_of_le (by omega), aesDecrypt_eq,
        Memory.mapBlocks_outside paired.keepsDec (.inr (by omega))]
    by_cases front : i < 32
    · rw [aesDecrypt_eq, Memory.mapBlocks_outside paired.keepsDec (.inl front),
        Memory.write_of_lt front, decrypted i front]
    · rw [aesDecrypt_eq, blocks]
      refine Memory.mapBlocks_inverse paired.keeps paired.inverse
        paired.keepsDec (show 2 + (frameSize buf / 16 - 2) ≤
          frameSize buf / 16 by omega) (fun j low high => ?_) (by omega)
        (by omega)
      have byte : (input.rest.take (frameSize buf - 32)).getD (j - 32) 0 =
          (send aes env.crc32 ucrc rbuf buf ++ more).getD (4 + j) 0 := by
        rw [rest, List.take_take, List.getD_eq_getElem?_getD,
          List.getD_eq_getElem?_getD, List.getElem?_take_of_lt (by omega),
          List.getElem?_drop]
        congr 2
        omega
      have place : 32 + (j - 32) = j := by omega
      rw [← place, Memory.write_inside (by omega), byte,
        stream_getD paired (by omega), place]
      rfl
  · have exact_ : frameSize buf = 32 := by omega
    rw [secondRead_none (by omega), exact_]
    refine ⟨_, rfl, decrypted, fun i behind => ?_⟩
    rw [aesDecrypt_eq, Memory.mapBlocks_outside paired.keepsDec (.inr behind)]

/-- Both reads bring all they ask for: the buffer holds the message, and
behind it what it held before, the first read apart. -/
theorem recv_full (rbuf m : Memory) (more : List UInt8)
    (paired : Paired env aes ucrc) (command : buf 0 ≠ 4)
    (all : 36 ≤ first) (enough : frameSize buf ≤ 32 + second) :
    ∃ m' : Memory, recv env
        (tcpInput (send aes env.crc32 ucrc rbuf buf ++ more) first second) m =
          some ((frameSize buf : Int), m') ∧
      consumed env
        (tcpInput (send aes env.crc32 ucrc rbuf buf ++ more) first second) m =
          4 + frameSize buf ∧
      (∀ i < frameSize buf, m' i = plainMessage env.crc32 rbuf buf i) ∧
      ∀ i, frameSize buf ≤ i → 36 ≤ i → m' i = m i := by
  obtain ⟨long, covers, _⟩ := frameSize_bounds buf
  have cut : min first 36 = 36 := Nat.min_eq_right all
  generalize input_ : tcpInput (send aes env.crc32 ucrc rbuf buf ++ more)
    first second = input
  have tcp : input.isUdp = false := by rw [← input_]; rfl
  have rest : input.rest = ((send aes env.crc32 ucrc rbuf buf ++ more).drop
      36).take second := by
    rw [← input_, tcpInput, cut]
  have taken : input.first =
      (send aes env.crc32 ucrc rbuf buf ++ more).take 36 := by
    rw [← input_, tcpInput, cut]
  have whole : input.first.length = 36 := by
    rw [taken, List.length_take, List.length_append, length_send paired]
    omega
  obtain ⟨user, decrypted⟩ := first_decrypted (m := m) paired taken
  obtain ⟨data, size⟩ := messageSize_decrypted decrypted
  rw [(messageSize_eq_iff buf).mpr command, boundary_sendSize] at size
  obtain ⟨m', completed, plain, behind⟩ :=
    secondRead_full paired command enough decrypted tcp rest
  have read : firstRead input m = some (m.write 0 input.first, 36) := by
    simp [firstRead, tcp, List.take_of_length_le whole.le, whole]
  have checked : env.crc32 (m'.read 20 (buflen buf)) = m'.number 4 4 := by
    have inside : 20 + buflen buf ≤ frameSize buf := by
      unfold sendSize at covers
      omega
    have bodies : m'.read 20 (buflen buf) =
        (plainMessage env.crc32 rbuf buf).read 20 (buflen buf) :=
      Memory.read_congr fun i _ high => plain i (by omega)
    have fields : m'.read 4 4 =
        (plainMessage env.crc32 rbuf buf).read 4 4 :=
      Memory.read_congr fun i _ high => plain i (by omega)
    rw [bodies, plainMessage_number paired.crc, Memory.number, ← fields]
    rfl
  refine ⟨m', ?_, ?_, plain, ?_⟩
  · rw [recv, read, Option.map_some]
    simp only [user, paired.known, size, data, completed, checked]
    simp
  · unfold consumed
    rw [read]
    simp only [user, paired.known, completed]
    simp [Nat.add_comm]
  · intro i after far
    rw [behind i after, Memory.move, Memory.write_of_le (by simp; omega),
      Memory.write_of_le (by omega)]

end Connection

/-! ## A user with a password -/

end Oscam.Camd35
