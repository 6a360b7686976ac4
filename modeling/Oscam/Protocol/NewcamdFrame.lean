import Oscam.Cscrypt.DesInverse
import Oscam.Protocol.NewcamdCard

/-!
# The frames of newcamd

A message of either side goes through `network_message_send` and comes out of
`network_message_receive` on the other side.  Both work in a buffer of 272
bytes; what lies behind it is part of the memories here.
-/

namespace Oscam.Newcamd

/-! ## Both sides -/

/-- The type of communication on the other side. -/
def CommType.peer : CommType → CommType
  | .client => .server
  | .server => .client

/-- `netbuf` of `network_message_send` at the end, with the number of bytes
that are sent. -/
def sendFrame (euroDes : List UInt8 → List UInt8) (random : Random)
    (proto : Proto) (commType : CommType) (netMsgId sid : Nat)
    (cd : Option CustomData) (net buffer : Memory) (len : Nat) :
    Option (Nat × Memory) :=
  if len < 3 ∨ len + headSize proto > netMsgSize then none
  else
    (desEncrypt euroDes random
      (netBuffer proto (nextMsgId commType netMsgId) sid cd net buffer len)
      (len + headSize proto)).map fun (len, net) =>
        (len, net.write 0 (Memory.digits 2 (len - 2)))

/-- What is in front of a message in the buffer of the receiver: on the server
the SID, on the client the number. -/
def placeOfHead (commType : CommType) (proto : Proto) : Nat :=
  match commType with
  | .server => if proto = .ncd525 then 4 else 6
  | .client => 2

/-- `network_message_receive` behind the decryption. -/
def messageRest (commType : CommType) (proto : Proto) (len : Nat)
    (net buffer : Memory) : Int × Memory :=
  match detect proto net len with
  | none => (-1, buffer)
  | some proto =>
      let ncdOff := if proto = .ncd525 then 4 else 0
      let returnLen := ecmLength net (9 + ncdOff) + 3
      if (returnLen : Int) > len - (8 + ncdOff : Nat) then (-1, buffer)
      else
        (returnLen + 2,
          buffer.write 0
            (net.read (placeOfHead commType proto) 2 ++
              net.read (8 + ncdOff) returnLen))

/-- `network_message_receive`: the return code and the buffer. -/
def receive (env : Env) (commType : CommType) (proto : Proto)
    (header body : List UInt8) (net buffer : Memory) : Int × Memory :=
  match commType with
  | .server => messageReceive env proto header body net buffer
  | .client => clientReceive env proto header body net buffer

variable {env : Env} {euroDes : List UInt8 → List UInt8} {random : Random}
  {proto : Proto} {commType : CommType} {netMsgId sid len : Nat}
  {cd : Option CustomData} {net buffer : Memory} {bytes : List UInt8}

theorem messageSend_eq :
    messageSend euroDes random proto commType netMsgId sid cd net buffer len =
      (sendFrame euroDes random proto commType netMsgId sid cd net buffer
        len).map fun frame => frame.2.read 0 frame.1 := by
  unfold messageSend sendFrame
  split
  · rfl
  · rw [Option.map_map]
    rfl

/-- Both sides read the frame in the same way. -/
theorem receive_eq (env : Env) (commType : CommType) (proto : Proto)
    (header body : List UInt8) (net buffer : Memory) :
    receive env commType proto header body net buffer =
      match receiveFrame env header body net with
      | .error code => (code, buffer)
      | .ok (len, net) => messageRest commType proto len net buffer := by
  cases commType with
  | client => rfl
  | server =>
      unfold receive messageReceive receiveFrame
      dsimp only
      split_ifs
      iterate 5 rfl
      cases desDecrypt env _ _ with
      | none => rfl
      | some frame =>
          obtain ⟨len, net⟩ := frame
          dsimp only
          split_ifs <;> rfl

/-! ## The buffers -/

/-- The bytes from the fifth on, as they are sent. -/
def fields (proto : Proto) (sid : Nat) (cd : Option CustomData) :
    List UInt8 :=
  match cd with
  | none =>
      if proto = .ncd524 then [0, 0] ++ Memory.digits 2 sid
      else Memory.digits 2 sid ++ List.replicate 6 0
  | some cd =>
      Memory.digits 2 cd.sid ++ Memory.digits 2 cd.caid ++
        Memory.digits 3 cd.provid ++ if proto = .ncd524 then [] else [0]

/-- `netbuf` is the message, and over it the number and the fields. -/
theorem netBuffer_eq (proto : Proto) (netMsgId sid : Nat)
    (cd : Option CustomData) (net buffer : Memory) (len : Nat) :
    netBuffer proto netMsgId sid cd net buffer len =
      (((net.write (headSize proto) ((setLength buffer len).read 0 len)).write
        2 (Memory.digits 2 netMsgId)).write 4 (fields proto sid cd)).write 0
          (Memory.digits 2 (len + headSize proto - 2)) := by
  let numbered := (net.write (headSize proto)
    ((setLength buffer len).read 0 len)).write 2 (Memory.digits 2 netMsgId)
  have zeros : Memory.digits 2 0 = [0, 0] := rfl
  have withSid : (if sid ≠ 0 then
      (numbered.write 4
        (List.replicate (if proto = .ncd524 then 4 else 8) 0)).write
          (if proto = .ncd524 then 6 else 4) (Memory.digits 2 sid)
      else numbered.write 4
        (List.replicate (if proto = .ncd524 then 4 else 8) 0)) =
        numbered.write 4 (fields proto sid none) := by
    by_cases old : proto = .ncd524
    · simp only [fields, if_pos old]
      split
      · exact @Memory.write_part numbered 4 [0, 0] [0, 0]
          (Memory.digits 2 sid) [] rfl
      · rename_i unset
        rw [not_not.mp unset, zeros]
        rfl
    · simp only [fields, if_neg old]
      split
      · exact @Memory.write_part numbered 4 [] [0, 0]
          (Memory.digits 2 sid) (List.replicate 6 0) rfl
      · rename_i unset
        rw [not_not.mp unset, zeros]
        rfl
  unfold netBuffer
  dsimp only
  rw [withSid]
  cases cd with
  | none => rfl
  | some cd =>
      dsimp only
      congr 1
      by_cases old : proto = .ncd524
      · simp only [fields, if_pos old, List.append_nil]
        exact Memory.write_longer numbered 4 (by
          simp only [List.length_append, Memory.length_digits,
            List.length_cons, List.length_nil]
          omega)
      · simp only [fields, if_neg old]
        exact @Memory.write_part numbered 4 []
          (Memory.digits 2 sid ++ List.replicate 5 0)
          (Memory.digits 2 cd.sid ++ Memory.digits 2 cd.caid ++
            Memory.digits 3 cd.provid) [0] rfl

theorem eight_le_headSize (proto : Proto) : 8 ≤ headSize proto := by
  unfold headSize
  split <;> omega

theorem length_fields_none (proto : Proto) (sid : Nat) :
    (fields proto sid none).length = headSize proto - 4 := by
  unfold fields headSize
  dsimp only
  split <;> simp

theorem length_fields_some (proto : Proto) (sid : Nat) (cd : CustomData) :
    (fields proto sid (some cd)).length =
      if proto = .ncd524 then 7 else 8 := by
  unfold fields
  dsimp only
  split <;> simp

/-- The number of the message. -/
theorem read_netBuffer_number (proto : Proto) (netMsgId sid : Nat)
    (cd : Option CustomData) (net buffer : Memory) (len : Nat) :
    (netBuffer proto netMsgId sid cd net buffer len).read 2 2 =
      Memory.digits 2 netMsgId := by
  have written := Memory.read_write
    (net.write (headSize proto) ((setLength buffer len).read 0 len)) 2
    (Memory.digits 2 netMsgId)
  rw [Memory.length_digits] at written
  rw [netBuffer_eq]
  refine Eq.trans (Memory.read_congr ?_) written
  intro i low high
  rw [Memory.write_of_le (by rw [Memory.length_digits]; omega),
    Memory.write_of_lt (by omega)]

/-- The fields, and parts of them. -/
theorem read_netBuffer_fields (proto : Proto) (netMsgId sid : Nat)
    (cd : Option CustomData) (net buffer : Memory) (len : Nat)
    {start size : Nat} (inside : start + size ≤ (fields proto sid cd).length) :
    (netBuffer proto netMsgId sid cd net buffer len).read (4 + start) size =
      ((fields proto sid cd).drop start).take size := by
  let front := (net.write (headSize proto)
    ((setLength buffer len).read 0 len)).write 2 (Memory.digits 2 netMsgId)
  have written := Memory.read_write front 4 (fields proto sid cd)
  have whole : (netBuffer proto netMsgId sid cd net buffer len).read 4
      (fields proto sid cd).length = fields proto sid cd := by
    rw [netBuffer_eq]
    refine Eq.trans (Memory.read_congr ?_) written
    intro i low _high
    exact Memory.write_of_le (by rw [Memory.length_digits]; omega)
  rw [Memory.read_part _ _ inside, whole]

/-- The message, as far as the fields do not reach. -/
theorem read_netBuffer_message (proto : Proto) (netMsgId sid : Nat)
    (cd : Option CustomData) (net buffer : Memory) {len start size : Nat}
    (inside : start + size ≤ len)
    (behind : 4 + (fields proto sid cd).length ≤ headSize proto + start) :
    (netBuffer proto netMsgId sid cd net buffer len).read
        (headSize proto + start) size =
      (setLength buffer len).read start size := by
  have head := eight_le_headSize proto
  rw [netBuffer_eq]
  apply Memory.read_of_apply
  intro i short
  rw [Memory.write_of_le (by rw [Memory.length_digits]; omega),
    Memory.write_of_le (by omega),
    Memory.write_of_le (by rw [Memory.length_digits]; omega),
    Nat.add_assoc,
    Memory.write_inside (by rw [Memory.length_read]; omega),
    Memory.getD_read _ _ (by omega), Nat.zero_add]

/-- Nothing is written behind the message. -/
theorem netBuffer_of_le (proto : Proto) (netMsgId sid : Nat)
    (cd : Option CustomData) (net buffer : Memory) {len i : Nat}
    (three : 3 ≤ len) (behind : len + headSize proto ≤ i) :
    netBuffer proto netMsgId sid cd net buffer len i = net i := by
  have head := eight_le_headSize proto
  have short : 4 + (fields proto sid cd).length ≤ headSize proto + 3 := by
    cases cd with
    | none =>
        rw [length_fields_none]
        omega
    | some cd =>
        rw [length_fields_some]
        unfold headSize
        split <;> omega
  rw [netBuffer_eq,
    Memory.write_of_le (by rw [Memory.length_digits]; omega),
    Memory.write_of_le (by omega),
    Memory.write_of_le (by rw [Memory.length_digits]; omega),
    Memory.write_of_le (by rw [Memory.length_read]; omega)]

/-! ## The frame stays in its buffer -/

theorem desPad_of_le {m : Memory} {i : Nat}
    (behind : len + noPadBytes len + 9 ≤ i) : desPad random m len i = m i := by
  unfold desPad
  rw [Memory.write_of_le (by rw [Memory.length_read]; omega),
    Memory.write_of_le (by
      rw [List.length_cons, List.length_nil]
      omega),
    Memory.write_of_le (by rw [Memory.length_read]; omega)]

theorem desEncrypt_of_le
    (cipher : Memory.BlockCipher 8 euroDes env.euroDes) {m c : Memory}
    {n : Nat} (two : 2 ≤ len)
    (sent : desEncrypt euroDes random m len = some (n, c)) :
    n ≤ netMsgSize ∧ len ≤ n ∧ ∀ i, n ≤ i → c i = m i := by
  unfold desEncrypt at sent
  split at sent
  · cases sent
  rename_i fits
  obtain ⟨rfl, rfl⟩ := Prod.mk.inj (Option.some.inj sent)
  have full : (len + noPadBytes len - 1) % 8 = 0 := noPadBytes_spec (by omega)
  have room : netMsgSize = 272 := rfl
  refine ⟨by omega, by omega, ?_⟩
  intro i behind
  have chained := Memory.chained_chain cipher
    (Memory.length_read random.ivec 0 8) (desPad random m len) 2
    ((len + noPadBytes len + 1 - 2 + 7) / 8)
  rw [chained.outside i (.inr (by omega)), desPad_of_le (by omega)]

/-- The sender keeps to its buffer. -/
theorem sendFrame_of_le
    (cipher : Memory.BlockCipher 8 euroDes env.euroDes) {frame : Nat × Memory}
    (sent : sendFrame euroDes random proto commType netMsgId sid cd net buffer
      len = some frame) :
    frame.1 ≤ netMsgSize ∧ ∀ i, netMsgSize ≤ i → frame.2 i = net i := by
  have head := eight_le_headSize proto
  have room : netMsgSize = 272 := rfl
  unfold sendFrame at sent
  split at sent
  · cases sent
  rename_i fits
  obtain ⟨⟨n, c⟩, encrypted, rfl⟩ := Option.map_eq_some_iff.mp sent
  obtain ⟨small, _grown, outside⟩ :=
    desEncrypt_of_le cipher (by omega) encrypted
  refine ⟨small, ?_⟩
  intro i behind
  show (c.write 0 (Memory.digits 2 (n - 2))) i = net i
  have inside : n ≤ i := by omega
  rw [Memory.write_of_le (by rw [Memory.length_digits]; omega),
    outside i inside, netBuffer_of_le _ _ _ _ _ _ (by omega) (by omega)]

theorem desDecrypt_of_le {m d : Memory} {n size : Nat}
    (taken : desDecrypt env m n = some (size, d)) :
    size ≤ n ∧ ∀ i, n ≤ i → d i = m i := by
  unfold desDecrypt at taken
  split at taken
  · cases taken
  dsimp only at taken
  split at taken
  · cases taken
  obtain ⟨rfl, rfl⟩ := Prod.mk.inj (Option.some.inj taken)
  refine ⟨Nat.sub_le n 8, ?_⟩
  intro i behind
  rw [desBlocks_eq]
  exact (Memory.unchain_outside env.euroDes m
    (Memory.length_read m (n - 8) 8)).2 i (.inr (by omega))

/-- The receiver keeps to its buffer, whatever comes. -/
theorem receiveFrame_of_le {header body : List UInt8} {received d : Memory}
    {size : Nat}
    (taken : receiveFrame env header body received = .ok (size, d)) :
    size ≤ netMsgSize ∧ ∀ i, netMsgSize ≤ i → d i = received i := by
  have room : netMsgSize = 272 := rfl
  unfold receiveFrame at taken
  dsimp only at taken
  split_ifs at taken with _none _short long _empty part
  generalize decrypted : desDecrypt env _ _ = frame at taken
  cases frame with
  | none => cases taken
  | some frame =>
      obtain ⟨length, plain⟩ := frame
      dsimp only at taken
      split_ifs at taken
      obtain ⟨rfl, rfl⟩ := Prod.mk.inj (Except.ok.inj taken)
      obtain ⟨small, outside⟩ := desDecrypt_of_le decrypted
      refine ⟨by omega, ?_⟩
      intro i behind
      have two := List.length_take_le 2 header
      rw [outside i (by omega), Memory.write_of_le (by omega),
        Memory.write_of_le (by omega)]

/-! ## What arrives -/

/-- The SID that is sent: custom data brings its own. -/
def sentSid (sid : Nat) (cd : Option CustomData) : Nat :=
  match cd with
  | none => sid
  | some cd => cd.sid

/-- What is sent in front of the message: to the server the SID, to the client
the number. -/
def sentHead (commType : CommType) (netMsgId sid : Nat)
    (cd : Option CustomData) : List UInt8 :=
  match commType with
  | .client => Memory.digits 2 (sentSid sid cd)
  | .server => Memory.digits 2 (nextMsgId .server netMsgId)

theorem length_sentHead (commType : CommType) (netMsgId sid : Nat)
    (cd : Option CustomData) :
    (sentHead commType netMsgId sid cd).length = 2 := by
  cases commType <;> exact Memory.length_digits ..

/-- The frame keeps to the buffers on both sides, and the receiver gets the
message with its length and what was sent in front of it. -/
structure Arrives (env : Env) (euroDes : List UInt8 → List UInt8)
    (random : Random) (proto : Proto) (commType : CommType)
    (netMsgId sid : Nat) (cd : Option CustomData) (net buffer : Memory)
    (len : Nat) (received buf : Memory) (bytes : List UInt8) : Prop where
  sent : ∃ frame ∈ sendFrame euroDes random proto commType netMsgId sid cd
      net buffer len,
    bytes = frame.2.read 0 frame.1 ∧ frame.1 ≤ netMsgSize ∧
      ∀ i, netMsgSize ≤ i → frame.2 i = net i
  taken : ∃ frame,
    receiveFrame env (bytes.take 2) (bytes.drop 2) received = .ok frame ∧
      frame.1 ≤ netMsgSize ∧
      ∀ i, netMsgSize ≤ i → frame.2 i = received i
  message : receive env commType.peer proto (bytes.take 2) (bytes.drop 2)
      received buf =
    ((len : Int) + 2, buf.write 0 (sentHead commType netMsgId sid cd ++
      (setLength buffer len).read 0 len))

/-- In a head of eight bytes custom data puts its caid where the SID should be,
and its provider over the command and the length. -/
def Undisturbed (proto : Proto) (commType : CommType)
    (cd : Option CustomData) (buffer : Memory) (len : Nat) : Prop :=
  proto = .ncd524 → ∀ data ∈ cd,
    (commType = .client →
      Memory.digits 2 data.caid = Memory.digits 2 data.sid) ∧
    Memory.digits 3 data.provid = (setLength buffer len).read 0 3

instance (proto : Proto) (commType : CommType) (cd : Option CustomData)
    (buffer : Memory) (len : Nat) :
    Decidable (Undisturbed proto commType cd buffer len) := by
  unfold Undisturbed
  infer_instance

/-- The receiver takes what stands in the places of the head and the
message. -/
theorem messageRest_iff (known : proto ≠ .auto) {size : Nat} {d : Memory}
    {buf : Memory} {head : List UInt8} (two : head.length = 2)
    (three : 3 ≤ len) (small : len - 3 < 4096)
    (whole : len + headSize proto < size) :
    messageRest commType proto size d buf =
        ((len : Int) + 2,
          buf.write 0 (head ++ (setLength buffer len).read 0 len)) ↔
      d.read (placeOfHead commType proto) 2 = head ∧
        d.read (headSize proto) len = (setLength buffer len).read 0 len := by
  have detected : detect proto d size = some proto := by
    unfold detect
    exact if_pos known
  have offset : 8 + (if proto = .ncd525 then 4 else 0) = headSize proto := by
    cases proto with
    | auto => exact absurd rfl known
    | ncd525 => rfl
    | ncd524 => rfl
  have field : 9 + (if proto = .ncd525 then 4 else 0) =
      headSize proto + 1 := by omega
  unfold messageRest
  rw [detected]
  dsimp only
  rw [offset, field]
  constructor
  · intro same
    split_ifs at same with refused
    · have code := congrArg Prod.fst same
      dsimp only at code
      omega
    · obtain ⟨code, written⟩ := Prod.mk.inj same
      have length : ecmLength d (headSize proto + 1) + 3 = len := by omega
      rw [length, Memory.write_inj (by simp [two])] at written
      exact List.append_inj written (by rw [Memory.length_read, two])
  · rintro ⟨front, data⟩
    have length : ecmLength d (headSize proto + 1) = len - 3 := by
      rw [← ecmLength_setLength buffer small]
      have first := Memory.apply_of_read data (show 1 < len by omega)
      have second := Memory.apply_of_read data (show 2 < len by omega)
      rw [Nat.zero_add] at first second
      unfold ecmLength
      rw [← first, ← second]
    have back : len - 3 + 3 = len := by omega
    rw [length, back, front, data, if_neg (by omega)]

/-- A message that the fields do not reach. -/
theorem read_netBuffer_kept (proto : Proto) (netMsgId sid : Nat)
    (cd : Option CustomData) (net buffer : Memory) (len : Nat)
    (kept : 4 + (fields proto sid cd).length ≤ headSize proto) :
    (netBuffer proto netMsgId sid cd net buffer len).read (headSize proto)
        len = (setLength buffer len).read 0 len :=
  read_netBuffer_message proto netMsgId sid cd net buffer
    (Nat.le_of_eq (Nat.zero_add len)) kept

/-- The custom data in a head of eight bytes. -/
theorem read_netBuffer_ncd524 (netMsgId sid : Nat) (cd : CustomData)
    (net buffer : Memory) (three : 3 ≤ len) :
    (netBuffer .ncd524 netMsgId sid (some cd) net buffer len).read 8 len =
        (setLength buffer len).read 0 len ↔
      Memory.digits 3 cd.provid = (setLength buffer len).read 0 3 := by
  have seven : (fields .ncd524 sid (some cd)).length = 7 :=
    length_fields_some .ncd524 sid cd
  have provid := read_netBuffer_fields .ncd524 netMsgId sid (some cd) net
    buffer len (show 4 + 3 ≤ (fields .ncd524 sid (some cd)).length by omega)
  have front : ((fields .ncd524 sid (some cd)).drop 4).take 3 =
      Memory.digits 3 cd.provid := rfl
  have rest := read_netBuffer_message .ncd524 netMsgId sid (some cd) net
    buffer (show 3 + (len - 3) ≤ len by omega)
    (show 4 + (fields .ncd524 sid (some cd)).length ≤ headSize .ncd524 + 3 by
      rw [seven]
      rfl)
  obtain ⟨more, rfl⟩ := Nat.le.dest three
  rw [Nat.add_sub_cancel_left] at rest
  rw [front] at provid
  rw [Memory.read_add, Memory.read_add, Nat.zero_add]
  constructor
  · intro same
    have first := (List.append_inj same (by simp)).1
    exact provid.symm.trans first
  · intro same
    exact congrArg₂ (· ++ ·) (provid.trans same) rest

/-- What stands in front of a message for the server. -/
theorem read_netBuffer_sid (known : proto ≠ .auto) (netMsgId sid : Nat)
    (cd : Option CustomData) (net buffer : Memory) (len : Nat) :
    (netBuffer proto netMsgId sid cd net buffer len).read
        (placeOfHead .server proto) 2 = Memory.digits 2 (sentSid sid cd) ↔
      (proto = .ncd524 → ∀ data ∈ cd,
        Memory.digits 2 data.caid = Memory.digits 2 data.sid) := by
  have length : 4 ≤ (fields proto sid cd).length := by
    cases cd with
    | none =>
        rw [length_fields_none]
        have head := eight_le_headSize proto
        omega
    | some cd =>
        rw [length_fields_some]
        split <;> omega
  cases proto with
  | auto => exact absurd rfl known
  | ncd525 =>
      have sent := read_netBuffer_fields .ncd525 netMsgId sid cd net buffer
        len (show 0 + 2 ≤ (fields .ncd525 sid cd).length by omega)
      have value : ((fields .ncd525 sid cd).drop 0).take 2 =
          Memory.digits 2 (sentSid sid cd) := by
        cases cd <;> rfl
      exact iff_of_true (sent.trans value) (fun old => by cases old)
  | ncd524 =>
      have sent := read_netBuffer_fields .ncd524 netMsgId sid cd net buffer
        len (show 2 + 2 ≤ (fields .ncd524 sid cd).length by omega)
      have place : placeOfHead .server .ncd524 = 4 + 2 := rfl
      rw [place, sent]
      cases cd with
      | none => exact iff_of_true rfl (fun _old _data none => by cases none)
      | some cd =>
          have value : ((fields .ncd524 sid (some cd)).drop 2).take 2 =
              Memory.digits 2 cd.caid := rfl
          rw [value]
          constructor
          · rintro same _old _data ⟨⟩
            exact same
          · intro same
            exact same rfl cd rfl

/-- What stands in these places in the buffer of the sender. -/
theorem netBuffer_iff (known : proto ≠ .auto) (three : 3 ≤ len) :
    let sent := netBuffer proto (nextMsgId commType netMsgId) sid cd net
      buffer len
    (sent.read (placeOfHead commType.peer proto) 2 =
        sentHead commType netMsgId sid cd ∧
      sent.read (headSize proto) len = (setLength buffer len).read 0 len) ↔
      Undisturbed proto commType cd buffer len := by
  have front : (netBuffer proto (nextMsgId commType netMsgId) sid cd net
      buffer len).read (placeOfHead commType.peer proto) 2 =
        sentHead commType netMsgId sid cd ↔
      (proto = .ncd524 → ∀ data ∈ cd, commType = .client →
        Memory.digits 2 data.caid = Memory.digits 2 data.sid) := by
    cases commType with
    | client =>
        refine (read_netBuffer_sid known _ sid cd net buffer len).trans ?_
        exact forall_congr' fun _old => forall₂_congr fun _data _some =>
          ⟨fun same _client => same, fun same => same rfl⟩
    | server =>
        refine iff_of_true ?_ (fun _old _data _some server => by cases server)
        exact read_netBuffer_number proto _ sid cd net buffer len
  have data : (netBuffer proto (nextMsgId commType netMsgId) sid cd net
      buffer len).read (headSize proto) len =
        (setLength buffer len).read 0 len ↔
      (proto = .ncd524 → ∀ data ∈ cd,
        Memory.digits 3 data.provid = (setLength buffer len).read 0 3) := by
    cases cd with
    | none =>
        refine iff_of_true (read_netBuffer_kept _ _ _ _ _ _ _ ?_)
          (fun _old _data none => by cases none)
        rw [length_fields_none]
        have head := eight_le_headSize proto
        omega
    | some cd =>
        by_cases old : proto = .ncd524
        · subst old
          refine (read_netBuffer_ncd524 _ sid cd net buffer three).trans ?_
          constructor
          · rintro same _old _data ⟨⟩
            exact same
          · intro same
            exact same rfl cd rfl
        · refine iff_of_true (read_netBuffer_kept _ _ _ _ _ _ _ ?_)
            (fun other => absurd other old)
          rw [length_fields_some, if_neg old, headSize_of_ne old]
  dsimp only
  rw [front, data]
  constructor
  · rintro ⟨first, second⟩ old data some
    exact ⟨first old data some, second old data some⟩
  · intro both
    exact ⟨fun old data some => (both old data some).1,
      fun old data some => (both old data some).2⟩

/-- What the receiver returns depends on the custom data only. -/
theorem receive_iff (known : proto ≠ .auto)
    (cipher : Memory.BlockCipher 8 euroDes env.euroDes)
    (received buf : Memory)
    (sent : messageSend euroDes random proto commType netMsgId sid cd net
      buffer len = some bytes) :
    receive env commType.peer proto (bytes.take 2) (bytes.drop 2) received
        buf =
      ((len : Int) + 2, buf.write 0 (sentHead commType netMsgId sid cd ++
        (setLength buffer len).read 0 len)) ↔
      Undisturbed proto commType cd buffer len := by
  have accepted : (messageSend euroDes random proto commType netMsgId sid cd
      net buffer len).isSome := by
    rw [sent]
    rfl
  obtain ⟨three, room⟩ := messageSend_isSome.mp accepted
  have size272 : netMsgSize = 272 := rfl
  have head := eight_le_headSize proto
  obtain ⟨size, d, frame, whole, plain⟩ :=
    receiveFrame_messageSend cipher received sent
  have place : 2 ≤ placeOfHead commType.peer proto ∧
      placeOfHead commType.peer proto + 2 ≤ 8 := by
    cases commType <;> cases proto <;> decide
  have heads : d.read (placeOfHead commType.peer proto) 2 =
      (netBuffer proto (nextMsgId commType netMsgId) sid cd net buffer
        len).read (placeOfHead commType.peer proto) 2 := by
    apply Memory.read_congr
    intro i low high
    exact plain i (by omega) (by omega)
  have messages : d.read (headSize proto) len =
      (netBuffer proto (nextMsgId commType netMsgId) sid cd net buffer
        len).read (headSize proto) len := by
    apply Memory.read_congr
    intro i low high
    exact plain i (by omega) (by omega)
  rw [receive_eq, frame]
  dsimp only
  rw [messageRest_iff known (length_sentHead commType netMsgId sid cd) three
    (by omega) whole, heads, messages]
  exact netBuffer_iff known three

/-- A message arrives if and only if no custom data is put into a head of
eight bytes, or what it overwrites happens to be equal. -/
theorem frame_arrives_iff (known : proto ≠ .auto)
    (cipher : Memory.BlockCipher 8 euroDes env.euroDes)
    (received buf : Memory)
    (sent : messageSend euroDes random proto commType netMsgId sid cd net
      buffer len = some bytes) :
    Arrives env euroDes random proto commType netMsgId sid cd net buffer len
        received buf bytes ↔
      Undisturbed proto commType cd buffer len := by
  have message := receive_iff known cipher received buf sent
  constructor
  · intro arrives
    exact message.mp arrives.message
  · intro undisturbed
    obtain ⟨size, d, frame, _whole, _plain⟩ :=
      receiveFrame_messageSend cipher received sent
    obtain ⟨smallReceived, outsideReceived⟩ := receiveFrame_of_le frame
    rw [messageSend_eq] at sent
    obtain ⟨sentFrame, made, rfl⟩ := Option.map_eq_some_iff.mp sent
    obtain ⟨small, outside⟩ := sendFrame_of_le cipher made
    exact {
      sent := ⟨sentFrame, made, rfl, small, outside⟩
      taken := ⟨(size, d), frame, smallReceived, outsideReceived⟩
      message := message.mpr undisturbed }

/-! ## With the session key -/

/-- `EuroDes` as `des_encrypt` and `des_decrypt` call it. -/
def euroDesBytes (key1 key2 : Memory) (operatingMode : UInt8)
    (block : List UInt8) : List UInt8 :=
  (Des.euroDes key1 key2 Des.newcamdFlags operatingMode
    (Vector.ofFn fun i => block.getD i 0)).toList

/-- A key of the login makes `EuroDes` a cipher with its inverse. -/
theorem blockCipher_loginKey (key1 key2 : Memory) (len : Nat) :
    let des16 := Des.loginKeyGet key1 key2 len
    Memory.BlockCipher 8 (euroDesBytes des16.1 des16.2 Des.hashMode)
      (euroDesBytes des16.1 des16.2 0) where
  length := fun _block _whole => Vector.length_toList
  inverse := by
    intro block whole
    have plain : (Des.loginKeyGet key1 key2 len).1 7 = 0 :=
      Des.doPC1_last (Des.keySpread (Des.mixedKey key1 key2 len))
    have same (data : Des.Block) :
        (Vector.ofFn fun i : Fin 8 => data.toList.getD i 0) = data := by
      ext i inside
      simp
    unfold euroDesBytes
    rw [same, Des.euroDes_euroDes plain]
    apply List.ext_getElem
    · simp [whole]
    · intro i first second
      simp [second]

/-- Both sides with the same session key. -/
def loginEnv (key1 key2 : Memory) (len : Nat) : Env where
  euroDes :=
    let des16 := Des.loginKeyGet key1 key2 len
    euroDesBytes des16.1 des16.2 0
  portCaid := 0

def loginCipher (key1 key2 : Memory) (len : Nat) : List UInt8 → List UInt8 :=
  let des16 := Des.loginKeyGet key1 key2 len
  euroDesBytes des16.1 des16.2 Des.hashMode

/-- A message of three bytes is sent. -/
theorem messageSend_three (proto : Proto) (commType : CommType) (sid : Nat)
    (cd : Option CustomData) (buffer : Memory) :
    (messageSend (loginCipher Memory.zero Memory.zero 0) zeroRandom proto
      commType 0 sid cd Memory.zero buffer 3).isSome := by
  rw [messageSend_isSome]
  unfold headSize noPadBytes
  split <;> decide

/-- The client sends `MSG_KEEPALIVE` with a key of zeros. -/
theorem frame_arrives_iff_keepalive :
    let buffer := Memory.zero.write 0 [0xfd]
    Arrives (loginEnv Memory.zero Memory.zero 0)
        (loginCipher Memory.zero Memory.zero 0) zeroRandom .ncd525 .client 0
        0x0102 none Memory.zero buffer 3 Memory.zero Memory.zero
        (Option.get _ (messageSend_three .ncd525 .client 0x0102 none buffer)) ↔
      Undisturbed .ncd525 .client none buffer 3 :=
  frame_arrives_iff (by decide) (blockCipher_loginKey Memory.zero Memory.zero 0)
    Memory.zero Memory.zero (Option.some_get _).symm

/-- The server of protocol 524 announces a card of caid 0x0500 and provider
0x023800 with `MSG_SERVER_2_CLIENT_ADDCARD`. -/
theorem not_arrives_addcard :
    let buffer := Memory.zero.write 0 [0xd3]
    let cd : CustomData := { sid := 0, caid := 0x0500, provid := 0x023800 }
    ¬ Arrives (loginEnv Memory.zero Memory.zero 0)
        (loginCipher Memory.zero Memory.zero 0) zeroRandom .ncd524 .server 0
        0 (some cd) Memory.zero buffer 3 Memory.zero Memory.zero
        (Option.get _
          (messageSend_three .ncd524 .server 0 (some cd) buffer)) := by
  intro buffer cd arrives
  have undisturbed := (receive_iff (by decide)
    (blockCipher_loginKey Memory.zero Memory.zero 0) Memory.zero Memory.zero
    (Option.some_get _).symm).mp arrives.message
  exact absurd undisturbed (by decide)

end Oscam.Newcamd
