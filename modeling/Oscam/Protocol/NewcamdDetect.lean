import Oscam.Protocol.NewcamdFrame

/-!
# Which newcamd it is

A receiver that does not know the protocol compares the bytes of a message at
the places of both heads.  The head of protocol 524 is four bytes shorter, so
that the fifth byte of the message stands where protocol 525 has the first.
-/

namespace Oscam.Newcamd

/-- The protocol that a receiver in state `NCD_AUTO` goes by from a frame
on. -/
def detected (env : Env) (header body : List UInt8) (net : Memory) :
    Option Proto :=
  match receiveFrame env header body net with
  | .ok (len, net) => detect .auto net len
  | .error _ => none

/-- The four high bits of a command that detection looks for. -/
def Command (byte : UInt8) : Prop :=
  byte.toNat / 16 = 0xE ∨ byte.toNat / 16 = 0x8

/-- What stands behind a head of eight bytes: the message, with the provider
of custom data in its first three bytes, and the padding. -/
def behindHead (random : Random) (cd : Option CustomData) (buffer : Memory)
    (len k : Nat) : UInt8 :=
  if len ≤ k then random.padBytes (k - len)
  else
    match cd with
    | none => setLength buffer len k
    | some data =>
        if k < 3 then (Memory.digits 3 data.provid).getD k 0
        else setLength buffer len k

/-- The bytes are taken for a message of protocol 525: they are read four
bytes later, and `count` of them are there. -/
def LooksLike525 (shown : Memory) (count : Nat) : Prop :=
  ecmLength shown 5 + 7 ≤ count ∧ Command (shown 4)

/-- The bytes pass the test for protocol 524.  The second comparison looks at
the second byte, where the first one looks at the command. -/
def LooksLike524 (shown : Memory) (count : Nat) : Prop :=
  ecmLength shown 1 + 3 ≤ count ∧
    ((shown 0).toNat / 16 = 0xE ∨ (shown 1).toNat / 16 = 0x8)

variable {env : Env} {euroDes : List UInt8 → List UInt8} {random : Random}
  {proto : Proto} {commType : CommType} {netMsgId sid len : Nat}
  {cd : Option CustomData} {net buffer : Memory} {bytes : List UInt8}

/-! ## The bytes of a frame -/

theorem desPad_padding (random : Random) (m : Memory) {k : Nat}
    (padding : k < noPadBytes len) :
    desPad random m len (len + k) = random.padBytes k := by
  unfold desPad
  rw [Memory.write_of_lt (by omega), Memory.write_of_lt (by omega),
    Memory.write_inside (by rwa [Memory.length_read]),
    Memory.getD_read _ _ padding, Nat.zero_add]

/-- A message in a head of eight bytes. -/
theorem netBuffer_head8 (netMsgId sid : Nat) (cd : Option CustomData)
    (net buffer : Memory) {k : Nat} (inside : k < len) :
    netBuffer .ncd524 netMsgId sid cd net buffer len (8 + k) =
      behindHead random cd buffer len k := by
  unfold behindHead
  rw [if_neg (Nat.not_le.mpr inside)]
  cases cd with
  | none =>
      have kept := read_netBuffer_kept .ncd524 netMsgId sid none net buffer len
        (Nat.le_refl 8)
      have byte := Memory.apply_of_read kept inside
      rwa [Nat.zero_add] at byte
  | some data =>
      have seven : (fields .ncd524 sid (some data)).length = 7 :=
        length_fields_some .ncd524 sid data
      dsimp only
      by_cases covered : k < 3
      · have provid := read_netBuffer_fields .ncd524 netMsgId sid (some data)
          net buffer len (show 4 + 3 ≤ _ from Nat.le_of_eq seven.symm)
        have digits : ((fields .ncd524 sid (some data)).drop 4).take 3 =
            Memory.digits 3 data.provid := rfl
        rw [if_pos covered, ← digits, ← provid, Memory.getD_read _ _ covered]
      · obtain ⟨j, rfl⟩ := Nat.exists_eq_add_of_le (Nat.le_of_not_lt covered)
        have rest := read_netBuffer_message .ncd524 netMsgId sid (some data)
          net buffer (show 3 + (len - 3) ≤ len by omega)
          (show 4 + (fields .ncd524 sid (some data)).length ≤
            headSize .ncd524 + 3 by
              rw [seven]
              rfl)
        have byte := Memory.apply_of_read rest (show j < len - 3 by omega)
        rw [if_neg covered, ← byte]
        exact congrArg _ (Nat.add_assoc 8 3 j).symm

theorem desPad_head8 (netMsgId sid : Nat) (cd : Option CustomData)
    (net buffer : Memory) {k : Nat} (inside : k < len + noPadBytes (len + 8)) :
    desPad random (netBuffer .ncd524 netMsgId sid cd net buffer len) (len + 8)
        (8 + k) = behindHead random cd buffer len k := by
  by_cases data : k < len
  · rw [desPad_of_lt (by omega)]
    exact netBuffer_head8 netMsgId sid cd net buffer data
  · obtain ⟨j, rfl⟩ := Nat.exists_eq_add_of_le (Nat.le_of_not_lt data)
    have place : 8 + (len + j) = len + 8 + j := by omega
    unfold behindHead
    rw [place, desPad_padding random _ (by omega), if_pos (by omega),
      Nat.add_sub_cancel_left]

/-- Seven bytes behind a head of eight are never the checksum. -/
theorem seven_le_padded (three : 3 ≤ len) :
    9 ≤ len + noPadBytes (len + 8) := by
  unfold noPadBytes
  omega

/-! ## Detection -/

theorem ecmLength_congr {first second : Memory} {off other : Nat}
    (high : first off = second other)
    (low : first (off + 1) = second (other + 1)) :
    ecmLength first off = ecmLength second other := by
  unfold ecmLength
  rw [high, low]

theorem detect_ncd524_iff {m shown : Memory} {count : Nat}
    (same : ∀ k < 7, m (8 + k) = shown k) :
    detect .auto m (count + 8) = some .ncd524 ↔
      LooksLike524 shown count ∧ ¬ LooksLike525 shown count := by
  have l5 : ecmLength m 13 = ecmLength shown 5 :=
    ecmLength_congr (same 5 (by decide)) (same 6 (by decide))
  have l4 : ecmLength m 9 = ecmLength shown 1 :=
    ecmLength_congr (same 1 (by decide)) (same 2 (by decide))
  have m12 : m 12 = shown 4 := same 4 (by decide)
  have m9 : m 9 = shown 1 := same 1 (by decide)
  have m8 : m 8 = shown 0 := same 0 (by decide)
  have long5 : ((ecmLength shown 5 + 3 : Nat) : Int) ≤
      ((count + 8 : Nat) : Int) - 12 ↔ ecmLength shown 5 + 7 ≤ count := by
    omega
  have long4 : ((ecmLength shown 1 + 3 : Nat) : Int) ≤
      ((count + 8 : Nat) : Int) - 8 ↔ ecmLength shown 1 + 3 ≤ count := by
    omega
  unfold detect LooksLike524 LooksLike525 Command
  rw [if_neg (fun known => known rfl), l5, l4, m12, m9, m8]
  simp only [long5, long4]
  split_ifs with new old
  · simp [new]
  · simp [new, old]
  · simp [old]

theorem detect_ncd525 {m : Memory} {size : Nat}
    (long : ecmLength m 13 + 15 ≤ size) (command : Command (m 12)) :
    detect .auto m size = some .ncd525 := by
  unfold detect
  rw [if_neg (fun known => known rfl), if_pos ⟨by omega, command⟩]

/-- A message of protocol 525 behind its head of twelve bytes. -/
theorem netBuffer_head12 (netMsgId sid : Nat) (cd : Option CustomData)
    (net buffer : Memory) {k : Nat} (inside : k < len) :
    netBuffer .ncd525 netMsgId sid cd net buffer len (12 + k) =
      setLength buffer len k := by
  have short : 4 + (fields .ncd525 sid cd).length ≤ headSize .ncd525 := by
    cases cd with
    | none => exact Nat.le_refl 12
    | some data => exact Nat.le_refl 12
  have kept := read_netBuffer_kept .ncd525 netMsgId sid cd net buffer len short
  have byte := Memory.apply_of_read kept inside
  rwa [Nat.zero_add] at byte

theorem detected_ncd525
    (cipher : Memory.BlockCipher 8 euroDes env.euroDes) (received : Memory)
    (command : Command (buffer 0))
    (sent : messageSend euroDes random .ncd525 commType netMsgId sid cd net
      buffer len = some bytes) :
    detected env (bytes.take 2) (bytes.drop 2) received = some .ncd525 := by
  have accepted : (messageSend euroDes random .ncd525 commType netMsgId sid cd
      net buffer len).isSome := by
    rw [sent]
    rfl
  obtain ⟨three, room⟩ := messageSend_isSome.mp accepted
  have size272 : netMsgSize = 272 := rfl
  have head : headSize .ncd525 = 12 := rfl
  obtain ⟨size, d, frame, count, plain⟩ :=
    receiveFrame_desPad cipher received sent
  have byte {k : Nat} (inside : k < len) :
      d (12 + k) = setLength buffer len k := by
    rw [plain _ (by omega) (by omega), desPad_of_lt (by omega)]
    exact netBuffer_head12 _ sid cd net buffer inside
  have length : ecmLength d 13 = ecmLength (setLength buffer len) 1 :=
    ecmLength_congr (byte (show 1 < len by omega))
      (byte (show 2 < len by omega))
  unfold detected
  rw [frame]
  apply detect_ncd525
  · rw [length, ecmLength_setLength buffer (by omega)]
    omega
  · have first : d 12 = buffer 0 := by
      rw [byte (show 0 < len by omega)]
      exact setLength_of_ne buffer len (by decide) (by decide)
    rw [first]
    exact command

theorem detected_ncd524_iff
    (cipher : Memory.BlockCipher 8 euroDes env.euroDes) (received : Memory)
    (sent : messageSend euroDes random .ncd524 commType netMsgId sid cd net
      buffer len = some bytes) :
    detected env (bytes.take 2) (bytes.drop 2) received = some .ncd524 ↔
      LooksLike524 (behindHead random cd buffer len)
          (len + noPadBytes (len + 8) + 1) ∧
        ¬ LooksLike525 (behindHead random cd buffer len)
          (len + noPadBytes (len + 8) + 1) := by
  have accepted : (messageSend euroDes random .ncd524 commType netMsgId sid cd
      net buffer len).isSome := by
    rw [sent]
    rfl
  have three := (messageSend_isSome.mp accepted).1
  have padded := seven_le_padded three
  obtain ⟨size, d, frame, count, plain⟩ :=
    receiveFrame_desPad cipher received sent
  rw [show headSize .ncd524 = 8 from rfl] at count
  have whole : size = len + noPadBytes (len + 8) + 1 + 8 := by omega
  unfold detected
  rw [frame, whole]
  apply detect_ncd524_iff
  intro k seven
  rw [plain _ (by omega) (by omega)]
  exact desPad_head8 _ sid cd net buffer (by omega)

/-- A message of protocol 525 is detected as what it is.  One of protocol 524
is exactly if it passes the test for 524, and what stands four bytes later
does not pass the one for 525. -/
theorem detected_iff (known : proto ≠ .auto)
    (cipher : Memory.BlockCipher 8 euroDes env.euroDes) (received : Memory)
    (command : Command (buffer 0))
    (sent : messageSend euroDes random proto commType netMsgId sid cd net
      buffer len = some bytes) :
    detected env (bytes.take 2) (bytes.drop 2) received = some proto ↔
      (proto = .ncd524 →
        LooksLike524 (behindHead random cd buffer len)
            (len + noPadBytes (len + 8) + 1) ∧
          ¬ LooksLike525 (behindHead random cd buffer len)
            (len + noPadBytes (len + 8) + 1)) := by
  cases proto with
  | auto => exact absurd rfl known
  | ncd525 =>
      exact iff_of_true (detected_ncd525 cipher received command sent)
        fun old => by cases old
  | ncd524 =>
      rw [detected_ncd524_iff cipher received sent]
      exact ⟨fun right _ => right, fun right => right rfl⟩

/-- The login of a client, with a key of zeros. -/
theorem detected_iff_login :
    let buffer := Memory.zero.write 0 [0xe0]
    let bytes := Option.get _ (messageSend_three .ncd525 .client 0 none buffer)
    detected (loginEnv Memory.zero Memory.zero 0) (bytes.take 2)
      (bytes.drop 2) Memory.zero = some .ncd525 :=
  (detected_iff (by decide) (blockCipher_loginKey Memory.zero Memory.zero 0)
    Memory.zero (Or.inl rfl) (Option.some_get _).symm).mpr
    fun old => by cases old

/-- The command of an ECM, with nothing behind it. -/
def ecmCommand : Memory := Memory.zero.write 0 [0x80]

/-- An ECM of protocol 524 is not detected at all if the second byte does not
happen to begin with an eight. -/
theorem ecm_not_detected : ¬ ∀ (env : Env)
    (euroDes : List UInt8 → List UInt8) (random : Random) (proto : Proto)
    (commType : CommType) (netMsgId sid len : Nat) (cd : Option CustomData)
    (net buffer received : Memory) (bytes : List UInt8), proto ≠ .auto →
    Memory.BlockCipher 8 euroDes env.euroDes → Command (buffer 0) →
    messageSend euroDes random proto commType netMsgId sid cd net buffer len =
      some bytes →
    detected env (bytes.take 2) (bytes.drop 2) received = some proto := by
  intro always
  have cipher : Memory.BlockCipher 8
      (loginCipher Memory.zero Memory.zero 0)
      (loginEnv Memory.zero Memory.zero 0).euroDes :=
    blockCipher_loginKey Memory.zero Memory.zero 0
  have sent := (Option.some_get
    (messageSend_three .ncd524 .client 0 none ecmCommand)).symm
  have right := always _ _ _ _ _ _ _ _ _ _ _ Memory.zero _ (by decide) cipher
    (Or.inr rfl) sent
  have test := ((detected_ncd524_iff cipher Memory.zero sent).mp right).1
  exact absurd test.2 (by decide)

end Oscam.Newcamd
