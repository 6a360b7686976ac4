import Oscam.Numerals
import Oscam.Protocol.ClientRequest

/-!
# The ECM message of a radegast client

`radegast_send_ecm` pastes the fields of a request into a template, and
`radegast_process_ecm` of the server takes the message apart again.
-/

namespace Oscam.Radegast

/-! ## The client -/

/-- What `radegast_send_ecm` reads of an `ECM_REQUEST`. -/
structure SendRequest where
  caid : UInt16
  prid : UInt32
  l : Nat
  ecm : Memory

/-- `snprintf` of some text to `size` bytes. -/
def snprintf (m : Memory) (off size : Nat) (txt : List UInt8) : Memory :=
  if size = 0 then m else m.write off (txt.take (size - 1) ++ [0])

namespace SendRequest

variable (er : SendRequest)

/-- A byte of the provider id, on a little-endian host. -/
def pridByte (n : Nat) : Nat := er.prid.toNat / 256 ^ n % 256

/-- `provid_buf`, each time with the room that is left. -/
def providBuf (m : Memory) : Memory :=
  (List.range 4).foldl
    (fun m n => snprintf m (n * 2) (8 - n * 2)
      (hexadecimal 2 (er.pridByte (4 - 1 - n)))) m

def header : List UInt8 :=
  [0x02, 0x01, 0x00, 0x06, 0x08, 0x30, 0x30, 0x30, 0x30, 0x30, 0x30, 0x30,
   0x30, 0x07, 0x04, 0x30, 0x30, 0x30, 0x38, 0x08, 0x01, 0x02]

def caidHigh : UInt8 := UInt8.ofNat (er.caid.toNat / 256)

def caidLow : UInt8 := UInt8.ofNat er.caid.toNat

/-- `ecmbuf` of `radegast_send_ecm`. -/
def ecmbuf (provid m : Memory) : Memory :=
  let m := m.write 0 [1, UInt8.ofNat (er.l + 30 - 2)]
  let m := m.write 2 header
  let m := m.write 7 ((er.providBuf provid).read 0 8)
  let m := m.write 24
    [0x0a, 2, er.caidHigh, er.caidLow, 3, UInt8.ofNat er.l]
  let m := m.write 30 (er.ecm.read 0 er.l)
  m.write 4 [er.caidHigh]

/-- `radegast_send_ecm`: the bytes that are sent, with what was in `provid_buf`
and `ecmbuf` before. -/
def sendEcm (provid m : Memory) : List UInt8 :=
  (er.ecmbuf provid m).read 0 (er.l + 30)

end SendRequest

/-! ## The server -/

/-- Bytes that are there when `process_input` is called. -/
def bytesInput : List UInt8 → Input
  | [] => .closed
  | first :: rest => .data first rest

/-- `radegast_server` when it receives a message, with what was in `mbuf`
before and the request of `get_ecmtask`. -/
def serverEcm (sent : List UInt8) (mbuf : Memory) (er : EcmRequest) : Walk :=
  let request := getRequest (bytesInput (sent.take 2))
    (bytesInput (sent.drop 2)) mbuf
  processEcm (payload request.buffer.memory) (request.buffer.memory 1).toNat er

/-- The server asks for the same ECM as the client. -/
structure Arrives (er : SendRequest) (l : Nat) (received : Walk) : Prop where
  /-- The items end with the message, else `get_cw` is not called. -/
  whole : received.i = l
  caid : received.er.caid = er.caid.toNat
  prid : received.er.prid = er.prid.toNat % 2 ^ 24
  l : received.er.l = er.l
  ecm : received.er.ecm = er.ecm.read 0 er.l

/-- What a message is worth: up to 227 bytes arrive; a longer ECM is not sent
with a wrong length. -/
def Right (er : SendRequest) (sent : List UInt8) (received : Walk) : Prop :=
  (er.l ≤ 227 → Arrives er (sent.length - 2) received) ∧
    (227 < er.l → (sent.getD 1 0).toNat = sent.length - 2)

/-! ## What is sent -/

namespace SendRequest

variable (er : SendRequest) (provid m : Memory)

@[simp] theorem length_sendEcm : (er.sendEcm provid m).length = er.l + 30 :=
  Memory.length_read _ _ _

/-- The last `snprintf` has room for one digit. -/
theorem providBuf_last : er.providBuf provid 7 = 0 := by
  have some : hexadecimal 2 (er.pridByte 0) ≠ [] :=
    padded_ne_nil (by decide)
  have digit : ((hexadecimal 2 (er.pridByte 0)).take 1).length = 1 := by
    have filled := List.length_pos_of_ne_nil some
    rw [List.length_take]
    omega
  have before : er.providBuf provid =
      ((List.range 3).foldl
        (fun m n => snprintf m (n * 2) (8 - n * 2)
          (hexadecimal 2 (er.pridByte (4 - 1 - n)))) provid).write 6
        ((hexadecimal 2 (er.pridByte 0)).take 1 ++ [0]) := rfl
  have place : 7 = 6 + ((hexadecimal 2 (er.pridByte 0)).take 1).length := by
    omega
  rw [before, place, Memory.write_inside (by simp),
    List.getD_append_right _ _ _ _ (Nat.le_refl _), Nat.sub_self]
  rfl

theorem ecmbuf_length_byte :
    er.ecmbuf provid m 1 = UInt8.ofNat (er.l + 28) := rfl

/-- The bytes between the length and the digits. -/
theorem read_front : (er.ecmbuf provid m).read 2 5 =
    [2, 1, er.caidHigh, 6, 8] := rfl

/-- The bytes between the digits and the ECM. -/
theorem read_middle : (er.ecmbuf provid m).read 15 15 =
    [7, 4, 0x30, 0x30, 0x30, 0x38, 8, 1, 2, 10, 2, er.caidHigh, er.caidLow, 3,
      UInt8.ofNat er.l] := rfl

/-- The last digit is missing. -/
theorem ecmbuf_last_digit : er.ecmbuf provid m 14 = 0 := by
  have written : er.ecmbuf provid m 14 =
      ((er.providBuf provid).read 0 8).getD 7 0 := by
    have eight : 7 < ((er.providBuf provid).read 0 8).length := by
      rw [Memory.length_read]
      decide
    have caid : 4 + [er.caidHigh].length ≤ 14 := by
      rw [List.length_singleton]
      decide
    unfold ecmbuf
    rw [Memory.write_of_le caid, Memory.write_of_lt (by decide),
      Memory.write_of_lt (by decide)]
    exact Memory.write_inside eight
  rw [written, Memory.getD_read _ _ (by decide)]
  exact er.providBuf_last provid

theorem read_ecm : (er.ecmbuf provid m).read 30 er.l = er.ecm.read 0 er.l := by
  have written := Memory.read_write
    ((((m.write 0 [1, UInt8.ofNat (er.l + 30 - 2)]).write 2 header).write 7
      ((er.providBuf provid).read 0 8)).write 24
        [0x0a, 2, er.caidHigh, er.caidLow, 3, UInt8.ofNat er.l]) 30
    (er.ecm.read 0 er.l)
  rw [Memory.length_read] at written
  rw [← written]
  apply Memory.read_congr
  intro i low _high
  exact Memory.write_of_le (by
    show 4 + 1 ≤ i
    omega)

end SendRequest

/-! ## What the server makes of it -/

/-- The bytes of a message that comes in two reads. -/
theorem getRequest_sent {sent : List UInt8} (two : 2 ≤ sent.length)
    (length : (sent.getD 1 0).toNat = sent.length - 2) (mbuf : Memory) :
    (getRequest (bytesInput (sent.take 2)) (bytesInput (sent.drop 2))
      mbuf).buffer.memory.read 0 sent.length = sent := by
  match sent, two with
  | first :: second :: rest, _ =>
      have size : second.toNat = rest.length := length
      have body : (bytesInput rest).bytes rest.length = rest := by
        cases rest with
        | nil => rfl
        | cons third rest => exact List.take_length
      have buffer : (getRequest (bytesInput [first, second]) (bytesInput rest)
          mbuf).buffer =
            ((Buffer.fresh mbuf).write 0 [first, second]).write 2 rest := by
        show Buffer.write _ 2 ((bytesInput rest).bytes second.toNat) = _
        rw [size, body]
        rfl
      have whole : (((Buffer.fresh mbuf).write 0 [first, second]).write 2
          rest).memory = mbuf.write 0 (first :: second :: rest) := by
        cases rest with
        | nil => rfl
        | cons third rest =>
            exact Memory.write_write mbuf 0 [first, second] (third :: rest)
      show Memory.read (Request.buffer _).memory 0 _ = _
      rw [List.take_succ_cons, List.take_succ_cons, List.take_zero,
        List.drop_succ_cons, List.drop_succ_cons, List.drop_zero, buffer, whole]
      exact Memory.read_write mbuf 0 _

/-- A text of six digits with a byte missing in the end is no number. -/
theorem csAtoi_missing {asc : List UInt8} (missing : asc.getD 5 0 = 0) :
    Serial.csAtoi 3 asc = 0 := by
  have noDigit : Serial.gethexval ((asc.drop 4).getD 1 0) = none := by
    rw [List.getD_eq_getElem?_getD, List.getElem?_drop,
      ← List.getD_eq_getElem?_getD, missing]
    rfl
  have noByte : Serial.hexByte ((asc.drop 4).getD 0 0)
      ((asc.drop 4).getD 1 0) = none := by
    unfold Serial.hexByte
    rw [noDigit]
    cases Serial.gethexval ((asc.drop 4).getD 0 0) <;> rfl
  have last : Serial.csAtob 1 (asc.drop 4) = none := by
    unfold Serial.csAtob
    rw [noByte]
  have middle : Serial.csAtob 2 (asc.drop 2) = none := by
    unfold Serial.csAtob
    rw [List.drop_drop, last]
    cases Serial.hexByte ((asc.drop 2).getD 0 0) ((asc.drop 2).getD 1 0) <;> rfl
  have all : Serial.csAtob 3 asc = none := by
    unfold Serial.csAtob
    rw [middle]
    cases Serial.hexByte (asc.getD 0 0) (asc.getD 1 0) <;> rfl
  unfold Serial.csAtoi
  rw [all]

theorem walk_next {m : Memory} {l : Nat} {w : Walk} (fuel : Nat)
    (inside : w.i < l) : walk m l (fuel + 1) w = walk m l fuel (w.next m) :=
  if_pos inside

/-- From the item at `i` on the items end with the message, and make one
request of another. -/
def Reads (m : Memory) (l fuel i : Nat) (er er' : EcmRequest) : Prop :=
  ∀ copies, (walk m l fuel { er := er, copies := copies, i := i }).i = l ∧
    (walk m l fuel { er := er, copies := copies, i := i }).er = er'

theorem reads_end (m : Memory) (l fuel : Nat) (er : EcmRequest) :
    Reads m l fuel l er er := by
  intro copies
  have stays : walk m l fuel { er := er, copies := copies, i := l } =
      { er := er, copies := copies, i := l } := by
    cases fuel with
    | zero => rfl
    | succ fuel => exact if_neg (Nat.lt_irrefl l)
  rw [stays]
  exact ⟨rfl, rfl⟩

theorem reads_item {m : Memory} {l fuel i size : Nat} {er er' : EcmRequest}
    (length : (m (i + 1)).toNat = size) (inside : i < l)
    (rest : Reads m l fuel (i + (size + 2)) (readItem m i er) er') :
    Reads m l (fuel + 1) i er er' := by
  intro copies
  have turn : walk m l (fuel + 1) { er := er, copies := copies, i := i } =
      walk m l fuel
        (Walk.next m { er := er, copies := copies, i := i }) :=
    walk_next fuel inside
  rw [turn]
  subst length
  exact rest _

/-- The items that `radegast_send_ecm` puts into a message, with a digit of
the provider id missing. -/
structure Template (er : SendRequest) (m : Memory) : Prop where
  front : m.read 0 5 = [2, 1, er.caidHigh, 6, 8]
  digit : m 12 = 0
  middle : m.read 13 15 =
    [7, 4, 0x30, 0x30, 0x30, 0x38, 8, 1, 2, 10, 2, er.caidHigh, er.caidLow, 3,
      UInt8.ofNat er.l]
  ecm : m.read 28 er.l = er.ecm.read 0 er.l

/-- Such a message, item by item. -/
theorem processEcm_template {er : SendRequest} {m : Memory}
    (template : Template er m) (short : er.l < 256) (task : EcmRequest) :
    (processEcm m (er.l + 28) task).i = er.l + 28 ∧
      (processEcm m (er.l + 28) task).er =
        { task with
          caid := er.caid.toNat
          prid := 0
          l := er.l
          ecm := er.ecm.read 0 er.l } := by
  obtain ⟨front, digit, middle, ecm⟩ := template
  have byte (i : Nat) {n off : Nat} {bytes : List UInt8}
      (held : m.read off n = bytes) (inside : i < n) :
      m (off + i) = bytes.getD i 0 := by
    rw [← held, Memory.getD_read m off inside]
  have b0 : m 0 = 2 := byte 0 front (by decide)
  have b1 : m 1 = 1 := byte 1 front (by decide)
  have b2 : m 2 = er.caidHigh := byte 2 front (by decide)
  have b3 : m 3 = 6 := byte 3 front (by decide)
  have b4 : m 4 = 8 := byte 4 front (by decide)
  have b13 : m 13 = 7 := byte 0 middle (by decide)
  have b14 : m 14 = 4 := byte 1 middle (by decide)
  have b19 : m 19 = 8 := byte 6 middle (by decide)
  have b20 : m 20 = 1 := byte 7 middle (by decide)
  have b22 : m 22 = 10 := byte 9 middle (by decide)
  have b23 : m 23 = 2 := byte 10 middle (by decide)
  have b24 : m 24 = er.caidHigh := byte 11 middle (by decide)
  have b25 : m 25 = er.caidLow := byte 12 middle (by decide)
  have b26 : m 26 = 3 := byte 13 middle (by decide)
  have b27 : m 27 = UInt8.ofNat er.l := byte 14 middle (by decide)
  have prid : Serial.csAtoi 3 (m.read 7 6) = 0 := by
    apply csAtoi_missing
    rw [Memory.getD_read m 7 (by decide)]
    exact digit
  have l : (m 27).toNat = er.l := by
    rw [b27, UInt8.toNat_ofNat']
    omega
  have caid : m.number 24 2 = er.caid.toNat := by
    have two : m.number 24 2 = (m 24).toNat * 256 + (m 25).toNat := by
      show (0 * 256 + (m 24).toNat) * 256 + (m 25).toNat = _
      omega
    have below := er.caid.toNat_lt
    rw [two, b24, b25, SendRequest.caidHigh, SendRequest.caidLow,
      UInt8.toNat_ofNat', UInt8.toNat_ofNat']
    omega
  have first : (m (0 + 1)).toNat = 1 := congrArg UInt8.toNat b1
  have second : (m (3 + 1)).toNat = 8 := congrArg UInt8.toNat b4
  have third : (m (13 + 1)).toNat = 4 := congrArg UInt8.toNat b14
  have fourth : (m (19 + 1)).toNat = 1 := congrArg UInt8.toNat b20
  have fifth : (m (22 + 1)).toNat = 2 := congrArg UInt8.toNat b23
  have last : 26 + (er.l + 2) = er.l + 28 := by omega
  have all : Reads m (er.l + 28) (er.l + 28) 0 task
      { task with
        caid := er.caid.toNat
        prid := 0
        l := er.l
        ecm := er.ecm.read 0 er.l } := by
    refine reads_item first (by omega) ?_
    refine reads_item second (by omega) ?_
    refine reads_item third (by omega) ?_
    refine reads_item fourth (by omega) ?_
    refine reads_item fifth (by omega) ?_
    refine reads_item l (by omega) ?_
    rw [last]
    have er' : readItem m 26 (readItem m 22 (readItem m 19 (readItem m 13
        (readItem m 3 (readItem m 0 task))))) =
          { task with
            caid := er.caid.toNat
            prid := 0
            l := er.l
            ecm := er.ecm.read 0 er.l } := by
      simp [readItem, itemLength, b0, b3, b4, b13, b19, b22, b26, l, prid, caid,
        ecm]
    exact er' ▸ reads_end m (er.l + 28) _ _
  exact all []

/-- What is sent is such a message. -/
theorem template_sendEcm (er : SendRequest) (provid ecmbuf : Memory)
    {m : Memory}
    (held : m.read 0 (er.l + 30) = er.sendEcm provid ecmbuf) :
    Template er (payload m) := by
  have byte (i : Nat) (inside : i < er.l + 28) :
      payload m i = er.ecmbuf provid ecmbuf (2 + i) := by
    have sent := Memory.apply_of_read held (show 2 + i < er.l + 30 by omega)
    rwa [Nat.zero_add] at sent
  have block (off n : Nat) (inside : off + n ≤ er.l + 28) :
      (payload m).read off n =
        (er.ecmbuf provid ecmbuf).read (2 + off) n := by
    apply Memory.read_of_apply
    intro i below
    rw [byte _ (by omega), Nat.add_assoc]
  exact
    { front := (block 0 5 (by omega)).trans (er.read_front provid ecmbuf)
      digit := (byte 12 (by omega)).trans (er.ecmbuf_last_digit provid ecmbuf)
      middle := (block 13 15 (by omega)).trans (er.read_middle provid ecmbuf)
      ecm := (block 28 er.l (by omega)).trans (er.read_ecm provid ecmbuf) }

/-- The length byte of a message is right up to 227 bytes, and wrong for every
longer one. -/
theorem length_byte_iff (er : SendRequest) (provid ecmbuf : Memory) :
    ((er.sendEcm provid ecmbuf).getD 1 0).toNat =
        (er.sendEcm provid ecmbuf).length - 2 ↔ er.l ≤ 227 := by
  have byte : (er.sendEcm provid ecmbuf).getD 1 0 = UInt8.ofNat (er.l + 28) := by
    unfold SendRequest.sendEcm
    rw [Memory.getD_read _ _ (by omega)]
    exact er.ecmbuf_length_byte provid ecmbuf
  rw [byte, UInt8.toNat_ofNat', SendRequest.length_sendEcm]
  omega

/-- The request the server makes of a message that is short enough. -/
theorem serverEcm_sendEcm {er : SendRequest} (short : er.l ≤ 227)
    (provid ecmbuf mbuf : Memory) (task : EcmRequest) :
    let received := serverEcm (er.sendEcm provid ecmbuf) mbuf task
    received.i = er.l + 28 ∧ received.er =
      { task with
        caid := er.caid.toNat
        prid := 0
        l := er.l
        ecm := er.ecm.read 0 er.l } := by
  have length := (length_byte_iff er provid ecmbuf).mpr short
  have size := er.length_sendEcm provid ecmbuf
  have held := getRequest_sent (by omega) length mbuf
  have byte := congrArg (fun bytes => (bytes.getD 1 0).toNat) held
  rw [Memory.getD_read _ _ (by omega), Nat.zero_add, length] at byte
  rw [size] at held byte
  have received : serverEcm (er.sendEcm provid ecmbuf) mbuf task =
      processEcm (payload _) (er.l + 28) task :=
    congrArg (processEcm (payload _) · task) byte
  have template := template_sendEcm er provid ecmbuf held
  rw [received]
  exact processEcm_template template (by omega) task

/-- A request arrives exactly if it is short enough and has no provider. -/
theorem packet_right_iff (er : SendRequest) (provid ecmbuf mbuf : Memory)
    (task : EcmRequest) :
    Right er (er.sendEcm provid ecmbuf)
        (serverEcm (er.sendEcm provid ecmbuf) mbuf task) ↔
      er.l ≤ 227 ∧ er.prid.toNat % 2 ^ 24 = 0 := by
  have byte := length_byte_iff er provid ecmbuf
  have size := er.length_sendEcm provid ecmbuf
  constructor
  · rintro ⟨arrives, long⟩
    have short : er.l ≤ 227 := by
      by_contra above
      exact above (byte.mp (long (by omega)))
    obtain ⟨-, request⟩ :=
      serverEcm_sendEcm short provid ecmbuf mbuf task
    have prid := (arrives short).prid
    rw [request] at prid
    exact ⟨short, prid.symm⟩
  · rintro ⟨short, none⟩
    refine ⟨fun _ => ?_, fun above => absurd above (by omega)⟩
    obtain ⟨whole, request⟩ :=
      serverEcm_sendEcm short provid ecmbuf mbuf task
    exact
      { whole := by
          rw [whole, size]
          omega
        caid := by rw [request]
        prid := by
          rw [request]
          exact none.symm
        l := by rw [request]
        ecm := by rw [request] }

/-- A request of one byte for a provider of a Viaccess card. -/
def viaccessRequest : SendRequest :=
  { caid := 0x0500, prid := 0x020810, l := 1, ecm := Memory.zero }

/-- The provider of a short request does not arrive. -/
theorem not_right_viaccess :
    ¬ ∀ (er : SendRequest) (provid ecmbuf mbuf : Memory) (task : EcmRequest),
      Right er (er.sendEcm provid ecmbuf)
        (serverEcm (er.sendEcm provid ecmbuf) mbuf task) := by
  intro right
  have arrives := (right viaccessRequest Memory.zero Memory.zero Memory.zero
    EcmRequest.zero).1 (by decide)
  obtain ⟨-, request⟩ := serverEcm_sendEcm
    (show viaccessRequest.l ≤ 227 by decide) Memory.zero Memory.zero
    Memory.zero EcmRequest.zero
  have prid := arrives.prid
  rw [request] at prid
  exact absurd prid (by decide)

end Oscam.Radegast
