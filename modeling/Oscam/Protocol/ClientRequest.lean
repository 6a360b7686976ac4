import Mathlib.Logic.Relation
import Oscam.Protocol.SerialEcm

/-!
# Requests over the serial interface, camd33 and radegast

The `get_request` functions of camd33 and radegast put a request together from
two reads of the socket, and the position of its bytes is not always the one
that the length says.  The last part takes the three servers together.
-/

namespace Oscam

/-- What `process_input` comes back with: nothing within its timeout (-9), the
end of the connection (0), an error (-1), or bytes. -/
inductive Input where
  | idle
  | closed
  | failed
  | data (first : UInt8) (rest : List UInt8)
  deriving DecidableEq, Repr

/-- The bytes a read of up to `l` bytes takes. -/
def Input.bytes (l : Nat) : Input → List UInt8
  | data first rest => (first :: rest).take l
  | _ => []

theorem Input.length_bytes_le (l : Nat) (input : Input) :
    (input.bytes l).length ≤ l := by
  cases input with
  | data first rest => exact List.length_take_le l _
  | idle => exact Nat.zero_le l
  | closed => exact Nat.zero_le l
  | failed => exact Nat.zero_le l

/-- What `get_request` returns, none as long as it waits, and where the bytes of
the two reads are: from the beginning, and from `second.1` on. -/
structure Request where
  rc : Option Nat
  buffer : Buffer
  first : Nat
  second : Nat × Nat

def Request.pieces (request : Request) : List (Nat × Nat) :=
  [(0, request.first), request.second]

/-! ## camd33 -/

namespace Camd33

/-- A key for AES. -/
structure Cipher where
  encrypt : Vector UInt8 16 → Vector UInt8 16
  decrypt : Vector UInt8 16 → Vector UInt8 16

/-- The key of a crypted connection, `c33_passive`, and the user of the
account. -/
structure Env where
  crypted : Option Cipher
  passive : Bool
  usr : Option (List UInt8)

/-- A message that came before the login; its length is a byte. -/
structure Camdbug where
  bytes : List UInt8
  short : bytes.length < 256

/-- `REQ_SIZE`. -/
abbrev reqSize : Nat := 4

/-- The buffer of `camd33_server`. -/
abbrev mbufSize : Nat := 1024

/-- `camd33_recv`. -/
def camd33Recv (env : Env) (buf : Buffer) (off : Nat) (bytes : List UInt8) :
    Buffer :=
  match env.crypted with
  | some key =>
      (buf.write off bytes).mapBlocks key.decrypt off ((bytes.length + 15) / 16)
  | none => buf.write off bytes

/-- A login request, which is `camd33_send` of one byte from the same buffer. -/
def keepAlive (env : Env) (buf : Buffer) : Buffer :=
  let buf := buf.write 0 (List.replicate 16 0)
  match env.crypted with
  | some key => buf.mapBlocks key.encrypt 0 1
  | none => buf

/-- The client only says that it is there. -/
def StillAlive (env : Env) (m : Memory) : Prop :=
  ∃ usr ∈ env.usr, m.read 1 usr.length = usr

instance (env : Env) (m : Memory) : Decidable (StillAlive env m) := by
  unfold StillAlive
  cases env.usr with
  | none => exact isFalse (by simp)
  | some usr =>
      exact decidable_of_iff (m.read 1 usr.length = usr) (by simp)

/-- How long the message is to be. -/
def wanted (m : Memory) (n : Nat) : Nat :=
  if m 0 = 2 ∨ m 0 = 3 then (boundary 4 ((m 9).toNat + 10)).toNat else n

/-- The second read, behind the first `rc` bytes. -/
def readMore (env : Env) (n : Nat) (buf : Buffer) (rc : Nat)
    (input : Input) : Request :=
  let more := input.bytes (wanted buf.memory n - 16)
  { rc := some (rc + more.length), buffer := camd33Recv env buf 16 more
    first := rc, second := (16, more.length) }

/-- No message. -/
def noMessage (buf : Buffer) (rc : Option Nat) : Request :=
  { rc := rc, buffer := buf, first := 0, second := (16, 0) }

/-- The loop of `get_request`: `asked` says that a login request was sent. -/
def requestLoop (env : Env) (n : Nat) : Bool → List Input → Buffer → Request
  | _, [], buf => noMessage buf none
  | _, .failed :: _, buf => noMessage buf (some 0)
  | asked, .idle :: inputs, buf =>
      if asked ∨ env.passive then noMessage buf (some 0)
      else requestLoop env n true inputs (keepAlive env buf)
  | asked, .closed :: inputs, buf =>
      if asked ∨ env.passive then noMessage buf (some 0)
      else requestLoop env n true inputs (keepAlive env buf)
  | _, .data first rest :: inputs, buf =>
      let bytes := (first :: rest).take 16
      let buf := camd33Recv env buf 0 bytes
      if StillAlive env buf.memory then requestLoop env n false inputs buf
      else readMore env n buf bytes.length (inputs.headD .idle)

/-- `get_request`. -/
def getRequest (env : Env) (camdbug : Camdbug) (inputs : List Input)
    (m : Memory) : Request :=
  if camdbug.bytes.isEmpty then
    requestLoop env mbufSize false inputs (Buffer.fresh m)
  else
    { rc := some camdbug.bytes.length
      buffer := (Buffer.fresh m).write 0 camdbug.bytes
      first := camdbug.bytes.length, second := (16, 0) }

/-- `camd33_process_ecm` up to `get_cw`: the request, the pin that is saved for
it, and the copy. -/
def processEcm (m : Memory) (l : Nat) (er : EcmRequest) :
    EcmRequest × (Nat × List UInt8) × Copy :=
  let length := toInt16 (l - 7)
  ({ er with
      l := length, caid := m.number 1 2, ecm := m.read 7 length.toNat },
    (er.cpti * reqSize, m.read 3 4),
    { start := 7, size := length, width := 1 })

/-! ### What a request is like -/

variable {env : Env} {buf : Buffer} {n off : Nat} {bytes : List UInt8}

theorem written_camd33Recv_le (before : buf.written ≤ mbufSize)
    (fits : off + 16 * ((bytes.length + 15) / 16) ≤ mbufSize) :
    (camd33Recv env buf off bytes).written ≤ mbufSize := by
  have plain : (buf.write off bytes).written ≤ mbufSize :=
    Buffer.written_write_le before (by omega)
  unfold camd33Recv
  split
  · exact Buffer.written_mapBlocks_le _ plain (Or.inr fits)
  · exact plain

theorem memory_camd33Recv_of_lt {i : Nat} (front : i < off) :
    (camd33Recv env buf off bytes).memory i = buf.memory i := by
  unfold camd33Recv
  split
  · rw [Buffer.memory_mapBlocks_of_lt _ front, Buffer.memory_write_of_lt front]
  · exact Buffer.memory_write_of_lt front

theorem written_keepAlive_le (before : buf.written ≤ mbufSize) :
    (keepAlive env buf).written ≤ mbufSize := by
  have plain : (buf.write 0 (List.replicate 16 0)).written ≤ mbufSize :=
    Buffer.written_write_le before (by decide)
  unfold keepAlive
  dsimp only
  split
  · exact Buffer.written_mapBlocks_le _ plain (Or.inr (by decide))
  · exact plain

theorem wanted_le (m : Memory) : wanted m mbufSize ≤ 1024 ∧
    (m 0 = 2 → wanted m mbufSize ≤ 272) := by
  have byte := (m 9).toNat_lt
  have most : (boundary 4 ((m 9).toNat + 10)).toNat ≤ 272 := by
    unfold boundary
    omega
  unfold wanted
  split
  · exact ⟨by omega, fun _ => most⟩
  · rename_i other
    refine ⟨le_refl _, fun ecm => ?_⟩
    exact absurd (Or.inl ecm) other

/-- A request stays in the buffer, its length is that of its pieces, and an ECM
is not longer than its length field allows. -/
structure WellRead (request : Request) : Prop where
  written : request.buffer.written ≤ mbufSize
  rc : ∀ l, request.rc = some l → 0 < l →
    l = request.first + request.second.2
  start : request.second.1 = 16
  first : request.first ≤ 16 ∨ (request.first < 256 ∧ request.second.2 = 0)
  second : request.second.2 ≤ 1008
  ecm : request.buffer.memory 0 = 2 → request.second.2 ≤ 256

theorem noMessage_wellRead (before : buf.written ≤ mbufSize) {rc : Option Nat}
    (none : ∀ l, rc = some l → l = 0) : WellRead (noMessage buf rc) := by
  refine ⟨before, ?_, rfl, Or.inl (Nat.zero_le 16), Nat.zero_le _,
    fun _ => Nat.zero_le _⟩
  intro l same positive
  have zero := none l same
  omega

theorem readMore_wellRead (before : buf.written ≤ mbufSize) {rc : Nat}
    (first : rc ≤ 16) (input : Input) :
    WellRead (readMore env mbufSize buf rc input) := by
  have length := input.length_bytes_le (wanted buf.memory mbufSize - 16)
  obtain ⟨most, ecm⟩ := wanted_le buf.memory
  constructor
  · apply written_camd33Recv_le before
    dsimp only [mbufSize] at *
    omega
  · intro l same _
    exact (Option.some.inj same).symm
  · rfl
  · exact Or.inl first
  · show (input.bytes _).length ≤ 1008
    omega
  · intro two
    have command : buf.memory 0 = 2 := by
      rw [← two]
      exact (memory_camd33Recv_of_lt (by decide)).symm
    have limit := ecm command
    show (input.bytes _).length ≤ 256
    omega

theorem requestLoop_wellRead (asked : Bool) (inputs : List Input)
    (before : buf.written ≤ mbufSize) :
    WellRead (requestLoop env mbufSize asked inputs buf) := by
  induction inputs generalizing asked buf with
  | nil => exact noMessage_wellRead before (by simp)
  | cons input inputs induction =>
      cases input with
      | failed => exact noMessage_wellRead before (by simp)
      | idle =>
          unfold requestLoop
          split
          · exact noMessage_wellRead before (by simp)
          · exact induction true (written_keepAlive_le before)
      | closed =>
          unfold requestLoop
          split
          · exact noMessage_wellRead before (by simp)
          · exact induction true (written_keepAlive_le before)
      | data first rest =>
          have length : ((first :: rest).take 16).length ≤ 16 :=
            List.length_take_le 16 _
          have received : (camd33Recv env buf 0
              ((first :: rest).take 16)).written ≤ mbufSize := by
            apply written_camd33Recv_le before
            dsimp only [mbufSize]
            omega
          unfold requestLoop
          dsimp only
          split
          · exact induction false received
          · exact readMore_wellRead received length _

theorem getRequest_wellRead (camdbug : Camdbug) (inputs : List Input)
    (m : Memory) : WellRead (getRequest env camdbug inputs m) := by
  have short := camdbug.short
  unfold getRequest
  split
  · exact requestLoop_wellRead false inputs (Nat.zero_le _)
  · constructor
    · apply Buffer.written_write_le (Nat.zero_le _)
      dsimp only [mbufSize]
      omega
    · intro l same _
      exact (Option.some.inj same).symm
    · rfl
    · exact Or.inr ⟨short, rfl⟩
    · exact Nat.zero_le _
    · exact fun _ => Nat.zero_le _

/-- The message has its head, and no gap between its two pieces, or it is only
the head. -/
def Whole (request : Request) : Prop :=
  7 ≤ request.first + request.second.2 ∧
    (request.second.2 = 0 ∨ request.first = 16 ∨
      request.first + request.second.2 = 7)

/-- The copy of an ECM is in range if and only if the message is whole. -/
theorem processEcm_within_iff {request : Request} (read : WellRead request)
    {l : Nat} (returned : request.rc = some l) (positive : 0 < l)
    (ecm : request.buffer.memory 0 = 2) (er : EcmRequest) :
    (processEcm request.buffer.memory l er).2.2.Within request.pieces ↔
      Whole request := by
  have length := read.rc l returned positive
  have most := read.ecm ecm
  have first := read.first
  have same : toInt16 (l - 7) = l - 7 := by
    apply toInt16_of_small
    · omega
    · omega
  simp only [Copy.Within, processEcm, same, ecmSize, Request.pieces,
    List.mem_cons, List.not_mem_nil, or_false, exists_eq_or_imp, exists_eq_left,
    one_mul, read.start, Whole]
  constructor
  · rintro ⟨fits, inside⟩
    refine ⟨by omega, ?_⟩
    by_contra gap
    -- the first byte behind the first piece, or the first one copied
    have missing := inside (max 7 request.first) (le_max_left _ _) (by omega)
    omega
  · rintro ⟨head, whole⟩
    refine ⟨by omega, ?_⟩
    intro i low high
    omega

end Camd33

/-! ## radegast -/

namespace Radegast

/-- The buffer of `radegast_server`. -/
abbrev mbufSize : Nat := 1024

/-- `get_request`: two bytes, and as many as the second of them says. -/
def getRequest (header body : Input) (m : Memory) : Request :=
  let two := header.bytes 2
  let buf := (Buffer.fresh m).write 0 two
  if two.length ≠ 2 then
    { rc := some 0, buffer := buf, first := two.length, second := (2, 0) }
  else
    let l := (buf.memory 1).toNat
    let rest := body.bytes l
    let whole := body ≠ .idle ∧ body ≠ .failed ∧ rest.length = l
    { rc := some (if whole then l + 2 else 0), buffer := buf.write 2 rest
      first := 2, second := (2, rest.length) }

/-- The loop of `radegast_process_ecm`: the request, what is copied to it, and
the position. -/
structure Walk where
  er : EcmRequest
  copies : List Copy
  i : Nat

/-- The length of the item at `i`. -/
def itemLength (m : Memory) (i : Nat) : Nat := (m (i + 1)).toNat

/-- What an item says about the request. -/
def readItem (m : Memory) (i : Nat) (er : EcmRequest) : EcmRequest :=
  let sl := itemLength m i
  match m i with
  | 2 => { er with caid := (m (i + 2)).toNat * 256 }
  | 10 => { er with caid := m.number (i + 2) 2 }
  | 3 => { er with l := sl, ecm := m.read (i + 2) sl }
  | 6 =>
      let n := if sl > 6 then 3 else sl / 2
      { er with
        prid := Serial.csAtoi n (m.read (i + 2 + sl - 2 * n) (2 * n)) }
  | _ => er

/-- The copy of the data of an item. -/
def itemCopy (m : Memory) (i : Nat) : Copy :=
  { start := i + 2, size := itemLength m i, width := 1 }

/-- A turn of the loop. -/
def Walk.next (m : Memory) (w : Walk) : Walk :=
  { er := readItem m w.i w.er
    copies :=
      if m w.i = 3 then w.copies ++ [itemCopy m w.i] else w.copies
    i := w.i + (itemLength m w.i + 2) }

def walk (m : Memory) (l : Nat) : Nat → Walk → Walk
  | 0, w => w
  | fuel + 1, w => if w.i < l then walk m l fuel (w.next m) else w

/-- `radegast_process_ecm` on a message of `l` bytes; without a request only a
warning if the items do not end where the message does. -/
def processEcm (m : Memory) (l : Nat) (er : EcmRequest) : Walk :=
  walk m l l { er := er, copies := [], i := 0 }

/-- The bytes behind the header. -/
def payload (m : Memory) : Memory := fun i => m (2 + i)

/-! ### The items -/

variable {m : Memory} {l : Nat}

/-- The loop comes from the item at `i` to the one at `j`. -/
def Follows (m : Memory) (l : Nat) : Nat → Nat → Prop :=
  Relation.ReflTransGen fun i j => j = i + (itemLength m i + 2) ∧ j < l

/-- The positions of the items of the message. -/
def Item (m : Memory) (l i : Nat) : Prop := 0 < l ∧ Follows m l 0 i

/-- An item ends in the message, or has nothing in it. -/
def ItemFits (m : Memory) (l i : Nat) : Prop :=
  itemLength m i = 0 ∨ i + 2 + itemLength m i ≤ l

/-- No item with ECM data goes past the end of the message. -/
def EcmItemsFit (m : Memory) (l : Nat) : Prop :=
  ∀ i, Item m l i → m i = 3 → ItemFits m l i

/-- The fuel is enough: the loop only ends behind the message. -/
theorem le_walk (fuel : Nat) (w : Walk) (enough : l ≤ w.i + fuel) :
    l ≤ (walk m l fuel w).i := by
  induction fuel generalizing w with
  | zero => exact enough
  | succ fuel induction =>
      unfold walk
      split
      · apply induction
        show l ≤ w.i + (itemLength m w.i + 2) + fuel
        omega
      · omega

theorem itemCopy_within_iff (i : Nat) :
    (itemCopy m i).Within [(0, l)] ↔ ItemFits m l i := by
  have byte : itemLength m i < 256 := (m (i + 1)).toNat_lt
  simp only [itemCopy, Copy.Within, ecmSize, List.mem_singleton,
    exists_eq_left, one_mul, Int.toNat_natCast, ItemFits]
  constructor
  · rintro ⟨-, inside⟩
    by_contra outside
    have last := inside (i + 2 + itemLength m i - 1) (by omega) (by omega)
    omega
  · intro fits
    refine ⟨by omega, ?_⟩
    intro j low high
    omega

theorem copies_next (w : Walk) :
    (w.next m).copies =
      if m w.i = 3 then w.copies ++ [itemCopy m w.i] else w.copies := rfl

theorem next_within_iff (w : Walk) :
    (∀ copy ∈ (w.next m).copies, copy.Within [(0, l)]) ↔
      (∀ copy ∈ w.copies, copy.Within [(0, l)]) ∧
        (m w.i = 3 → ItemFits m l w.i) := by
  rw [copies_next]
  split
  · rename_i ecm
    simp only [List.forall_mem_append, List.forall_mem_singleton,
      itemCopy_within_iff, ecm, forall_const]
  · rename_i other
    simp only [other, false_imp_iff, and_true]

/-- Behind an item comes the next one, if there is one. -/
theorem follows_iff (i j : Nat) :
    Follows m l i j ↔
      i = j ∨ (i + (itemLength m i + 2) < l ∧
        Follows m l (i + (itemLength m i + 2)) j) := by
  rw [Follows, Relation.ReflTransGen.cases_head_iff]
  apply or_congr_right
  constructor
  · rintro ⟨k, ⟨rfl, inside⟩, rest⟩
    exact ⟨inside, rest⟩
  · rintro ⟨inside, rest⟩
    exact ⟨_, ⟨rfl, inside⟩, rest⟩

theorem walk_within_iff (fuel : Nat) (w : Walk) (enough : l ≤ w.i + fuel) :
    (∀ copy ∈ (walk m l fuel w).copies, copy.Within [(0, l)]) ↔
      (∀ copy ∈ w.copies, copy.Within [(0, l)]) ∧
        (w.i < l → ∀ i, Follows m l w.i i → m i = 3 → ItemFits m l i) := by
  induction fuel generalizing w with
  | zero =>
      have behind : ¬ w.i < l := by omega
      simp only [walk, behind, false_imp_iff, and_true]
  | succ fuel induction =>
      unfold walk
      split
      · rename_i inside
        have rest := induction (w.next m) (by
          show l ≤ w.i + (itemLength m w.i + 2) + fuel
          omega)
        rw [rest, next_within_iff, and_assoc]
        apply and_congr_right
        intro _
        constructor
        · rintro ⟨this, others⟩ _ i follows
          rcases (follows_iff w.i i).mp follows with rfl | ⟨next, later⟩
          · exact this
          · exact others next i later
        · intro all
          refine ⟨all inside w.i Relation.ReflTransGen.refl, ?_⟩
          intro next i later
          exact all inside i ((follows_iff w.i i).mpr (Or.inr ⟨next, later⟩))
      · rename_i behind
        simp only [behind, false_imp_iff, and_true]

/-- The copies of the ECM data are in range if and only if the items with ECM
data are. -/
theorem processEcm_within_iff (er : EcmRequest) :
    (∀ copy ∈ (processEcm m l er).copies, copy.Within [(0, l)]) ↔
      EcmItemsFit m l := by
  rw [processEcm, walk_within_iff l _ (Nat.le_add_left l 0)]
  constructor
  · rintro ⟨-, fits⟩ i ⟨some, follows⟩
    exact fits some i follows
  · intro fits
    refine ⟨by simp, ?_⟩
    intro some i follows
    exact fits i ⟨some, follows⟩

/-- Two bytes and at most 255 more. -/
theorem getRequest_written (header body : Input) (m : Memory) :
    (getRequest header body m).buffer.written ≤ 257 := by
  have two := header.length_bytes_le 2
  have head : ((Buffer.fresh m).write 0 (header.bytes 2)).written ≤ 257 :=
    Buffer.written_write_le (Nat.zero_le _) (by omega)
  unfold getRequest
  dsimp only
  split
  · exact head
  · have byte := (((Buffer.fresh m).write 0 (header.bytes 2)).memory 1).toNat_lt
    have rest := body.length_bytes_le
      (((Buffer.fresh m).write 0 (header.bytes 2)).memory 1).toNat
    apply Buffer.written_write_le head
    omega

end Radegast

/-! ## The three servers -/

/-- A request to one of the servers: what the client sends, the state it meets
and the request that `get_ecmtask` gave. -/
inductive ClientRequest where
  | serial (turn : Serial.Turn)
  | camd33 (env : Camd33.Env) (camdbug : Camd33.Camdbug)
      (inputs : List Input) (buffer : Memory) (er : EcmRequest)
  | radegast (header body : Input) (buffer : Memory) (er : EcmRequest)

namespace ClientRequest

/-- Nothing is written behind the buffer, and what is copied to `er->ecm` fits
there and was received. -/
def InBounds : ClientRequest → Prop
  | serial turn => turn.InBounds
  | camd33 env camdbug inputs buffer er =>
      let request := Camd33.getRequest env camdbug inputs buffer
      let m := request.buffer.memory
      request.buffer.written ≤ Camd33.mbufSize ∧
        ∀ l, request.rc = some l → 0 < l → m 0 = 2 →
          (Camd33.processEcm m l er).2.2.Within request.pieces
  | radegast header body buffer er =>
      let request := Radegast.getRequest header body buffer
      let m := request.buffer.memory
      request.buffer.written ≤ Radegast.mbufSize ∧
        ∀ l, request.rc = some l → 0 < l → m 0 = 1 →
          ∀ copy ∈ (Radegast.processEcm (Radegast.payload m)
              (m 1).toNat er).copies, copy.Within [(0, (m 1).toNat)]

/-- The request is shorter than the buffer and its length field small enough;
the message is whole; its items end with it. -/
def Fits : ClientRequest → Prop
  | serial turn => turn.Fits
  | camd33 env camdbug inputs buffer _ =>
      let request := Camd33.getRequest env camdbug inputs buffer
      ∀ l, request.rc = some l → 0 < l → request.buffer.memory 0 = 2 →
        Camd33.Whole request
  | radegast header body buffer _ =>
      let request := Radegast.getRequest header body buffer
      let m := request.buffer.memory
      ∀ l, request.rc = some l → 0 < l → m 0 = 1 →
        Radegast.EcmItemsFit (Radegast.payload m) (m 1).toNat

/-- A request stays inside the buffer and the message if and only if it
fits. -/
theorem inBounds_iff_fits (request : ClientRequest) :
    request.InBounds ↔ request.Fits := by
  cases request with
  | serial turn => exact turn.turn_inBounds_iff
  | camd33 env camdbug inputs buffer er =>
      have read : Camd33.WellRead
          (Camd33.getRequest env camdbug inputs buffer) :=
        Camd33.getRequest_wellRead camdbug inputs buffer
      constructor
      · rintro ⟨-, within⟩ l returned positive ecm
        exact (Camd33.processEcm_within_iff read returned positive ecm er).mp
          (within l returned positive ecm)
      · intro fits
        refine ⟨read.written, ?_⟩
        intro l returned positive ecm
        exact (Camd33.processEcm_within_iff read returned positive ecm er).mpr
          (fits l returned positive ecm)
  | radegast header body buffer er =>
      have written := Radegast.getRequest_written header body buffer
      constructor
      · rintro ⟨-, within⟩ l returned positive ecm
        exact (Radegast.processEcm_within_iff er).mp
          (within l returned positive ecm)
      · intro fits
        refine ⟨written.trans (by decide), ?_⟩
        intro l returned positive ecm
        exact (Radegast.processEcm_within_iff er).mpr
          (fits l returned positive ecm)

/-- A connection without a key, and a client that is not logged in. -/
def plainEnv : Camd33.Env := { crypted := none, passive := false, usr := none }

def noCamdbug : Camd33.Camdbug := { bytes := [], short := by decide }

/-- An ECM of which nothing came but the command and the caid. -/
def headOnly : ClientRequest :=
  camd33 plainEnv noCamdbug [.data 2 [0x17, 0x02]] Memory.zero EcmRequest.zero

/-- An item that announces 255 bytes at the end of a message of two. -/
def itemTooLong : ClientRequest :=
  radegast (.data 1 [2]) (.data 3 [255]) Memory.zero EcmRequest.zero

/-- The length of the ECM is negative, and bytes are copied that were not
received. -/
theorem request_out_of_bounds :
    ¬ headOnly.InBounds ∧ ¬ itemTooLong.InBounds := by
  constructor
  · rintro ⟨-, within⟩
    have fits := (within 3 rfl (by decide) (by decide)).1.1
    exact absurd fits (by decide)
  · rintro ⟨-, within⟩
    have copied := within 4 rfl (by decide) (by decide)
      { start := 2, size := 255, width := 1 } (by decide)
    obtain ⟨piece, member, inside⟩ := copied.2 2 (by decide) (by decide)
    rw [List.mem_singleton] at member
    subst member
    exact absurd inside.2 (by decide)

end ClientRequest

end Oscam
