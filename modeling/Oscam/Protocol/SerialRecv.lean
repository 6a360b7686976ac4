import Mathlib.Data.List.GetD
import Oscam.Globals
import Oscam.Lib.Limited

/-!
# What the serial server receives

`oscam_ser_recv` in server mode.  The line is read byte by byte, and each poll
is answered by a byte or by a pause, after which the read is given up.  The
bytes of a message are those from `xbuf + 1` on, and `l` bounds how many of
them are read.
-/

namespace Oscam.Serial

/-- `P_HSIC` to `P_GBOX`. -/
inductive Protocol where
  | hsic
  | sssp
  | bomba
  | dsr95
  | gs
  | alpha
  | dsr95Old
  | gbox
  deriving DecidableEq, Repr

/-- `P_DSR_AUTO` to `P_DSR_UNKNOWN`. -/
inductive DsrType where
  | auto
  | gnusmas
  | openbox
  | pioneer
  | withsid
  | unknown
  deriving DecidableEq, Repr

/-- What a message of a client is taken for: `IS_ECM` and the like. -/
inductive Job where
  | ecm
  | pmt
  | lgo
  | echo
  | bad
  deriving DecidableEq, Repr

/-- `GBOX_LENS`. -/
structure GboxLens where
  catLen : Nat
  pmtLen : Nat
  ecmLen : Nat
  deriving DecidableEq, Repr

/-- `SSSP_TAB`. -/
structure SsspTab where
  caid : Nat
  pid : Nat
  prid : Nat
  deriving DecidableEq, Repr

/-- `SSSP_MAX_PID`. -/
abbrev ssspMaxPid : Nat := 8

/-- `struct s_serial_client`.  No protocol stands for `P_AUTO`, and for a client
that is not connected. -/
structure SerialClient where
  connected : Option Protocol
  oscamSerProto : Option Protocol
  serialErrors : Nat
  dsr9500type : DsrType
  samsung0a : Nat
  samsungDcw : Nat
  gboxLens : GboxLens
  ssspTab : Vector SsspTab ssspMaxPid
  ssspSrvid : Nat
  ssspNum : Nat
  deriving DecidableEq, Repr

/-- The variable `p`: zero, a protocol, or one of -1 to -4. -/
inductive Progress where
  | start
  | proto (p : Protocol)
  | incomplete
  | unknown
  | silent
  | garbage
  deriving DecidableEq, Repr

def Progress.IsProto : Progress → Prop
  | proto _ => True
  | _ => False

instance (p : Progress) : Decidable p.IsProto := by
  cases p <;> simp only [Progress.IsProto] <;> infer_instance

/-- `oscam_ser_recv` underway: the bytes it has, `n` of them, and what the polls
to come are answered with. -/
structure Receipt where
  buf : List UInt8
  line : List (Option UInt8)
  p : Progress
  job : Job
  r : Int
  serialdata : SerialClient
  deriving DecidableEq, Repr

namespace Receipt

def byte (s : Receipt) (i : Nat) : UInt8 := s.buf.getD i 0

/-- The byte `i` from the end. -/
def last (s : Receipt) (i : Nat) : UInt8 := s.byte (s.buf.length - i)

def stop (p : Progress) (s : Receipt) : Receipt := { s with p := p }

def setDsr (type : DsrType) (s : Receipt) : Receipt :=
  { s with serialdata := { s.serialdata with dsr9500type := type } }

end Receipt

/-- The value of a hexadecimal digit. -/
def gethexval (c : UInt8) : Option Nat :=
  if 48 ≤ c ∧ c ≤ 57 then some (c - 48).toNat
  else if 65 ≤ c ∧ c ≤ 70 then some (c - 55).toNat
  else if 97 ≤ c ∧ c ≤ 102 then some (c - 87).toNat
  else none

/-- A byte from its two digits. -/
def hexByte (hi lo : UInt8) : Option Nat :=
  match gethexval hi, gethexval lo with
  | some hi, some lo => some (16 * hi + lo)
  | _, _ => none

/-! ## Reading from the line -/

/-- `n` more bytes; the loop ends early at a pause. -/
def takeBytes : Nat → Receipt → Bool × Receipt
  | 0, s => (true, s)
  | n + 1, s =>
      match s.line with
      | some b :: line =>
          takeBytes n { s with buf := s.buf ++ [b], line := line }
      | none :: line => (false, { s with line := line })
      | [] => (false, s)

/-- `oscam_ser_selrec`: what would not fit is silently not asked for. -/
def selrec (l n : Nat) (s : Receipt) : Bool × Receipt :=
  let n := if s.buf.length + n > l then l - s.buf.length else n
  if n = 0 then (false, s) else takeBytes n s

/-- A part of `oscam_ser_recv`, with the room it has. -/
abbrev Part : Type := Nat → Receipt → Receipt

/-- `if (oscam_ser_selrec(buf, n, l, &n)) … else …`. -/
def ifSelrec (n : Nat) (received missing : Part) : Part := fun l s =>
  if (selrec l n s).1 then received l (selrec l n s).2
  else missing l (selrec l n s).2

def keep : Part := fun _ s => s

def fail (p : Progress) : Part := fun _ s => s.stop p

/-- As long as `p` is a protocol. -/
def whileProto (part : Part) : Part := fun l s =>
  if s.p.IsProto then part l s else s

/-! ## The four stages -/

/-- Stage 0: known garbage is not a message. -/
def skipGarbage : Part :=
  ifSelrec 2
    (fun _ s =>
      if (s.byte 0 = 0x0A ∧ s.byte 1 = 0x0D) ∨
          (s.byte 0 = 0x0D ∧ s.byte 1 = 0x0A) then s.stop .garbage
      else s)
    (fail .silent)

/-- The protocol by the first three bytes, and the kind of message. -/
def identify (s : Receipt) : Progress × Job :=
  match s.byte 0 with
  | 0x00 =>
      if s.byte 1 = 0x01 ∧ s.byte 2 = 0x00 then (.proto .gs, .lgo)
      else (.unknown, .ecm)
  | 0x01 =>
      if s.byte 1 &&& 0xF0 = 0xB0 then (.proto .gbox, .ecm)
      else (.proto .sssp, .pmt)
  | 0x02 => (.proto .hsic, .ecm)
  | 0x03 =>
      match s.serialdata.oscamSerProto with
      | some .sssp => (.proto .sssp, .ecm)
      | some .gs => (.proto .gs, .ecm)
      | some .dsr95 => (.proto .dsr95, .ecm)
      | none => (.proto (if s.byte 1 < 0x30 then .sssp else .dsr95), .ecm)
      | _ => (.unknown, .ecm)
  | 0x04 => (.proto .dsr95, .echo)
  | 0x7E => (.proto .alpha, if s.byte 1 ≠ 0x80 then .bad else .ecm)
  | 0x80 => (.proto .bomba, .ecm)
  | 0x81 => (.proto .bomba, .ecm)
  | _ => (.unknown, .ecm)

/-- Another protocol than the configured one is not taken. -/
def expected (s : Receipt) (p : Progress) : Progress :=
  match s.serialdata.oscamSerProto with
  | none => p
  | some q => if p = .proto q then p else .unknown

/-- The third byte is there. -/
def identified (s : Receipt) : Receipt :=
  { (if s.byte 0 = 0x04 then s.setDsr .gnusmas else s) with
    p := expected s (identify s).1, job := (identify s).2 }

/-- Stage 1: identify the protocol. -/
def identifyProtocol : Part := fun l s =>
  ifSelrec 1 (fun _ s => identified s) keep l (s.stop .silent)

/-- The length of what an echo has to repeat. -/
def echoLength (s : Receipt) : Receipt :=
  { s with
    r := 17 * s.serialdata.samsungDcw - 3 + s.serialdata.samsung0a
    serialdata := { s.serialdata with samsungDcw := 0, samsung0a := 0 } }

/-- The length in the digits of a DSR9500 request. -/
def dsrLength (s : Receipt) : Receipt :=
  match hexByte (s.byte 17) (s.byte 18) with
  | none => s.stop .unknown
  | some b =>
      { s with
        r := 2 * b + if s.serialdata.dsr9500type = .withsid then 4 else 0 }

/-- Twelve bits over the bytes `i` and `i + 1`. -/
def Receipt.section12 (s : Receipt) (i : Nat) : Nat :=
  (s.byte i).toNat % 16 * 256 + (s.byte (i + 1)).toNat

/-- Stage 2: how many bytes are still to come. -/
def lengthOf : Protocol → Part
  | .sssp => fun _ s =>
      { s with r := (s.byte 1).toNat * 256 + (s.byte 2).toNat }
  | .bomba => fun _ s => { s with r := (s.byte 2).toNat }
  | .hsic =>
      ifSelrec 12 (fun _ s => { s with r := (s.byte 14).toNat })
        (fail .incomplete)
  | .dsr95 => fun l s =>
      if s.job = .echo then echoLength s
      else ifSelrec 16 (fun _ s => dsrLength s) (fail .incomplete) l s
  | .gs => fun l s =>
      if s.job = .lgo then { s with r := 5 }
      else
        ifSelrec 1
          (fun _ s =>
            { s with r := (s.byte 3).toNat * 256 + (s.byte 2).toNat })
          (fail .incomplete) l s
  | .alpha => fun _ s => { s with r := -0x7F }
  | .gbox => fun _ s =>
      { s with
        r := s.section12 1
        serialdata :=
          { s.serialdata with
            gboxLens :=
              { s.serialdata.gboxLens with catLen := s.section12 1 } } }
  | .dsr95Old => fun _ s => s.setDsr .auto

def examine : Progress → Part
  | .proto p => lengthOf p
  | _ => fun _ s => s.setDsr .auto

def examineLength : Part := fun l s => examine s.p l s

/-- `r` more bytes, in two attempts. -/
def readRest : Part := fun l s =>
  ifSelrec s.r.toNat keep
    (fun l t =>
      ifSelrec (s.buf.length + s.r.toNat - t.buf.length) keep
        (fail .incomplete) l t) l s

/-- The two bytes received last are not the digits of a byte. -/
def NoDigits (s : Receipt) : Prop := hexByte (s.last 2) (s.last 1) = none

instance (s : Receipt) : Decidable (NoDigits s) :=
  inferInstanceAs (Decidable (_ = _))

/-- Auto detection of the type of a DSR9500. -/
def detectDsr : Part := fun l s =>
  if s.p = .proto .dsr95 ∧ s.serialdata.dsr9500type = .auto then
    ifSelrec 2
      (fun l s =>
        if NoDigits s then
          s.setDsr
            (if s.last 2 = 0x0A ∧ s.last 1 = 0x0D then .openbox
              else if s.last 2 = 0x0D ∧ s.last 1 = 0x0A then .pioneer
              else .unknown)
        else
          ifSelrec 2
            (fun _ s => s.setDsr (if NoDigits s then .unknown else .withsid))
            (fun _ s => (s.setDsr .unknown).stop .incomplete) l s)
      (fun _ s => s.setDsr .gnusmas) l s
  else s

/-- The length at the end of what is received so far. -/
def Receipt.nextLength (s : Receipt) : Nat := s.section12 (s.buf.length - 2)

def pmtHead : Part :=
  ifSelrec 3
    (fun _ s =>
      if s.last 3 = 0x02 ∧ s.last 2 &&& 0xF0 = 0xB0 then s
      else s.stop .unknown)
    (fail .incomplete)

def Receipt.setPmtLen (s : Receipt) : Receipt :=
  { s with
    serialdata :=
      { s.serialdata with
        gboxLens := { s.serialdata.gboxLens with pmtLen := s.nextLength } } }

def Receipt.setEcmLen (s : Receipt) : Receipt :=
  { s with
    serialdata :=
      { s.serialdata with
        gboxLens := { s.serialdata.gboxLens with ecmLen := s.nextLength } } }

def pmtAndEcmHeader : Part := fun l s =>
  ifSelrec (s.nextLength + 3) keep (fail .incomplete) l s.setPmtLen

def ecmAndPid : Part := fun l s =>
  ifSelrec (s.nextLength + 4) keep (fail .incomplete) l s.setEcmLen

/-- The three sections of a gbox message. -/
def gboxSections : Part := fun l s =>
  if s.p = .proto .gbox then
    whileProto ecmAndPid l (whileProto pmtAndEcmHeader l (pmtHead l s))
  else s

/-- `while ((buf[n-1] != (-r)) && (p>0))`, one byte a turn. -/
def readUntil (char : Int) : Nat → Part
  | 0 => keep
  | fuel + 1 => fun l s =>
      if ((s.last 1).toNat : Int) = char then s
      else ifSelrec 1 (readUntil char fuel) (fail .incomplete) l s

/-- Stage 3: get the rest. -/
def getRest : Part := fun l s =>
  if 0 < s.r then gboxSections l (detectDsr l (readRest l s))
  else if s.r < 0 then
    whileProto (fun l s => readUntil (-s.r) (s.line.length + 1) l s) l s
  else s

/-- The loop over the stages goes on: `p` is not negative. -/
abbrev Receipt.Active (s : Receipt) : Prop := s.p = .start ∨ s.p.IsProto

def stage (part : Part) : Part := fun l s => if s.Active then part l s else s

def stages : Part := fun l s =>
  stage getRest l (stage examineLength l (stage identifyProtocol l
    (stage skipGarbage l s)))

def Receipt.countError (s : Receipt) : Receipt :=
  { s with
    serialdata :=
      { s.serialdata with serialErrors := s.serialdata.serialErrors + 1 } }

/-- What cannot be used is followed by all that still fits. -/
def flush : Part := fun l s =>
  if s.p = .unknown ∨ s.p = .incomplete then
    (selrec l (l - s.buf.length) s).2.countError
  else s

/-- `oscam_ser_disconnect`. -/
def SerialClient.disconnect (serialdata : SerialClient) : SerialClient :=
  { serialdata with dsr9500type := .auto, serialErrors := 0, connected := none }

/-- A Humax says that it was powered on. -/
def humax (s : Receipt) : Receipt :=
  if s.p = .incomplete ∧ s.buf.length > 2 ∧ s.byte 0 = 2 ∧ s.byte 1 = 2 ∧
      s.byte 2 = 2 then
    { s with serialdata := s.serialdata.disconnect }
  else s

/-- The locals of `oscam_ser_recv` before the first stage. -/
def begin (serialdata : SerialClient) (line : List (Option UInt8)) : Receipt :=
  { buf := [], line := line, p := .start, job := .bad, r := 0
    serialdata := serialdata }

/-- `oscam_ser_recv`. -/
def oscamSerRecv (l : Nat) (serialdata : SerialClient)
    (line : List (Option UInt8)) : Receipt :=
  humax (flush l (stages l (begin serialdata line)))

/-- How far `xbuf` is written: the byte in front, the byte that is kept from
before, and what is received. -/
def Receipt.written (s : Receipt) : Nat := 1 + max 1 s.buf.length

/-! ## Reading as a limited program -/

namespace Receipt

/-- `n`. -/
def size (s : Receipt) : Nat := s.buf.length

/-- After more bytes of the line. -/
def extend (s : Receipt) (chunk : List UInt8) (line : List (Option UInt8)) :
    Receipt :=
  { s with buf := s.buf ++ chunk, line := line }

@[simp] theorem size_extend (s : Receipt) (chunk : List UInt8)
    (line : List (Option UInt8)) :
    (s.extend chunk line).size = s.size + chunk.length :=
  List.length_append

@[simp] theorem size_stop (s : Receipt) (p : Progress) :
    (s.stop p).size = s.size := rfl

@[simp] theorem size_setDsr (s : Receipt) (type : DsrType) :
    (s.setDsr type).size = s.size := rfl

theorem byte_extend {s : Receipt} {i : Nat} (inside : i < s.size)
    (chunk : List UInt8) (line : List (Option UInt8)) :
    (s.extend chunk line).byte i = s.byte i :=
  List.getD_append _ _ _ _ inside

theorem section12_extend {s : Receipt} {i : Nat} (inside : i + 1 < s.size)
    (chunk : List UInt8) (line : List (Option UInt8)) :
    (s.extend chunk line).section12 i = s.section12 i := by
  rw [section12, section12, byte_extend inside,
    byte_extend (Nat.lt_of_succ_lt inside)]

end Receipt

/-- Reading appends to what is there, and all that was asked for if it is
successful. -/
theorem takeBytes_extends (n : Nat) (s : Receipt) :
    ∃ chunk line, (takeBytes n s).2 = s.extend chunk line ∧
      chunk.length ≤ n ∧ ((takeBytes n s).1 = true → chunk.length = n) := by
  induction n generalizing s with
  | zero =>
      refine ⟨[], s.line, ?_, Nat.zero_le 0, fun _ => rfl⟩
      simp [takeBytes, Receipt.extend]
  | succ n induction =>
      unfold takeBytes
      split
      · rename_i b line polled
        obtain ⟨chunk, rest, extended, most, whole⟩ :=
          induction { s with buf := s.buf ++ [b], line := line }
        refine ⟨b :: chunk, rest, ?_, Nat.succ_le_succ most, ?_⟩
        · rw [extended]
          simp [Receipt.extend]
        · intro ok
          rw [List.length_cons, whole ok]
      · rename_i line polled
        refine ⟨[], line, ?_, Nat.zero_le _, by simp⟩
        simp [Receipt.extend]
      · refine ⟨[], s.line, ?_, Nat.zero_le _, by simp⟩
        simp [Receipt.extend]

theorem size_le_takeBytes (n : Nat) (s : Receipt) :
    s.size ≤ (takeBytes n s).2.size := by
  obtain ⟨chunk, line, extended, -, -⟩ := takeBytes_extends n s
  rw [extended, Receipt.size_extend]
  exact Nat.le_add_right _ _

/-- A read that comes to a pause does not depend on how much is asked for. -/
theorem takeBytes_short {few many : Nat} {s : Receipt} (le : few ≤ many)
    (short : (takeBytes few s).2.size < s.size + few ∨
      (takeBytes many s).2.size < s.size + few) :
    takeBytes few s = takeBytes many s := by
  induction few generalizing many s with
  | zero =>
      have some := size_le_takeBytes 0 s
      have more := size_le_takeBytes many s
      omega
  | succ few induction =>
      obtain ⟨many, rfl⟩ : ∃ k, many = k + 1 := ⟨many - 1, by omega⟩
      unfold takeBytes at short ⊢
      split
      · rename_i b line polled
        simp only [polled] at short
        apply induction (by omega)
        have one : Receipt.size { s with buf := s.buf ++ [b], line := line } =
            s.size + 1 := by simp [Receipt.size]
        rw [one]
        omega
      · rfl
      · rfl

/-- What `oscam_ser_selrec` asks the line for. -/
def asked (l n : Nat) (s : Receipt) : Nat :=
  if s.size + n > l then l - s.size else n

theorem selrec_of_pos {l n : Nat} {s : Receipt} (some : 0 < asked l n s) :
    selrec l n s = takeBytes (asked l n s) s :=
  if_neg some.ne'

theorem selrec_of_zero {l n : Nat} {s : Receipt} (none : asked l n s = 0) :
    selrec l n s = (false, s) :=
  if_pos none

theorem size_le_selrec (l n : Nat) (s : Receipt) :
    s.size ≤ (selrec l n s).2.size := by
  rcases Nat.eq_zero_or_pos (asked l n s) with none | some
  · rw [selrec_of_zero none]
  · rw [selrec_of_pos some]
    exact size_le_takeBytes _ s

/-- Two reads with different limits, of which the first asks for the same or
for all that its limit allows. -/
theorem selrec_agrees {l larger n more : Nat} {s : Receipt} (le : l ≤ larger)
    (request : n = more ∨ (l - s.size ≤ n ∧ n ≤ more))
    (below : (selrec l n s).2.size < l ∨ (selrec larger more s).2.size < l) :
    selrec l n s = selrec larger more s := by
  have room : s.size < l := by
    have first := size_le_selrec l n s
    have second := size_le_selrec larger more s
    omega
  have order : asked l n s ≤ asked larger more s ∧
      (asked l n s = asked larger more s ∨ asked l n s = l - s.size) := by
    unfold asked
    split <;> split <;> omega
  rcases order.2 with same | all
  · rcases Nat.eq_zero_or_pos (asked l n s) with none | some
    · rw [selrec_of_zero none, selrec_of_zero (same ▸ none)]
    · rw [selrec_of_pos some, selrec_of_pos (same ▸ some), same]
  · have some : 0 < asked l n s := by omega
    have others : 0 < asked larger more s := by omega
    rw [selrec_of_pos some, selrec_of_pos others] at below ⊢
    apply takeBytes_short order.1
    omega

/-- Each byte that is read is taken from the line. -/
theorem line_takeBytes {n : Nat} {s : Receipt}
    (ok : (takeBytes n s).1 = true) :
    (takeBytes n s).2.line.length + n = s.line.length := by
  induction n generalizing s with
  | zero => rfl
  | succ n induction =>
      unfold takeBytes at ok ⊢
      split at ok
      · rename_i b line polled
        have rest : (takeBytes n
            { s with buf := s.buf ++ [b], line := line }).2.line.length + n =
              line.length := induction ok
        simp only [polled, List.length_cons]
        omega
      · simp at ok
      · simp at ok

theorem line_selrec {l n : Nat} {s : Receipt}
    (ok : (selrec l n s).1 = true) :
    (selrec l n s).2.line.length < s.line.length := by
  rcases Nat.eq_zero_or_pos (asked l n s) with none | some
  · rw [selrec_of_zero none] at ok
    simp at ok
  · rw [selrec_of_pos some] at ok ⊢
    have taken := line_takeBytes ok
    omega

/-- The fuel of the loop is enough: it comes to the character or to a pause. -/
theorem readUntil_ends (char : Int) (l : Nat) {fuel : Nat} {s : Receipt}
    (enough : s.line.length < fuel) :
    (((readUntil char fuel l s).last 1).toNat : Int) = char ∨
      (readUntil char fuel l s).p = .incomplete := by
  induction fuel generalizing s with
  | zero => exact absurd enough (Nat.not_lt_zero _)
  | succ fuel induction =>
      unfold readUntil
      split
      · rename_i found
        exact Or.inl found
      · unfold ifSelrec
        split
        · rename_i ok
          have shorter := line_selrec ok
          exact induction (by omega)
        · exact Or.inr rfl

/-- A part of the receiver is limited by the room it has. -/
abbrev LimitedPart (part : Part) : Prop :=
  Limited Receipt.size Receipt.size part

theorem limited_selrec (n : Nat) :
    Limited Receipt.size (fun out : Bool × Receipt => out.2.size)
      fun l s => selrec l n s := by
  constructor
  · intro l s
    exact size_le_selrec l n s
  · intro l larger s le below
    exact selrec_agrees le (Or.inl rfl) below

variable {received missing part first second : Part}

theorem limited_ifSelrec (n : Nat) (limitedReceived : LimitedPart received)
    (limitedMissing : LimitedPart missing) :
    LimitedPart (ifSelrec n received missing) := by
  have branches : Limited (fun out : Bool × Receipt => out.2.size) Receipt.size
      fun l out => if out.1 then received l out.2 else missing l out.2 := by
    apply Limited.ite (fun out : Bool × Receipt => out.1 = true)
    · exact ⟨fun l out => limitedReceived.grows l out.2,
        fun le below => limitedReceived.agrees le below⟩
    · exact ⟨fun l out => limitedMissing.grows l out.2,
        fun le below => limitedMissing.agrees le below⟩
  have composed := Limited.comp (limited_selrec n) branches
  exact composed

theorem limited_step {step : Receipt → Receipt}
    (same : ∀ s, (step s).size = s.size) : LimitedPart fun _ s => step s :=
  Limited.pure fun s => (same s).ge

theorem limited_keep : LimitedPart keep :=
  limited_step fun _ => rfl

theorem limited_fail (p : Progress) : LimitedPart (fail p) :=
  limited_step fun _ => rfl

theorem limited_whileProto (limited : LimitedPart part) :
    LimitedPart (whileProto part) :=
  Limited.ite (fun s : Receipt => s.p.IsProto) limited limited_keep

theorem limited_stage (limited : LimitedPart part) : LimitedPart (stage part) :=
  Limited.ite Receipt.Active limited limited_keep

theorem limited_skipGarbage : LimitedPart skipGarbage := by
  apply limited_ifSelrec
  · apply limited_step
    intro s
    split <;> rfl
  · exact limited_fail .silent

theorem size_identified (s : Receipt) : (identified s).size = s.size := by
  unfold identified
  split <;> rfl

theorem limited_identifyProtocol : LimitedPart identifyProtocol := by
  apply Limited.comp (limited_step fun s => Receipt.size_stop s .silent)
  apply limited_ifSelrec
  · exact limited_step size_identified
  · exact limited_keep

theorem size_dsrLength (s : Receipt) : (dsrLength s).size = s.size := by
  unfold dsrLength
  split <;> rfl

theorem limited_lengthOf (p : Protocol) : LimitedPart (lengthOf p) := by
  cases p with
  | sssp => exact limited_step fun _ => rfl
  | bomba => exact limited_step fun _ => rfl
  | hsic =>
      have length : LimitedPart fun _ s => { s with r := (s.byte 14).toNat } :=
        limited_step fun _ => rfl
      exact limited_ifSelrec 12 length (limited_fail .incomplete)
  | dsr95 =>
      apply Limited.ite (fun s : Receipt => s.job = .echo)
      · exact limited_step fun _ => rfl
      · exact limited_ifSelrec 16 (limited_step size_dsrLength)
          (limited_fail .incomplete)
  | gs =>
      apply Limited.ite (fun s : Receipt => s.job = .lgo)
      · exact limited_step fun _ => rfl
      · exact limited_ifSelrec 1 (limited_step fun _ => rfl)
          (limited_fail .incomplete)
  | alpha => exact limited_step fun _ => rfl
  | gbox => exact limited_step fun _ => rfl
  | dsr95Old => exact limited_step fun _ => rfl

theorem limited_examineLength : LimitedPart examineLength := by
  apply Limited.select Receipt.p examine
  intro p
  cases p with
  | proto p => exact limited_lengthOf p
  | start => exact limited_step fun _ => rfl
  | incomplete => exact limited_step fun _ => rfl
  | unknown => exact limited_step fun _ => rfl
  | silent => exact limited_step fun _ => rfl
  | garbage => exact limited_step fun _ => rfl

/-- So many bytes, or the message is incomplete. -/
theorem limited_more (n : Nat) :
    LimitedPart (ifSelrec n keep (fail .incomplete)) :=
  limited_ifSelrec n limited_keep (limited_fail .incomplete)

/-- The second attempt of `readRest`, up to `all` bytes. -/
theorem limited_upTo (all : Nat) : LimitedPart fun l t =>
    ifSelrec (all - t.buf.length) keep (fail .incomplete) l t :=
  Limited.select (fun t : Receipt => all - t.buf.length)
    (fun n => ifSelrec n keep (fail .incomplete))
    limited_more

theorem limited_readRest : LimitedPart readRest :=
  Limited.select
    (fun s : Receipt => (s.r.toNat, s.buf.length + s.r.toNat))
    (fun k => ifSelrec k.1 keep fun l t =>
      ifSelrec (k.2 - t.buf.length) keep (fail .incomplete) l t)
    fun k => limited_ifSelrec k.1 limited_keep (limited_upTo k.2)

theorem limited_detectDsr : LimitedPart detectDsr := by
  apply Limited.ite
    (fun s : Receipt => s.p = .proto .dsr95 ∧ s.serialdata.dsr9500type = .auto)
  · apply limited_ifSelrec
    · apply Limited.ite (fun s => NoDigits s)
      · exact limited_step fun s => Receipt.size_setDsr s _
      · exact limited_ifSelrec 2 (limited_step fun s => Receipt.size_setDsr s _)
          (limited_step fun _ => rfl)
    · exact limited_step fun s => Receipt.size_setDsr s _
  · exact limited_keep

theorem limited_pmtHead : LimitedPart pmtHead := by
  apply limited_ifSelrec
  · apply limited_step
    intro s
    split <;> rfl
  · exact limited_fail .incomplete

theorem size_setPmtLen (s : Receipt) : s.setPmtLen.size = s.size := rfl

theorem size_setEcmLen (s : Receipt) : s.setEcmLen.size = s.size := rfl

theorem limited_pmtAndEcmHeader : LimitedPart pmtAndEcmHeader :=
  Limited.select Receipt.nextLength
    (fun k l s => ifSelrec (k + 3) keep (fail .incomplete) l s.setPmtLen)
    fun k => Limited.comp (limited_step size_setPmtLen)
      (limited_more (k + 3))

theorem limited_ecmAndPid : LimitedPart ecmAndPid :=
  Limited.select Receipt.nextLength
    (fun k l s => ifSelrec (k + 4) keep (fail .incomplete) l s.setEcmLen)
    fun k => Limited.comp (limited_step size_setEcmLen)
      (limited_more (k + 4))

theorem limited_gboxSections : LimitedPart gboxSections :=
  Limited.ite (fun s : Receipt => s.p = .proto .gbox)
    (Limited.comp
      (Limited.comp limited_pmtHead
        (limited_whileProto limited_pmtAndEcmHeader))
      (limited_whileProto limited_ecmAndPid))
    limited_keep

theorem limited_readUntil (char : Int) (fuel : Nat) :
    LimitedPart (readUntil char fuel) := by
  induction fuel with
  | zero => exact limited_keep
  | succ fuel induction =>
      apply Limited.ite (fun s : Receipt => ((s.last 1).toNat : Int) = char)
      · exact limited_keep
      · exact limited_ifSelrec 1 induction (limited_fail .incomplete)

theorem limited_getRest : LimitedPart getRest := by
  apply Limited.ite (fun s : Receipt => 0 < s.r)
  · exact Limited.comp (Limited.comp limited_readRest limited_detectDsr)
      limited_gboxSections
  · apply Limited.ite (fun s : Receipt => s.r < 0)
    · apply limited_whileProto
      exact Limited.select
        (fun s : Receipt => (-s.r, s.line.length + 1))
        (fun k => readUntil k.1 k.2)
        fun k => limited_readUntil k.1 k.2
    · exact limited_keep

theorem limited_stages : LimitedPart stages := by
  have two := Limited.comp (limited_stage limited_skipGarbage)
    (limited_stage limited_identifyProtocol)
  have three := Limited.comp two (limited_stage limited_examineLength)
  have four := Limited.comp three (limited_stage limited_getRest)
  exact four

theorem limited_rest :
    Limited Receipt.size (fun out : Bool × Receipt => out.2.size)
      fun l s => selrec l (l - s.buf.length) s := by
  constructor
  · intro l s
    exact size_le_selrec _ _ s
  · intro l larger s le below
    apply selrec_agrees le (Or.inr ⟨le_refl _, ?_⟩) below
    exact Nat.sub_le_sub_right le _

theorem limited_flush : LimitedPart flush := by
  apply Limited.ite (fun s : Receipt => s.p = .unknown ∨ s.p = .incomplete)
  · have counted : Limited (fun out : Bool × Receipt => out.2.size) Receipt.size
        fun _ out => out.2.countError :=
      Limited.pure fun out => le_refl out.2.size
    have composed := Limited.comp limited_rest counted
    exact composed
  · exact limited_keep

theorem size_humax (s : Receipt) : (humax s).size = s.size := by
  unfold humax
  split <;> rfl

/-- `oscam_ser_recv` does not depend on a limit it does not reach. -/
theorem limited_oscamSerRecv (serialdata : SerialClient) :
    Limited (fun _ => 0) Receipt.size fun l line =>
      oscamSerRecv l serialdata line := by
  have start : Limited (fun _ => 0) Receipt.size
      fun _ line => begin serialdata line :=
    Limited.pure fun _ => Nat.zero_le _
  have received := Limited.comp start limited_stages
  have flushed := Limited.comp received limited_flush
  have whole := Limited.comp flushed (limited_step size_humax)
  exact whole

end Oscam.Serial
