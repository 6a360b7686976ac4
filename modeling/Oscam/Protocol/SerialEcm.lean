import Mathlib.Data.List.DropRight
import Oscam.Monitor.Requests
import Oscam.Protocol.EcmLength
import Oscam.Protocol.SerialFrames

/-!
# The ECM in a request of the serial interface

`oscam_ser_check_ecm` finds the ECM in the bytes of a request, by the protocol
of the client, and copies it to the request.
-/

namespace Oscam

/-- A copy of `size` bytes to `er->ecm`: each is taken from `width` bytes of
the message, from `start` on. -/
structure Copy where
  start : Nat
  size : Int
  width : Nat
  deriving DecidableEq, Repr

/-- The copy fits into `er->ecm`, and what is copied was received: each piece of
the message is somewhere in the buffer, and so long. -/
def Copy.Within (pieces : List (Nat × Nat)) (copy : Copy) : Prop :=
  (0 ≤ copy.size ∧ copy.size ≤ ecmSize) ∧
    ∀ i, copy.start ≤ i → i < copy.start + copy.width * copy.size.toNat →
      ∃ piece ∈ pieces, piece.1 ≤ i ∧ i < piece.1 + piece.2

/-- A message in one piece. -/
theorem Copy.within_of_le {n : Nat} {copy : Copy}
    (fits : 0 ≤ copy.size ∧ copy.size ≤ ecmSize)
    (inside : copy.start + copy.width * copy.size.toNat ≤ n) :
    copy.Within [(0, n)] := by
  refine ⟨fits, ?_⟩
  intro i _ before
  exact ⟨(0, n), List.mem_singleton_self _, Nat.zero_le i, by
    rw [Nat.zero_add]
    omega⟩

namespace Serial

open Monitor (cstr trim)

/-! ## Numbers in a request -/

/-- `b2i`. -/
def b2i (n : Nat) (buf : List UInt8) (off : Nat) : Nat :=
  ((buf.drop off).take n).foldl (fun value b => value * 256 + b.toNat) 0

/-- `cs_atob`: `n` bytes from their digits. -/
def csAtob : Nat → List UInt8 → Option (List UInt8)
  | 0, _ => some []
  | n + 1, asc =>
      match hexByte (asc.getD 0 0) (asc.getD 1 0), csAtob n (asc.drop 2) with
      | some b, some bytes => some (UInt8.ofNat b :: bytes)
      | _, _ => none

/-- `cs_atoi` of up to four bytes, which ignores errors. -/
def csAtoi (l : Nat) (asc : List UInt8) : Nat :=
  match csAtob l asc with
  | some bytes => b2i l bytes 0
  | none => 0

/-! ## AlphaStar -/

/-- Behind a blank a character stands for another one. -/
def unescape : List UInt8 → List UInt8
  | [] => []
  | [b] => if b = 0x20 then [] else [b]
  | b :: c :: rest =>
      if b = 0x20 then (c ^^^ 0x20) :: unescape rest
      else b :: unescape (c :: rest)

def escape (b : UInt8) : List UInt8 :=
  if b = 0x20 ∨ b = 0x7E ∨ b = 0x7F then [0x20, b ^^^ 0x20] else [b]

/-- `oscam_ser_alpha_convert`. -/
def alphaConvert (buf : List UInt8) : List UInt8 :=
  if buf.getD 0 0 = 0x7E then unescape ((buf.drop 1).take (buf.length - 2))
  else 0x7E :: (buf.flatMap escape ++ [0x7F])

/-! ## `oscam_ser_check_ecm` -/

/-- What the check returns, the request it fills, and what it copies. -/
structure Checked where
  rc : Nat
  er : EcmRequest
  copies : List Copy

/-- The `memcpy` at the end of a case. -/
def copyEcm (buf : List UInt8) (start : Nat) (er : EcmRequest) : Checked :=
  { rc := 0, er := { er with ecm := (buf.drop start).take er.l.toNat }
    copies := [{ start := start, size := er.l, width := 1 }] }

def refused (rc : Nat) (er : EcmRequest) : Checked :=
  { rc := rc, er := er, copies := [] }

/-- The entry of the table with the pid, `SSSP_MAX_PID` if there is none. -/
def ssspIndex (serialdata : SerialClient) (pid : Nat) : Nat :=
  serialdata.ssspTab.toList.findIdx fun entry => entry.pid == pid

def checkSssp (serialdata : SerialClient) (buf : List UInt8)
    (er : EcmRequest) : Checked :=
  let pid := b2i 2 buf 3
  let i := ssspIndex serialdata pid
  if serialdata.ssspNum ≤ i then refused 2 { er with pid := pid }
  else
    let entry :=
      serialdata.ssspTab.toList.getD i { caid := 0, pid := 0, prid := 0 }
    copyEcm buf 5
      { er with
        pid := pid, l := toInt16 (buf.length - 5)
        srvid := serialdata.ssspSrvid, caid := entry.caid, prid := entry.prid }

/-- The request of a DSR9500 is text, of two digits a byte. -/
def checkDsr (serialdata : SerialClient) (buf : List UInt8)
    (er : EcmRequest) : Checked :=
  let txt := trim (cstr (buf.drop 13))
  let n := txt.length / 2
  let er :=
    { er with
      l := toInt16 n, prid := csAtoi 3 (buf.drop 3)
      caid := csAtoi 2 (buf.drop 9) }
  let copies : List Copy := [{ start := 13, size := toInt16 n, width := 2 }]
  match csAtob n txt with
  | none => { rc := 1, er := er, copies := copies }
  | some ecm =>
      if serialdata.dsr9500type = .withsid then
        { rc := 0
          er :=
            { er with
              ecm := ecm, l := toInt16 (er.l - 2)
              srvid := csAtoi 2 ((buf.take 13 ++ txt).drop (9 + 2 * n)) }
          copies := copies }
      else { rc := 0, er := { er with ecm := ecm }, copies := copies }

/-- A longer ECM of a GS7001 is cut off. -/
def gsLength (buf : List UInt8) : Int :=
  let l := toInt16 ((buf.getD 3 0).toNat * 256 + (buf.getD 2 0).toNat - 6)
  if l > 256 then 256 else l

def checkGs (buf : List UInt8) (er : EcmRequest) : Checked :=
  copyEcm buf 10
    { er with
      l := gsLength buf
      srvid := (buf.getD 5 0).toNat * 256 + (buf.getD 4 0).toNat
      caid := (buf.getD 7 0).toNat * 256 + (buf.getD 6 0).toNat, prid := 0 }

def checkAlpha (buf : List UInt8) (er : EcmRequest) : Checked :=
  let buf := alphaConvert buf
  let er :=
    { er with l := toInt16 (b2i 2 buf 1 - 2), caid := b2i 2 buf 3 }
  if er.l ≠ (buf.length : Int) - 5 ∨ er.l > 257 then refused 1 er
  else copyEcm buf 5 er

def checkGbox (lens : GboxLens) (buf : List UInt8) (er : EcmRequest) :
    Checked :=
  copyEcm buf (lens.catLen + 3 + lens.pmtLen + 3)
    { er with
      srvid := b2i 2 buf (lens.catLen + 3 + 3), l := toInt16 (lens.ecmLen + 3) }

def checkByProtocol (serialdata : SerialClient) (buf : List UInt8)
    (er : EcmRequest) : Option Protocol → Checked
  | some .hsic =>
      copyEcm buf 12
        { er with
          l := toInt16 (buf.length - 12), caid := b2i 2 buf 1
          prid := b2i 3 buf 3, pid := b2i 2 buf 6, srvid := b2i 2 buf 10 }
  | some .sssp => checkSssp serialdata buf er
  | some .bomba => copyEcm buf 0 { er with l := toInt16 buf.length }
  | some .dsr95 => checkDsr serialdata buf er
  | some .gs => checkGs buf er
  | some .alpha => checkAlpha buf er
  | some .gbox => checkGbox serialdata.gboxLens buf er
  | some .dsr95Old => refused 0 er
  | none => refused 0 er

/-- `oscam_ser_check_ecm`. -/
def checkEcm (serialdata : SerialClient) (buf : List UInt8)
    (er : EcmRequest) : Checked :=
  if buf.length < 16 then refused 1 er
  else checkByProtocol serialdata buf er serialdata.connected

/-! ## The server -/

/-- `oscam_ser_auth_client` for the protocol of the message: a client with
another one is disconnected before. -/
def SerialClient.auth (proto : Protocol) (serialdata : SerialClient) :
    SerialClient :=
  if serialdata.connected = some proto then serialdata
  else if serialdata.connected.isSome then
    { serialdata.disconnect with connected := some proto }
  else { serialdata with connected := some proto }

/-- A turn of the loop of `oscam_ser_server`: what it checks, if the message is
an ECM. -/
def serve (s : Receipt) (er : EcmRequest) : Option Checked :=
  match s.p with
  | .proto p =>
      if s.serialdata.serialErrors > 3 then none
      else if s.job = .ecm then
        some (checkEcm (s.serialdata.auth p) s.buf er)
      else none
  | _ => none

/-! ## What fits -/

theorem length_trim_le (txt : List UInt8) : (trim txt).length ≤ txt.length := by
  unfold trim
  have shorter (bytes : List UInt8) :
      (bytes.rdropWhile Monitor.isBlank).length ≤ bytes.length :=
    (List.rdropWhile_prefix Monitor.isBlank bytes).length_le
  dsimp only
  split
  · exact (shorter _).trans (List.dropWhile_suffix _).length_le
  · exact shorter txt

theorem length_cstr_le (bytes : List UInt8) :
    (cstr bytes).length ≤ bytes.length :=
  (List.takeWhile_prefix _).length_le

/-- An escaped text is at most twice as long. -/
theorem length_unescape (buf : List UInt8) :
    (unescape buf).length ≤ buf.length ∧
      buf.length ≤ 2 * (unescape buf).length + 1 := by
  induction buf using unescape.induct with
  | case1 => simp [unescape]
  | case2 => simp [unescape]
  | case3 b other => simp [unescape, other]
  | case4 c rest induction =>
      rw [unescape, if_pos rfl]
      simp only [List.length_cons]
      omega
  | case5 b c rest other induction =>
      rw [unescape, if_neg other]
      simp only [List.length_cons] at induction ⊢
      omega

theorem length_alphaConvert {buf : List UInt8} (begins : buf.getD 0 0 = 0x7E) :
    (alphaConvert buf).length ≤ buf.length - 2 ∧
      buf.length - 2 ≤ 2 * (alphaConvert buf).length + 1 := by
  have length : ((buf.drop 1).take (buf.length - 2)).length =
      buf.length - 2 := by
    rw [List.length_take, List.length_drop]
    omega
  rw [alphaConvert, if_pos begins]
  have converted := length_unescape ((buf.drop 1).take (buf.length - 2))
  rwa [length] at converted

/-- A copy of the bytes `start` to `start + er->l` of `buf`. -/
theorem copyEcm_within {buf : List UInt8} {start n : Nat} {er : EcmRequest}
    (fits : 0 ≤ er.l ∧ er.l ≤ ecmSize) (inside : start + er.l.toNat ≤ n) :
    ∀ copy ∈ (copyEcm buf start er).copies, copy.Within [(0, n)] := by
  intro copy member
  rw [copyEcm, List.mem_singleton] at member
  subst member
  apply Copy.within_of_le fits
  rw [one_mul]
  exact inside

theorem fits_of_copyEcm {buf : List UInt8} {start : Nat} {er : EcmRequest}
    {pieces : List (Nat × Nat)}
    (within : ∀ copy ∈ (copyEcm buf start er).copies, copy.Within pieces) :
    0 ≤ er.l ∧ er.l ≤ ecmSize :=
  (within _ (List.mem_singleton_self _)).1

/-- The length of the ECM in a gbox message, in the third of its sections. -/
def Receipt.gboxEcmLen (s : Receipt) : Nat :=
  s.section12 (s.section12 1 + s.section12 (s.section12 1 + 4) + 7)

theorem GboxMessage.ecmLen_eq {s : Receipt} (message : GboxMessage s) :
    s.serialdata.gboxLens.ecmLen = s.gboxEcmLen := by
  rw [message.ecmLen, message.pmtLen, message.catLen]
  rfl

/-- Beyond the end of the message. -/
theorem section12_of_le {s : Receipt} {i : Nat} (beyond : s.size ≤ i) :
    s.section12 i = 0 := by
  have first : s.byte i = 0 := List.getD_eq_default _ _ beyond
  have second : s.byte (i + 1) = 0 :=
    List.getD_eq_default _ _ (beyond.trans (Nat.le_succ i))
  rw [Receipt.section12, first, second]
  rfl

/-- The pid in a SSSP request is in the table. -/
def KnownPid (serialdata : SerialClient) (s : Receipt) : Prop :=
  ssspIndex serialdata (b2i 2 s.buf 3) < serialdata.ssspNum

/-- The length field of a request is small enough, for the two protocols that
have a field of more than eight bits. -/
def EcmLengthFits (serialdata : SerialClient) (s : Receipt) : Protocol → Prop
  | .sssp =>
      KnownPid serialdata s →
        (s.byte 1).toNat * 256 + (s.byte 2).toNat ≤ 514
  | .gbox => s.gboxEcmLen ≤ 509
  | _ => True

variable {s : Receipt} {serialdata : SerialClient} {er : EcmRequest}

/-- All that a check copies is in range. -/
abbrev CopiesWithin (s : Receipt) (checked : Checked) : Prop :=
  ∀ copy ∈ checked.copies, copy.Within [(0, s.size)]

theorem refused_within (rc : Nat) : CopiesWithin s (refused rc er) := by
  intro copy member
  exact absurd member List.not_mem_nil

theorem checkSssp_within_iff (complete : Complete .sssp s)
    (enough : 16 ≤ s.size) (small : s.size < 1024) :
    CopiesWithin s (checkSssp serialdata s.buf er) ↔
      EcmLengthFits serialdata s .sssp := by
  have length : s.size =
      3 + ((s.byte 1).toNat * 256 + (s.byte 2).toNat) := complete
  have size : s.buf.length = s.size := rfl
  have same : toInt16 (s.buf.length - 5) = s.size - 5 := by
    rw [size]
    apply toInt16_of_small
    · omega
    · omega
  unfold checkSssp EcmLengthFits KnownPid
  dsimp only
  split
  · rename_i unknown
    constructor
    · intro _ known
      omega
    · intro _
      exact refused_within 2
  · rename_i known
    constructor
    · intro within _
      have fits := (fits_of_copyEcm within).2
      simp only [same, ecmSize] at fits
      omega
    · intro short
      have field := short (by omega)
      apply copyEcm_within
      · simp only [same, ecmSize]
        omega
      · simp only [same]
        omega

theorem checkDsr_within (enough : 16 ≤ s.size) (small : s.size < 1024) :
    CopiesWithin s (checkDsr serialdata s.buf er) := by
  have text : (trim (cstr (s.buf.drop 13))).length ≤ s.size - 13 := by
    calc (trim (cstr (s.buf.drop 13))).length
        ≤ (cstr (s.buf.drop 13)).length := length_trim_le _
      _ ≤ (s.buf.drop 13).length := length_cstr_le _
      _ = s.size - 13 := List.length_drop
  have same : toInt16 ((trim (cstr (s.buf.drop 13))).length / 2 : Nat) =
      ((trim (cstr (s.buf.drop 13))).length / 2 : Nat) := by
    apply toInt16_of_small
    · omega
    · omega
  have copies : (checkDsr serialdata s.buf er).copies =
      [{ start := 13
         size := ((trim (cstr (s.buf.drop 13))).length / 2 : Nat)
         width := 2 }] := by
    rw [← same]
    unfold checkDsr
    dsimp only
    split
    · rfl
    · split <;> rfl
  intro copy member
  rw [copies, List.mem_singleton] at member
  subst member
  apply Copy.within_of_le
  · dsimp only [ecmSize]
    omega
  · dsimp only
    omega

theorem checkGs_within (complete : Complete .gs s) (noLogon : s.job ≠ .lgo)
    (enough : 16 ≤ s.size) (small : s.size < 1024) :
    CopiesWithin s (checkGs s.buf er) := by
  have length : s.size =
      4 + ((s.buf.getD 3 0).toNat * 256 + (s.buf.getD 2 0).toNat) :=
    complete noLogon
  have same : toInt16
      ((s.buf.getD 3 0).toNat * 256 + (s.buf.getD 2 0).toNat - 6) =
      (s.buf.getD 3 0).toNat * 256 + (s.buf.getD 2 0).toNat - 6 := by
    apply toInt16_of_small
    · omega
    · omega
  have range : 0 ≤ gsLength s.buf ∧ gsLength s.buf ≤ 256 ∧
      gsLength s.buf + 10 ≤ s.size := by
    unfold gsLength
    rw [same]
    dsimp only
    split <;> omega
  apply copyEcm_within
  · dsimp only [ecmSize]
    omega
  · dsimp only
    omega

theorem checkAlpha_within (complete : Complete .alpha s)
    (enough : 16 ≤ s.size) : CopiesWithin s (checkAlpha s.buf er) := by
  obtain ⟨upper, lower⟩ := length_alphaConvert complete
  have size : s.buf.length = s.size := rfl
  unfold checkAlpha
  dsimp only
  split
  · exact refused_within 1
  · rename_i whole
    rw [not_or, not_not, not_lt] at whole
    apply copyEcm_within
    · dsimp only [ecmSize]
      omega
    · dsimp only
      omega

theorem checkGbox_within_iff (complete : Complete .gbox s)
    (enough : 16 ≤ s.size) (small : s.size < 1024) :
    CopiesWithin s (checkGbox s.serialdata.gboxLens s.buf er) ↔
      EcmLengthFits serialdata s .gbox := by
  rcases complete with three | message
  · omega
  · have size := message.size
    have ecmLen := message.ecmLen_eq
    have same : toInt16 (s.serialdata.gboxLens.ecmLen + 3) =
        s.serialdata.gboxLens.ecmLen + 3 := by
      apply toInt16_of_small
      · omega
      · omega
    unfold EcmLengthFits
    dsimp only
    rw [← ecmLen]
    constructor
    · intro within
      have fits := (fits_of_copyEcm within).2
      simp only [same, ecmSize] at fits
      omega
    · intro short
      apply copyEcm_within
      · simp only [same, ecmSize]
        omega
      · simp only [same]
        omega

theorem checkByProtocol_within_iff {p : Protocol}
    (lens : serialdata.gboxLens = s.serialdata.gboxLens)
    (complete : Complete p s) (noLogon : s.job ≠ .lgo)
    (enough : 16 ≤ s.size) (small : s.size < 1024) :
    CopiesWithin s (checkByProtocol serialdata s.buf er (some p)) ↔
      EcmLengthFits serialdata s p := by
  have size : s.buf.length = s.size := rfl
  cases p with
  | hsic =>
      have field := (s.byte 14).toNat_lt
      have length : s.size = 15 + (s.byte 14).toNat := complete
      have same : toInt16 (s.buf.length - 12) = s.size - 12 := by
        rw [size]
        apply toInt16_of_small
        · omega
        · omega
      refine iff_of_true ?_ trivial
      apply copyEcm_within
      · simp only [same, ecmSize]
        omega
      · simp only [same]
        omega
  | sssp => exact checkSssp_within_iff complete enough small
  | bomba =>
      have field := (s.byte 2).toNat_lt
      have length : s.size = 3 + (s.byte 2).toNat := complete
      have same : toInt16 s.buf.length = s.size := by
        rw [size]
        apply toInt16_of_small
        · omega
        · omega
      refine iff_of_true ?_ trivial
      apply copyEcm_within
      · simp only [same, ecmSize]
        omega
      · simp only [same]
        omega
  | dsr95 => exact iff_of_true (checkDsr_within enough small) trivial
  | gs =>
      exact iff_of_true (checkGs_within complete noLogon enough small) trivial
  | alpha => exact iff_of_true (checkAlpha_within complete enough) trivial
  | gbox =>
      show CopiesWithin s (checkGbox serialdata.gboxLens s.buf er) ↔ _
      rw [lens]
      exact checkGbox_within_iff complete enough small
  | dsr95Old => exact iff_of_true (refused_within 0) trivial

/-- In a message of fewer than 16 bytes no length field is too large. -/
theorem ecmLengthFits_of_short {p : Protocol} (complete : Complete p s)
    (short : s.size < 16) : EcmLengthFits serialdata s p := by
  cases p with
  | sssp =>
      intro _
      have length : s.size =
          3 + ((s.byte 1).toNat * 256 + (s.byte 2).toNat) := complete
      omega
  | gbox =>
      show s.gboxEcmLen ≤ 509
      rcases complete with three | message
      · rw [Receipt.gboxEcmLen, section12_of_le (by omega)]
        exact Nat.zero_le 509
      · have ecmLen := message.ecmLen_eq
        have size := message.size
        omega
  | hsic => trivial
  | bomba => trivial
  | dsr95 => trivial
  | gs => trivial
  | alpha => trivial
  | dsr95Old => trivial

/-- The copies of a complete message are in range if and only if its length
field is. -/
theorem checkEcm_within_iff {p : Protocol}
    (connected : serialdata.connected = some p)
    (lens : serialdata.gboxLens = s.serialdata.gboxLens)
    (complete : Complete p s) (noLogon : s.job ≠ .lgo)
    (small : s.size < 1024) :
    CopiesWithin s (checkEcm serialdata s.buf er) ↔
      EcmLengthFits serialdata s p := by
  unfold checkEcm
  split
  · rename_i short
    exact iff_of_true (refused_within 1) (ecmLengthFits_of_short complete short)
  · rename_i enough
    rw [connected]
    exact checkByProtocol_within_iff lens complete noLogon (not_lt.mp enough)
      small
/-! ## A turn of the server -/

theorem connected_auth (p : Protocol) (serialdata : SerialClient) :
    (serialdata.auth p).connected = some p := by
  unfold SerialClient.auth
  split
  · assumption
  · split <;> rfl

theorem gboxLens_auth (p : Protocol) (serialdata : SerialClient) :
    (serialdata.auth p).gboxLens = serialdata.gboxLens := by
  unfold SerialClient.auth
  split
  · rfl
  · split <;> rfl

theorem ecmLengthFits_auth (p q : Protocol) :
    EcmLengthFits (serialdata.auth q) s p ↔ EcmLengthFits serialdata s p := by
  have table : (serialdata.auth q).ssspTab = serialdata.ssspTab ∧
      (serialdata.auth q).ssspNum = serialdata.ssspNum := by
    unfold SerialClient.auth
    split
    · exact ⟨rfl, rfl⟩
    · split <;> exact ⟨rfl, rfl⟩
  cases p with
  | sssp =>
      simp only [EcmLengthFits, KnownPid, ssspIndex, table.1, table.2]
  | hsic => rfl
  | bomba => rfl
  | dsr95 => rfl
  | gs => rfl
  | alpha => rfl
  | gbox => rfl
  | dsr95Old => rfl

/-- If the message is served as an ECM, its length field is small enough. -/
def LengthFits (s : Receipt) : Prop :=
  ∀ p, s.p = .proto p → s.serialdata.serialErrors ≤ 3 → s.job = .ecm →
    EcmLengthFits s.serialdata s p

theorem serve_within_iff (complete : ∀ p, s.p = .proto p → Complete p s)
    (small : s.size < 1024) :
    (∀ checked ∈ serve s er, CopiesWithin s checked) ↔ LengthFits s := by
  unfold serve LengthFits
  cases progress : s.p with
  | proto p =>
      dsimp only
      have checked_iff (ecm : s.job = .ecm) :
          CopiesWithin s (checkEcm (s.serialdata.auth p) s.buf er) ↔
            EcmLengthFits s.serialdata s p := by
        rw [← ecmLengthFits_auth p p]
        exact checkEcm_within_iff (connected_auth p s.serialdata)
          (gboxLens_auth p s.serialdata) (complete p progress) (by simp [ecm])
          small
      split
      · rename_i errors
        constructor
        · intro _ q _ few
          omega
        · intro _ checked member
          simp at member
      · rename_i few
        split
        · rename_i ecm
          constructor
          · rintro within q same _ _
            obtain rfl : p = q := by simpa using same
            exact (checked_iff ecm).mp (within _ rfl)
          · intro fits checked member
            obtain rfl : checkEcm (s.serialdata.auth p) s.buf er = checked := by
              simpa using member
            exact (checked_iff ecm).mpr (fits p rfl (by omega) ecm)
        · rename_i other
          constructor
          · intro _ q _ _ ecm
            exact absurd ecm other
          · intro _ checked member
            simp at member
  | start => simp
  | incomplete => simp
  | unknown => simp
  | silent => simp
  | garbage => simp

/-- `mbuf` of `oscam_ser_server`. -/
abbrev mbufSize : Nat := 1024

/-- What arrives in one turn of the server. -/
structure Turn where
  serialdata : SerialClient
  line : List (Option UInt8)
  er : EcmRequest

namespace Turn

/-- The message in the buffer of the server. -/
def receipt (turn : Turn) : Receipt :=
  oscamSerRecv mbufSize turn.serialdata turn.line

/-- The message in a buffer with room for the whole line. -/
def message (turn : Turn) : Receipt :=
  oscamSerRecv (turn.line.length + mbufSize) turn.serialdata turn.line

/-- The buffer is not written beyond its end, and all copies are in range. -/
def InBounds (turn : Turn) : Prop :=
  turn.receipt.written ≤ mbufSize ∧
    ∀ checked ∈ serve turn.receipt turn.er, CopiesWithin turn.receipt checked

/-- The message, with what is flushed behind it, is shorter than the buffer,
and its length field is small enough. -/
def Fits (turn : Turn) : Prop :=
  turn.message.size < mbufSize ∧ LengthFits turn.message

theorem turn_inBounds_iff (turn : Turn) : turn.InBounds ↔ turn.Fits := by
  have limited := limited_oscamSerRecv turn.serialdata
  have le : mbufSize ≤ turn.line.length + mbufSize := Nat.le_add_left _ _
  have written : turn.receipt.written ≤ mbufSize ↔
      turn.receipt.size < mbufSize := by
    simp only [Receipt.written, Receipt.size, mbufSize]
    omega
  have short : turn.receipt.size < mbufSize ↔ turn.message.size < mbufSize :=
    limited.lt_iff le
  rw [InBounds, Fits, written, ← short]
  apply and_congr_right
  intro below
  have same : turn.receipt = turn.message := limited.agrees le (Or.inl below)
  rw [← same]
  exact serve_within_iff
    (fun p taken => oscamSerRecv_complete below taken) below

end Turn

end Serial

end Oscam
