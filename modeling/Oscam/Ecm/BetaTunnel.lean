import Oscam.Ecm.Dispatch
import Oscam.Stat.Distinct

/-!
# ECMs in a betacrypt tunnel

`convert_to_beta` puts ten bytes of a header in front of the payload of a Nagra
ECM.  It takes the length of the payload from one byte of the section and
writes the new length into one byte.  `cs_betatunnel` calls it for the tunnels
of an account and `convert_to_beta_int` for those of the load balancer.
-/

namespace Oscam

/-- The section of `beta` is that of `er` with ten bytes more in front of its
payload. -/
structure Betacrypted (er beta : EcmRequest) : Prop where
  longer : beta.l = er.l + 10
  field : ecmLen beta = beta.l
  payload : ∀ i : Nat, 13 ≤ i → (i : Int) < beta.l →
    beta.ecmByte i = er.ecmByte (i - 10)

/-- What `convert_to_beta` does with the bytes of a section.  The first half of
the length field is cleared only in a long one. -/
structure Converted (er beta : EcmRequest) : Prop where
  l : beta.l = (er.ecmByte 2 + 13 : Nat)
  high : beta.ecmByte 1 =
    if er.ecmByte 2 + 3 > 0x88 then 0x70 else er.ecmByte 1
  low : beta.ecmByte 2 = (er.ecmByte 2 + 10) % 256
  payload : ∀ i, i < er.ecmByte 2 → beta.ecmByte (13 + i) = er.ecmByte (3 + i)

theorem EcmRequest.ecmByte_lt (er : EcmRequest) (i : Nat) :
    er.ecmByte i < 256 := UInt8.toNat_lt _

theorem ecmLen_eq (er : EcmRequest) :
    ecmLen er = ((er.ecmByte 1 % 16) * 256 + er.ecmByte 2 : Nat) + 3 := rfl

namespace Converted

variable {er beta : EcmRequest}

theorem ecmLen (converted : Converted er beta) :
    Oscam.ecmLen beta =
      ((if er.ecmByte 2 + 3 > 0x88 then 0 else er.ecmByte 1 % 16) * 256 +
        (er.ecmByte 2 + 10) % 256 : Nat) + 3 := by
  rw [ecmLen_eq, converted.high, converted.low]
  split
  · rfl
  · rfl

/-- Up to 248 bytes the new length fits into the one byte, and the old length
is in it as well. -/
theorem betacrypted_iff (converted : Converted er beta)
    (whole : er.l = Oscam.ecmLen er) : Betacrypted er beta ↔ er.l ≤ 248 := by
  have low := er.ecmByte_lt 2
  rw [ecmLen_eq] at whole
  constructor
  · intro formed
    have longer := formed.longer
    have field := formed.field
    rw [converted.l] at longer
    rw [converted.ecmLen, converted.l] at field
    split at field
    · omega
    · omega
  · intro short
    have onlyLow : er.ecmByte 1 % 16 = 0 := by omega
    refine ⟨?_, ?_, ?_⟩
    · rw [converted.l]
      omega
    · rw [converted.ecmLen, converted.l, onlyLow]
      split
      · omega
      · omega
    · intro i behind inside
      rw [converted.l] at inside
      have payload := converted.payload (i - 13) (by omega)
      have front : 13 + (i - 13) = i := by omega
      have back : 3 + (i - 13) = i - 10 := by omega
      rwa [front, back] at payload

end Converted

/-! ## The tunnels of an account -/

/-- The header of ten bytes is in front of the payload. -/
theorem ecm_convertToBeta (er : EcmRequest) (caidto : Nat) :
    ∃ header : List UInt8, header.length = 13 ∧
      (convertToBeta er caidto).ecm =
        header ++ (er.ecm.drop 3).take (er.ecmByte 2) := by
  by_cases long : er.ecmByte 2 + 3 > 0x88
  · refine ⟨[er.ecm.getD 0 0, 0x70, UInt8.ofNat (er.ecmByte 2 + 10), 0xc7,
      0x00, 0x00, 0x00, 0x01, 0x10, 0x10, 0x00, 0x87,
      if er.ecmByte 0 = 0x81 then 0x13 else 0x12], rfl, ?_⟩
    simp only [convertToBeta, if_pos long, Nat.add_sub_cancel]
    rfl
  · refine ⟨[er.ecm.getD 0 0, er.ecm.getD 1 0,
      UInt8.ofNat (er.ecmByte 2 + 10), 0xc9, 0x00, 0x00, 0x00, 0x01, 0x10,
      0x10, 0x00, 0x48, 0x12], rfl, ?_⟩
    simp only [convertToBeta, if_neg long, Nat.add_sub_cancel]
    rfl

/-- A byte of the payload behind a header. -/
theorem getD_header {header payload : List UInt8} (length : header.length = 13)
    (i : Nat) : (header ++ payload).getD (13 + i) 0 = payload.getD i 0 := by
  have behind : header.length ≤ 13 + i := by omega
  have place : 13 + i - header.length = i := by omega
  rw [List.getD_append_right _ _ _ _ behind, place]

theorem converted_convertToBeta (er : EcmRequest) (caidto : Nat) :
    Converted er (convertToBeta er caidto) where
  l := rfl
  high := by
    have second : (convertToBeta er caidto).ecmByte 1 =
        (if er.ecmByte 2 + 3 > 0x88 then (0x70 : UInt8)
          else er.ecm.getD 1 0).toNat := rfl
    rw [second]
    split
    · rfl
    · rfl
  low := UInt8.toNat_ofNat'
  payload := by
    intro i inside
    obtain ⟨header, length, bytes⟩ := ecm_convertToBeta er caidto
    have byte : ((er.ecm.drop 3).take (er.ecmByte 2)).getD i 0 =
        er.ecm.getD (3 + i) 0 := by
      simp only [List.getD_eq_getElem?_getD, List.getElem?_take_of_lt inside,
        List.getElem?_drop]
    unfold EcmRequest.ecmByte
    rw [bytes, getD_header length, byte]

/-! ## The tunnels of the load balancer -/

namespace Stat

theorem ecm_convertToBeta (er : EcmRequest) (caidto : Nat) :
    ∃ header : List UInt8, header.length = 13 ∧
      (convertToBeta er caidto).ecm =
        header ++ ((List.range (er.ecmByte 2)).map fun i =>
          UInt8.ofNat (er.ecmByte (3 + i))) ++
        er.ecm.drop (13 + er.ecmByte 2) := by
  by_cases long : er.ecmByte 2 + 3 > 0x88
  · refine ⟨_, ?_, by simp only [convertToBeta, if_pos long]; rfl⟩
    rfl
  · refine ⟨_, ?_, by simp only [convertToBeta, if_neg long]; rfl⟩
    rfl

theorem converted_convertToBeta (er : EcmRequest) (caidto : Nat) :
    Converted er (convertToBeta er caidto) where
  l := rfl
  high := by
    have second : (convertToBeta er caidto).ecmByte 1 =
        (if er.ecmByte 2 + 3 > 0x88 then (0x70 : UInt8)
          else UInt8.ofNat (er.ecmByte 1)).toNat := rfl
    rw [second]
    split
    · rfl
    · exact UInt8.toNat_ofNat_of_lt' (er.ecmByte_lt 1)
  low := UInt8.toNat_ofNat'
  payload := by
    intro i inside
    obtain ⟨header, length, bytes⟩ := ecm_convertToBeta er caidto
    have short : i < ((List.range (er.ecmByte 2)).map fun i =>
        UInt8.ofNat (er.ecmByte (3 + i))).length := by
      rwa [List.length_map, List.length_range]
    unfold EcmRequest.ecmByte
    rw [bytes, List.append_assoc, getD_header length,
      List.getD_append _ _ _ _ short, List.getD_eq_getElem _ _ short,
      List.getElem_map, List.getElem_range]
    exact UInt8.toNat_ofNat_of_lt' (er.ecmByte_lt (3 + i))

theorem converted_convertToBetaInt (env : LbEnv) (er : EcmRequest)
    (caidTo : Nat) : Converted er (convertToBetaInt env er caidTo) := by
  have converted := converted_convertToBeta er caidTo
  exact ⟨converted.l, converted.high, converted.low, converted.payload⟩

end Stat

/-! ## When the section is right -/

/-- Of both conversions. -/
theorem betacrypted_iff_short (env : Stat.LbEnv) (caidto : Nat)
    {er : EcmRequest} (whole : er.l = ecmLen er) :
    (Betacrypted er (convertToBeta er caidto) ↔ er.l ≤ 248) ∧
      (Betacrypted er (Stat.convertToBetaInt env er caidto) ↔ er.l ≤ 248) :=
  ⟨(converted_convertToBeta er caidto).betacrypted_iff whole,
    (Stat.converted_convertToBetaInt env er caidto).betacrypted_iff whole⟩

/-- A Nagra section with `n` bytes of payload. -/
def nagraRequest (n : Nat) : EcmRequest :=
  { EcmRequest.zero with
    caid := 0x1801, l := n + 3
    ecm := [0x80, UInt8.ofNat (0x30 + n / 256), UInt8.ofNat n] ++
      List.replicate n 0x07 }

theorem betacrypted_iff_short_nagra :
    (nagraRequest 0x86).l = ecmLen (nagraRequest 0x86) ∧
      Betacrypted (nagraRequest 0x86) (convertToBeta (nagraRequest 0x86) 0x1722) :=
  ⟨by decide, (betacrypted_iff_short Stat.slowEnv 0x1722 (by decide)).1.mpr
    (by decide)⟩

/-- The length field of a section of 249 bytes becomes zero. -/
theorem not_betacrypted_long :
    ¬ ∀ (er : EcmRequest) (caidto : Nat), er.caid / 256 = 0x18 →
      er.l = ecmLen er → er.l ≤ 502 →
      Betacrypted er (convertToBeta er caidto) := by
  intro always
  have formed := always (nagraRequest 0xf6) 0x1722 (by decide) (by decide)
    (by decide)
  have short := ((converted_convertToBeta _ 0x1722).betacrypted_iff
    (by decide)).mp formed
  revert short
  decide

end Oscam
