import Oscam.Ecm.ClassNanos

/-!
# The provider of an ECM

When the provider that `chk_provid` finds depends on the section alone, and
both walkers together.
-/

namespace Oscam.Nanos

open Memory

variable {ecm : Memory} {l : Nat}

/-! ## Provider nanos in the section -/

/-- Where the provider nano is, behind the d2 nano at `start` as far as it is
in the section. -/
def nanoPlace (ecm : Memory) (l start : Nat) : Nat :=
  if start < l ∧ ecm start = 0xD2 then
    start + ((if start + 1 < l then (ecm (start + 1)).toNat else 0) + 2)
  else start

def IsProvider (ecm : Memory) (length : UInt8) (place : Nat) : Prop :=
  ecm (place + 1) = length ∧ (ecm place = 0x90 ∨ ecm place = 0x40)

instance (ecm : Memory) (length : UInt8) (place : Nat) :
    Decidable (IsProvider ecm length place) :=
  inferInstanceAs (Decidable (_ ∧ _))

/-- The provider is in the section, or one of the two bytes in front of it is
there and says that it is none. -/
def ProviderKnown (ecm : Memory) (l start : Nat) (length : UInt8) : Prop :=
  let place := nanoPlace ecm l start
  place + 4 < l ∨ place + 1 < l ∧ ecm (place + 1) ≠ length ∨
    place < l ∧ ¬ (ecm place = 0x90 ∨ ecm place = 0x40)

/-- For cryptoworks: the provider byte is in the section, and the byte behind
each descriptor in the buffer. -/
def DescriptorsInside (ecm : Memory) (l : Nat) : Nat → Nat → Prop
  | 0, _ => True
  | n + 1, i =>
      i < l → i + 1 < 512 ∧
        if ecm i = 0x83 then i + 2 < l ∧ i + 2 < 512
        else i + 1 < l →
          DescriptorsInside ecm l n (i + ((ecm (i + 1)).toNat + 2))

/-- The condition for `chk_provid`. -/
def ProvidInside (caid : Nat) (ecm : Memory) (l : Nat) : Prop :=
  if caid / 256 = 0x01 then 5 ≤ l
  else if caid / 256 = 0x05 then
    ProviderKnown ecm l 6 7 ∧
      (IsProvider ecm 7 (nanoPlace ecm l 6) ∨ ProviderKnown ecm l 4 3)
  else if caid / 256 = 0x0D then DescriptorsInside ecm l l 8
  else True

/-! ### Seca -/

theorem byteAt_of_lt {i : Nat} (room : i < 512) (ecm : Memory) :
    byteAt ecm i = some (ecm i) := within_of_lt room ecm

theorem b2i_two {i : Nat} (room : i + 1 < 512) (ecm : Memory) :
    b2i 2 ecm i = some ((ecm i).toNat * 256 + (ecm (i + 1)).toNat) := by
  show ((byteAt ecm i).bind fun first =>
    (byteAt ecm (i + 1)).map fun second => _) = _
  rw [byteAt_of_lt (by omega), byteAt_of_lt room]
  rfl

theorem b2i_three {i : Nat} (room : i + 2 < 512) (ecm : Memory) :
    b2i 3 ecm i = some ((ecm i).toNat * 65536 + (ecm (i + 1)).toNat * 256 +
      (ecm (i + 2)).toNat) := by
  show ((byteAt ecm i).bind fun first => (byteAt ecm (i + 1)).bind fun second =>
    (byteAt ecm (i + 2)).map fun third => _) = _
  rw [byteAt_of_lt (by omega), byteAt_of_lt (by omega), byteAt_of_lt room]
  rfl

theorem b2i_two_fixed_iff (ecm : Memory) (l : Nat) :
    FixedBy l (fun m => b2i 2 m 3) ecm ↔ 5 ≤ l := by
  constructor
  · intro ⟨provid, fixed⟩
    by_contra short
    have run (byte : UInt8) :
        ((continued l ecm fun _ => byte) 3).toNat * 256 + byte.toNat =
          provid := by
      have value : b2i 2 (continued l ecm fun _ => byte) 3 = some provid :=
        fixed _ (agree_continued l ecm fun _ => byte)
      rw [b2i_two (by omega), continued_of_le (i := 3 + 1) (by omega)] at value
      exact Option.some.inj value
    have zero := run 0
    have one := run 1
    have bytes : (0 : UInt8).toNat = 0 ∧ (1 : UInt8).toNat = 1 := ⟨rfl, rfl⟩
    by_cases third : 3 < l
    · rw [agree_continued l ecm _ 3 third] at zero one
      omega
    · rw [continued_of_le (by omega)] at zero one
      omega
  · intro long
    refine ⟨(ecm 3).toNat * 256 + (ecm 4).toNat, fun other agree => ?_⟩
    have value := b2i_two (i := 3) (by omega) other
    rwa [agree 3 (by omega), agree 4 (by omega)] at value

/-! ### Viaccess -/

/-- What `chk_provid` makes of a provider nano. -/
def providerOr (m : Memory) (length : UInt8) (place provid : Nat) : Nat :=
  if IsProvider m length place then
    ((m (place + 2)).toNat * 65536 + (m (place + 3)).toNat * 256 +
      (m (place + 4)).toNat) &&& 0xFFFFF0
  else provid

/-- The place of the nano in the whole buffer. -/
def placeIn (m : Memory) (start : Nat) : Nat :=
  if m start = 0xD2 then start + ((m (start + 1)).toNat + 2) else start

theorem placeIn_le (m : Memory) (start : Nat) :
    placeIn m start ≤ start + 257 := by
  have low := (m (start + 1)).toNat_lt
  unfold placeIn
  split
  · omega
  · omega

theorem viaccessNano_eq {start : Nat} (front : start ≤ 6) (m : Memory)
    (length : UInt8) (provid : Nat) :
    viaccessNano m start length provid =
      some (providerOr m length (placeIn m start) provid) := by
  have far := placeIn_le m start
  have skip : (if m start = 0xD2 then
        (byteAt m (start + 1)).map fun skip => skip.toNat + 2
      else some 0) = some (placeIn m start - start) := by
    unfold placeIn
    rw [byteAt_of_lt (by omega)]
    split
    · rw [Nat.add_sub_cancel_left]
      rfl
    · rw [Nat.sub_self]
  have start_le : start ≤ placeIn m start := by
    unfold placeIn
    split
    · omega
    · omega
  have first : start + (placeIn m start - start) = placeIn m start := by omega
  have second : start + 1 + (placeIn m start - start) = placeIn m start + 1 := by
    omega
  have third : start + 2 + (placeIn m start - start) = placeIn m start + 2 := by
    omega
  unfold viaccessNano
  rw [byteAt_of_lt (by omega), Option.bind_some, skip, Option.bind_some,
    first, second, third, byteAt_of_lt (by omega), Option.bind_some,
    byteAt_of_lt (by omega), Option.bind_some]
  rw [b2i_three (by omega)]
  by_cases right : m (placeIn m start + 1) = length
  · by_cases tag : m (placeIn m start) = 0x90 ∨ m (placeIn m start) = 0x40
    · have here : IsProvider m length (placeIn m start) := ⟨right, tag⟩
      rw [if_pos right, if_pos tag, providerOr, if_pos here]
      rfl
    · have other : ¬ IsProvider m length (placeIn m start) :=
        fun here => tag here.2
      rw [if_pos right, if_neg tag, providerOr, if_neg other]
  · have other : ¬ IsProvider m length (placeIn m start) :=
      fun here => right here.1
    rw [if_neg right, providerOr, if_neg other]

section
variable {start : Nat} {length : UInt8} {other : Memory}

theorem nanoPlace_of_known (known : ProviderKnown ecm l start length)
    (agree : Agree l ecm other) : placeIn other start = nanoPlace ecm l start := by
  have inside : nanoPlace ecm l start < l := by
    rcases known with whole | ⟨inside, -⟩ | ⟨inside, -⟩
    · omega
    · omega
    · exact inside
  unfold placeIn
  unfold nanoPlace at inside ⊢
  by_cases skips : start < l ∧ ecm start = 0xD2
  · rw [if_pos skips] at inside ⊢
    have near : start + 1 < l := by
      by_contra far
      rw [if_neg far] at inside
      omega
    rw [if_pos near, agree start skips.1, if_pos skips.2,
      agree (start + 1) near]
  · rw [if_neg skips] at inside ⊢
    rw [agree start inside, if_neg fun nano => skips ⟨inside, nano⟩]

/-- What is known about the nano is the same in both buffers. -/
theorem isProvider_iff_of_known (known : ProviderKnown ecm l start length)
    (agree : Agree l ecm other) :
    IsProvider other length (nanoPlace ecm l start) ↔
      IsProvider ecm length (nanoPlace ecm l start) := by
  unfold IsProvider
  rcases known with whole | ⟨inside, differs⟩ | ⟨inside, differs⟩
  · rw [agree _ (by omega), agree _ (by omega)]
  · rw [agree _ inside]
    exact iff_of_false (fun both => differs both.1) fun both => differs both.1
  · rw [agree (nanoPlace ecm l start) inside]
    exact iff_of_false (fun both => differs both.2) fun both => differs both.2

theorem providerOr_of_known (known : ProviderKnown ecm l start length)
    (agree : Agree l ecm other) (provid : Nat) :
    providerOr other length (nanoPlace ecm l start) provid =
      providerOr ecm length (nanoPlace ecm l start) provid := by
  have same := isProvider_iff_of_known known agree
  unfold providerOr
  by_cases here : IsProvider ecm length (nanoPlace ecm l start)
  · have whole : nanoPlace ecm l start + 4 < l := by
      rcases known with whole | ⟨-, differs⟩ | ⟨-, differs⟩
      · exact whole
      · exact absurd here.1 differs
      · exact absurd here.2 differs
    rw [if_pos (same.mpr here), if_pos here, agree _ whole,
      agree (_ + 2) (by omega), agree (_ + 3) (by omega)]
  · rw [if_neg fun there => here (same.mp there), if_neg here]

/-- A buffer in which an unknown nano is a provider that ends in `byte`. -/
def completed (ecm : Memory) (l start : Nat) (length byte : UInt8) : Memory :=
  continued l ecm fun i =>
    if i = nanoPlace ecm l start then 0x90
    else if i = nanoPlace ecm l start + 1 then length
    else if i = nanoPlace ecm l start + 4 then byte
    else 0

theorem agree_completed (ecm : Memory) (l start : Nat) (length byte : UInt8) :
    Agree l ecm (completed ecm l start length byte) :=
  agree_continued l ecm _

theorem placeIn_completed (ecm : Memory) (l start : Nat)
    (length byte : UInt8) :
    placeIn (completed ecm l start length byte) start =
      nanoPlace ecm l start := by
  have agree := agree_completed ecm l start length byte
  by_cases inside : start < l
  · by_cases nano : ecm start = 0xD2
    · by_cases near : start + 1 < l
      · rw [placeIn, agree start inside, if_pos nano, agree _ near, nanoPlace,
          if_pos ⟨inside, nano⟩, if_pos near]
      · have place : nanoPlace ecm l start = start + 2 := by
          rw [nanoPlace, if_pos ⟨inside, nano⟩, if_neg near]
        have skip : completed ecm l start length byte (start + 1) = 0 := by
          rw [completed, continued_of_le (by omega), place,
            if_neg (by omega), if_neg (by omega), if_neg (by omega)]
        rw [placeIn, agree start inside, if_pos nano, skip, place]
        rfl
    · rw [placeIn, agree start inside, if_neg nano, nanoPlace,
        if_neg fun both => nano both.2]
  · have place : nanoPlace ecm l start = start :=
      if_neg fun both => inside both.1
    have first : completed ecm l start length byte start = 0x90 := by
      rw [completed, continued_of_le (by omega), place, if_pos rfl]
    rw [placeIn, first, place]
    rfl

theorem isProvider_completed (unknown : ¬ ProviderKnown ecm l start length)
    (byte : UInt8) :
    IsProvider (completed ecm l start length byte) length
      (nanoPlace ecm l start) := by
  have agree := agree_completed ecm l start length byte
  constructor
  · by_cases inside : nanoPlace ecm l start + 1 < l
    · rw [agree _ inside]
      by_contra differs
      exact unknown (.inr (.inl ⟨inside, differs⟩))
    · rw [completed, continued_of_le (by omega), if_neg (by omega),
        if_pos rfl]
  · by_cases inside : nanoPlace ecm l start < l
    · rw [agree _ inside]
      by_contra differs
      exact unknown (.inr (.inr ⟨inside, differs⟩))
    · left
      rw [completed, continued_of_le (by omega), if_pos rfl]

/-- The last byte of an unknown provider is free. -/
theorem providerOr_completed (unknown : ¬ ProviderKnown ecm l start length)
    (byte : UInt8) (provid : Nat) :
    providerOr (completed ecm l start length byte) length
        (nanoPlace ecm l start) provid =
      ((completed ecm l start length 0 (nanoPlace ecm l start + 2)).toNat *
          65536 +
        (completed ecm l start length 0 (nanoPlace ecm l start + 3)).toNat *
          256 + byte.toNat) &&& 0xFFFFF0 := by
  have free : l ≤ nanoPlace ecm l start + 4 := by
    by_contra whole
    exact unknown (.inl (by omega))
  have last : completed ecm l start length byte (nanoPlace ecm l start + 4) =
      byte := by
    rw [completed, continued_of_le free, if_neg (by omega), if_neg (by omega),
      if_pos rfl]
  have rest (i : Nat) (other : i ≠ nanoPlace ecm l start + 4) :
      completed ecm l start length byte i =
        completed ecm l start length 0 i := by
    unfold completed continued
    simp only [if_neg other]
  rw [providerOr, if_pos (isProvider_completed unknown byte), last,
    rest _ (by omega), rest (_ + 3) (by omega)]

/-- Its last byte is seen in the provider. -/
theorem providerOr_completed_ne (unknown : ¬ ProviderKnown ecm l start length)
    (provid other : Nat) :
    providerOr (completed ecm l start length 0) length
        (nanoPlace ecm l start) provid ≠
      providerOr (completed ecm l start length 16) length
        (nanoPlace ecm l start) other := by
  rw [providerOr_completed unknown, providerOr_completed unknown]
  intro same
  have bit := congrArg (Nat.testBit · 4) same
  have zero : (0 : UInt8).toNat = 0 := rfl
  have sixteen : (16 : UInt8).toNat = 16 := rfl
  have mask : Nat.testBit 0xFFFFF0 4 = true := by decide
  simp only [Nat.testBit_and, mask, Bool.and_true] at bit
  simp only [Nat.testBit_eq_decide_div_mod_eq, zero, sixteen] at bit
  have parts := decide_eq_decide.mp bit
  omega

end

theorem viaccess_fixed_iff (ecm : Memory) (l : Nat) :
    FixedBy l (fun m => (viaccessNano m 4 3 0).bind fun provid =>
      viaccessNano m 6 7 provid) ecm ↔
      ProviderKnown ecm l 6 7 ∧
        (IsProvider ecm 7 (nanoPlace ecm l 6) ∨ ProviderKnown ecm l 4 3) := by
  have value (m : Memory) : (viaccessNano m 4 3 0).bind (fun provid =>
      viaccessNano m 6 7 provid) = some (providerOr m 7 (placeIn m 6)
        (providerOr m 3 (placeIn m 4) 0)) := by
    rw [viaccessNano_eq (by omega), Option.bind_some,
      viaccessNano_eq (by omega)]
  rw [FixedBy.congr fun other _ => value other]
  constructor
  · intro fixed
    have second : ProviderKnown ecm l 6 7 := by
      by_contra unknown
      have zero := fixed.same (agree_completed ecm l 6 7 0)
      have sixteen := fixed.same (agree_completed ecm l 6 7 16)
      have same := Option.some.inj (zero.trans sixteen.symm)
      rw [placeIn_completed, placeIn_completed] at same
      exact providerOr_completed_ne unknown _ _ same
    refine ⟨second, ?_⟩
    by_contra neither
    have none : ¬ IsProvider ecm 7 (nanoPlace ecm l 6) :=
      fun here => neither (.inl here)
    have unknown : ¬ ProviderKnown ecm l 4 3 :=
      fun known => neither (.inr known)
    have run (byte : UInt8) :
        providerOr (completed ecm l 4 3 byte) 7
            (placeIn (completed ecm l 4 3 byte) 6)
            (providerOr (completed ecm l 4 3 byte) 3
              (placeIn (completed ecm l 4 3 byte) 4) 0) =
          providerOr (completed ecm l 4 3 byte) 3 (nanoPlace ecm l 4) 0 := by
      have agree := agree_completed ecm l 4 3 byte
      rw [nanoPlace_of_known second agree, placeIn_completed, providerOr,
        if_neg fun here => none ((isProvider_iff_of_known second agree).mp here)]
    have zero := fixed.same (agree_completed ecm l 4 3 0)
    have sixteen := fixed.same (agree_completed ecm l 4 3 16)
    have same := Option.some.inj (zero.trans sixteen.symm)
    rw [run, run] at same
    exact providerOr_completed_ne unknown _ _ same
  · intro ⟨second, either⟩
    refine ⟨providerOr ecm 7 (nanoPlace ecm l 6)
      (providerOr ecm 3 (nanoPlace ecm l 4) 0), fun other agree => ?_⟩
    apply congrArg some
    rw [nanoPlace_of_known second agree]
    rcases either with here | first
    · have there := (isProvider_iff_of_known second agree).mpr here
      have same := providerOr_of_known second agree 0
      rw [providerOr, if_pos there, providerOr, if_pos here] at same
      rw [providerOr, if_pos there, providerOr, if_pos here, same]
    · rw [nanoPlace_of_known first agree, providerOr_of_known first agree,
        providerOr_of_known second agree]

/-! ### Cryptoworks -/

theorem cryptoworksLoop_end {n i : Nat} (behind : l ≤ i) (m : Memory) :
    cryptoworksLoop m l n i = some 0 := by
  cases n with
  | zero => rfl
  | succ n => exact if_neg (by omega)

/-- The provider is behind the section. -/
theorem not_fixed_provider {i : Nat} (behind : l ≤ i + 2) :
    ¬ FixedBy l (fun m => (byteAt m (i + 2)).map fun provid =>
      provid.toNat &&& 0xFE) ecm := by
  have free : FixedBy l (fun m => (byteAt m (i + 2)).map fun provid =>
      provid.toNat &&& 0xFE) ecm ↔ i + 2 < 512 ∧
        ∃ value, ∀ byte : UInt8, byte.toNat &&& 0xFE = value :=
    FixedBy.behind_iff behind
  intro fixed
  obtain ⟨-, value, same⟩ := free.mp fixed
  have differ := (same 0).trans (same 2).symm
  exact absurd differ (by decide)

/-- The turn with a descriptor in the section. -/
theorem descriptor_fixed_iff {n i : Nat} (inside : i < l)
    (rest : ∀ i, FixedBy l (fun m => cryptoworksLoop m l n i) ecm ↔
      DescriptorsInside ecm l n i) :
    FixedBy l (fun m => (byteAt m (i + 1)).bind fun descriptorLength =>
        (byteAt m i).bind fun descriptor =>
          if descriptor = 0x83 then
            (byteAt m (i + 2)).map fun provid => provid.toNat &&& 0xFE
          else cryptoworksLoop m l n (i + (descriptorLength.toNat + 2))) ecm ↔
      i + 1 < 512 ∧
        if ecm i = 0x83 then i + 2 < l ∧ i + 2 < 512
        else i + 1 < l →
          DescriptorsInside ecm l n (i + ((ecm (i + 1)).toNat + 2)) := by
  by_cases room : i + 1 < 512
  · rw [and_iff_right room]
    have turn (m : Memory) (agree : Agree l ecm m) :
        ((byteAt m (i + 1)).bind fun descriptorLength =>
          (byteAt m i).bind fun descriptor =>
            if descriptor = 0x83 then
              (byteAt m (i + 2)).map fun provid => provid.toNat &&& 0xFE
            else cryptoworksLoop m l n (i + (descriptorLength.toNat + 2))) =
          if ecm i = 0x83 then
            (byteAt m (i + 2)).map fun provid => provid.toNat &&& 0xFE
          else cryptoworksLoop m l n (i + ((m (i + 1)).toNat + 2)) := by
      rw [byteAt_of_lt room, Option.bind_some, byteAt_of_lt (by omega),
        Option.bind_some, agree i inside]
    rw [FixedBy.congr turn]
    by_cases provider : ecm i = 0x83
    · simp only [if_pos provider]
      constructor
      · intro fixed
        have near : i + 2 < l := by
          by_contra behind
          exact not_fixed_provider (by omega) fixed
        refine ⟨near, ?_⟩
        by_contra outside
        have here := fixed.not_none (Agree.refl l ecm)
        unfold byteAt at here
        rw [within_of_le (by omega)] at here
        exact here rfl
      · intro ⟨near, room⟩
        refine ⟨(ecm (i + 2)).toNat &&& 0xFE, fun other agree => ?_⟩
        show (byteAt other (i + 2)).map _ = _
        rw [byteAt_of_lt room, agree _ near]
        rfl
    · simp only [if_neg provider]
      by_cases near : i + 1 < l
      · have same (m : Memory) (agree : Agree l ecm m) :
            cryptoworksLoop m l n (i + ((m (i + 1)).toNat + 2)) =
              cryptoworksLoop m l n (i + ((ecm (i + 1)).toNat + 2)) := by
          rw [agree _ near]
        rw [FixedBy.congr same, rest]
        exact ⟨fun inside _ => inside, fun inside => inside near⟩
      · refine iff_of_true ⟨0, fun other _ => ?_⟩ fun here => absurd here near
        exact cryptoworksLoop_end (by omega) other
  · refine iff_of_false (fun fixed => ?_) fun both => room both.1
    have here := fixed.not_none (Agree.refl l ecm)
    unfold byteAt at here
    rw [within_of_le (by omega)] at here
    exact here rfl

theorem cryptoworksLoop_fixed_iff (n i : Nat) :
    FixedBy l (fun m => cryptoworksLoop m l n i) ecm ↔
      DescriptorsInside ecm l n i := by
  induction n generalizing i with
  | zero => exact iff_of_true (FixedBy.const l 0 ecm) trivial
  | succ n induction =>
      unfold DescriptorsInside
      by_cases inside : i < l
      · have turn (m : Memory) (_ : Agree l ecm m) :
            cryptoworksLoop m l (n + 1) i =
              (byteAt m (i + 1)).bind fun descriptorLength =>
              (byteAt m i).bind fun descriptor =>
                if descriptor = 0x83 then
                  (byteAt m (i + 2)).map fun provid => provid.toNat &&& 0xFE
                else cryptoworksLoop m l n
                  (i + (descriptorLength.toNat + 2)) := if_pos inside
        rw [FixedBy.congr turn, descriptor_fixed_iff inside induction]
        exact ⟨fun known _ => known, fun known => known inside⟩
      · refine iff_of_true ⟨0, fun other _ => ?_⟩ fun here => absurd here inside
        exact cryptoworksLoop_end (by omega) other

/-- The section that the header announces. -/
theorem sectionLength_eq {l : Nat} {ecm other : Memory}
    (whole : l = ecmLength ecm 1 + 3) (agree : Agree l ecm other) :
    ((other 1).toNat &&& 0xf) * 256 + (other 2).toNat + 3 = l := by
  have low : (other 1).toNat &&& 0xf = (other 1).toNat % 16 :=
    Nat.and_two_pow_sub_one_eq_mod _ 4
  rw [low, agree 1 (by omega), agree 2 (by omega), whole]
  rfl

theorem chkProvid_fixed_iff (caid : Nat) {ecm : Memory} {l : Nat}
    (whole : l = ecmLength ecm 1 + 3) :
    FixedBy l (fun m => chkProvid m caid) ecm ↔ ProvidInside caid ecm l := by
  unfold chkProvid ProvidInside
  by_cases seca : caid / 256 = 0x01
  · simp only [if_pos seca]
    exact b2i_two_fixed_iff ecm l
  · by_cases viaccess : caid / 256 = 0x05
    · simp only [if_neg seca, if_pos viaccess]
      exact viaccess_fixed_iff ecm l
    · by_cases cryptoworks : caid / 256 = 0x0D
      · simp only [if_neg seca, if_neg viaccess, if_pos cryptoworks]
        rw [← cryptoworksLoop_fixed_iff]
        apply FixedBy.congr
        intro other agree
        have length := sectionLength_eq whole agree
        rw [byteAt_of_lt (by omega), Option.bind_some,
          byteAt_of_lt (by omega), Option.bind_some, length]
      · simp only [if_neg seca, if_neg viaccess, if_neg cryptoworks]
        exact iff_of_true (FixedBy.const l 0 ecm) trivial

/-! ## Both walkers -/

/-- Both results are the same for every buffer with the same section, and no
byte outside of the buffer is read. -/
def Confined (caid : Nat) (tab : Classtab) (ecm : Memory) (l : Nat) : Prop :=
  ∀ other, Agree l ecm other →
    chkClass caid tab other l = chkClass caid tab ecm l ∧
      chkClass caid tab other l ≠ none ∧
      chkProvid other caid = chkProvid ecm caid ∧ chkProvid other caid ≠ none

theorem confined_iff_fixed (caid : Nat) (tab : Classtab) (ecm : Memory)
    (l : Nat) :
    Confined caid tab ecm l ↔
      FixedBy l (fun m => chkClass caid tab m l) ecm ∧
        FixedBy l (fun m => chkProvid m caid) ecm := by
  constructor
  · intro confined
    obtain ⟨-, inClass, -, inProvid⟩ := confined ecm (Agree.refl l ecm)
    obtain ⟨verdict, passed⟩ := Option.ne_none_iff_exists'.mp inClass
    obtain ⟨provid, found⟩ := Option.ne_none_iff_exists'.mp inProvid
    refine ⟨⟨verdict, fun other agree => ?_⟩, provid, fun other agree => ?_⟩
    · exact (confined other agree).1.trans passed
    · exact (confined other agree).2.2.1.trans found
  · intro ⟨inClass, inProvid⟩ other agree
    exact ⟨inClass.same agree, inClass.not_none agree, inProvid.same agree,
      inProvid.not_none agree⟩

theorem confined_iff (caid : Nat) (tab : Classtab) {ecm : Memory} {l : Nat}
    (whole : l = ecmLength ecm 1 + 3) :
    Confined caid tab ecm l ↔
      ClassInside caid tab ecm l ∧ ProvidInside caid ecm l := by
  rw [confined_iff_fixed, chkClass_fixed_iff, chkProvid_fixed_iff caid whole]

/-- A Viaccess section with a provider and a class. -/
def viaccessSection : Memory := fun i =>
  [0x80, 0x30, 0x09, 0x00, 0x90, 0x03, 0x03, 0x06, 0x00, 0xE2, 0x01,
    0x20].getD i 0

def oneClass : Classtab :=
  { aclass := [], bclass := [0x10], an := by decide, bn := by decide }

theorem confined_iff_viaccess : Confined 0x0500 oneClass viaccessSection 12 := by
  apply (confined_iff 0x0500 oneClass (by decide)).mpr
  constructor
  · intro _ _
    have first : findNano viaccessSection 12 csNanoClass 0 = some 10 := by decide
    have second : findNano viaccessSection 12 csNanoClass 11 = some 0 := by
      decide
    have rest : ClassesInside oneClass viaccessSection 12 11 11 0 := by
      unfold ClassesInside
      rw [second]
      trivial
    unfold ClassesInside
    rw [first]
    exact ⟨by decide, .inr rest⟩
  · exact ⟨.inl (by decide), .inr (.inl (by decide))⟩

/-- A Viaccess section that ends with a class nano. -/
def truncatedSection : Memory := fun i =>
  [0x80, 0x30, 0x07, 0x00, 0x90, 0x03, 0x03, 0x06, 0x00, 0xE2].getD i 0

/-- The class of the last nano is read behind the section. -/
theorem not_confined_truncated :
    ¬ ∀ (caid : Nat) (tab : Classtab) (ecm : Memory) (l : Nat),
      l = ecmLength ecm 1 + 3 → l ≤ 512 → Confined caid tab ecm l := by
  intro always
  have confined := always 0x0500 oneClass truncatedSection 10 (by decide)
    (by decide)
  have behind := (confined (continued 10 truncatedSection fun _ => 0x10)
    (agree_continued 10 truncatedSection _)).1
  revert behind
  decide

end Oscam.Nanos
