import Oscam.Protocol.SerialRecv

/-!
# How long a request of the serial interface is

The length of a request whose protocol `oscam_ser_recv` recognises, in the
bytes of the request itself.  A receipt that fills the buffer is left out: it
may have been cut short.
-/

namespace Oscam.Serial

variable {s : Receipt} {received missing : Part} {Post : Receipt → Prop}

/-- What a part leaves as long as the buffer is not filled. -/
abbrev Leaves (part : Part) (s : Receipt) (Post : Receipt → Prop) : Prop :=
  Yields Receipt.size part s Post

theorem leaves_step {step : Receipt → Receipt} (post : Post (step s)) :
    Leaves (fun _ s => step s) s Post := by
  intro l _
  exact post

theorem leaves_keep (post : Post s) : Leaves keep s Post :=
  leaves_step post

theorem leaves_of_eq {part : Part} (same : ∀ l, part l s = s) (post : Post s) :
    Leaves part s Post := by
  intro l _
  rw [same l]
  exact post

theorem leaves_ite {first second : Part} (condition : Receipt → Prop)
    [DecidablePred condition] (holds : condition s → Leaves first s Post)
    (fails : ¬ condition s → Leaves second s Post) :
    Leaves (fun l s => if condition s then first l s else second l s) s
      Post := by
  intro l below
  dsimp only at below ⊢
  split
  · rename_i condition
    rw [if_pos condition] at below
    exact holds condition l below
  · rename_i condition
    rw [if_neg condition] at below
    exact fails condition l below

/-- A read that succeeds brings all that was asked for, unless it fills the
buffer. -/
theorem selrec_extends (l n : Nat) (s : Receipt) :
    ∃ chunk line, (selrec l n s).2 = s.extend chunk line ∧ chunk.length ≤ n ∧
      ((selrec l n s).1 = true → (selrec l n s).2.size < l →
        chunk.length = n) := by
  rcases Nat.eq_zero_or_pos (asked l n s) with none | some
  · rw [selrec_of_zero none]
    refine ⟨[], s.line, ?_, Nat.zero_le n, by simp⟩
    simp [Receipt.extend]
  · rw [selrec_of_pos some]
    obtain ⟨chunk, line, extended, most, whole⟩ :=
      takeBytes_extends (asked l n s) s
    have clipped : asked l n s = n ∨
        (asked l n s = l - s.size ∧ asked l n s < n) := by
      unfold asked
      split <;> omega
    refine ⟨chunk, line, extended, by omega, ?_⟩
    intro ok below
    have all := whole ok
    rw [extended, Receipt.size_extend, all] at below
    omega

theorem leaves_ifSelrec {n : Nat} (limitedReceived : LimitedPart received)
    (whole : ∀ chunk line, chunk.length = n →
      Leaves received (s.extend chunk line) Post)
    (short : ∀ chunk line, chunk.length ≤ n →
      Leaves missing (s.extend chunk line) Post) :
    Leaves (ifSelrec n received missing) s Post := by
  intro l below
  obtain ⟨chunk, line, extended, most, all⟩ := selrec_extends l n s
  unfold ifSelrec at below ⊢
  split
  · rename_i ok
    rw [if_pos ok] at below
    have early := (limitedReceived.grows l _).trans_lt below
    rw [extended] at below ⊢
    exact whole chunk line (all ok early) l below
  · rename_i failed
    rw [if_neg failed, extended] at below
    rw [extended]
    exact short chunk line most l below

/-! ## The stages -/

theorem not_active_stop {p : Progress} (failed : p ≠ .start ∧ ¬ p.IsProto) :
    ¬ (s.stop p).Active := by
  rintro (start | isProto)
  · exact failed.1 start
  · exact failed.2 isProto

theorem not_active_incomplete : ¬ (s.stop .incomplete).Active :=
  not_active_stop ⟨by simp, id⟩

theorem not_active_unknown : ¬ (s.stop .unknown).Active :=
  not_active_stop ⟨by simp, id⟩

/-- The protocol is still the same and something holds, or the message is given
up. -/
def StillAt (p : Protocol) (Post : Receipt → Prop) (s : Receipt) : Prop :=
  (s.p = .proto p ∧ Post s) ∨ ¬ s.Active

theorem leaves_incomplete {p : Protocol} :
    Leaves (fail .incomplete) s (StillAt p Post) :=
  leaves_step (Or.inr not_active_incomplete)

/-- Stage 0 has two bytes. -/
def Begun (s : Receipt) : Prop :=
  (s.p = .start ∧ s.size = 2) ∨ ¬ s.Active

theorem skipGarbage_leaves (fresh : s.p = .start) (empty : s.size = 0) :
    Leaves skipGarbage s Begun := by
  apply leaves_ifSelrec
  · apply limited_step
    intro t
    split <;> rfl
  · intro chunk line two
    apply leaves_step
    split
    · exact Or.inr (not_active_stop ⟨by simp, id⟩)
    · refine Or.inl ⟨fresh, ?_⟩
      rw [Receipt.size_extend, empty, two]
  · intro chunk line _
    apply leaves_step
    exact Or.inr (not_active_stop ⟨by simp, id⟩)

theorem identify_ne_start (s : Receipt) : (identify s).1 ≠ .start := by
  unfold identify
  split
  · split <;> simp
  · split <;> simp
  · simp
  · split <;> simp
  · simp
  · simp
  · simp
  · simp
  · simp

/-- An AlphaStar message begins with the character that says so. -/
theorem identify_alpha (alpha : (identify s).1 = .proto .alpha) :
    s.byte 0 = 0x7E := by
  unfold identify at alpha
  split at alpha
  · split at alpha <;> simp at alpha
  · split at alpha <;> simp at alpha
  · simp at alpha
  · split at alpha
    · simp at alpha
    · simp at alpha
    · simp at alpha
    · split at alpha <;> simp at alpha
    · simp at alpha
  · simp at alpha
  · assumption
  · simp at alpha
  · simp at alpha
  · simp at alpha

/-- All that is known of the message applies to the protocol of the receipt. -/
def Examined (Known : Protocol → Receipt → Prop) (s : Receipt) : Prop :=
  s.p ≠ .start ∧ ∀ p, s.p = .proto p → Known p s

/-- Stage 1 has three bytes. -/
abbrev Identified : Receipt → Prop :=
  Examined fun p s => s.size = 3 ∧ (p = .alpha → s.byte 0 = 0x7E)

theorem identified_identified (three : s.size = 3) :
    Identified (identified s) := by
  have found := identify_ne_start s
  have progress : (identified s).p = expected s (identify s).1 := rfl
  have same : (identified s).byte 0 = s.byte 0 := by
    unfold identified
    split <;> rfl
  have kept : expected s (identify s).1 = (identify s).1 ∨
      expected s (identify s).1 = .unknown := by
    unfold expected
    split
    · exact Or.inl rfl
    · split
      · exact Or.inl rfl
      · exact Or.inr rfl
  constructor
  · rw [progress]
    rcases kept with kept | kept
    · rw [kept]
      exact found
    · rw [kept]
      simp
  · intro p isProto
    refine ⟨(size_identified s).trans three, ?_⟩
    rintro rfl
    rw [same]
    rw [progress] at isProto
    rcases kept with kept | kept
    · exact identify_alpha (kept.symm.trans isProto)
    · rw [kept] at isProto
      simp at isProto

theorem identifyProtocol_leaves (two : s.size = 2) :
    Leaves identifyProtocol s Identified := by
  have part : Leaves (ifSelrec 1 (fun _ s => identified s) keep)
      (s.stop .silent) Identified := by
    refine leaves_ifSelrec (limited_step size_identified) ?_ ?_
    · intro chunk line one
      apply leaves_step
      apply identified_identified
      rw [Receipt.size_extend, Receipt.size_stop, two, one]
    · intro chunk line _
      apply leaves_keep
      exact ⟨by simp [Receipt.extend, Receipt.stop],
        by simp [Receipt.extend, Receipt.stop]⟩
  exact part

/-- What stage 2 knows about the bytes to come. -/
def Announced : Protocol → Receipt → Prop
  | .sssp, s =>
      s.size = 3 ∧ s.r = ((s.byte 1).toNat * 256 + (s.byte 2).toNat : Nat)
  | .bomba, s => s.size = 3 ∧ s.r = (s.byte 2).toNat
  | .hsic, s => s.size = 15 ∧ s.r = (s.byte 14).toNat
  | .gs, s =>
      (s.job = .lgo ∧ 0 ≤ s.r) ∨
        (s.size = 4 ∧ s.r = ((s.byte 3).toNat * 256 + (s.byte 2).toNat : Nat))
  | .alpha, s => s.size = 3 ∧ s.r < 0 ∧ s.byte 0 = 0x7E
  | .gbox, s =>
      s.size = 3 ∧ s.r = s.section12 1 ∧
        s.serialdata.gboxLens.catLen = s.section12 1
  | .dsr95, _ => True
  | .dsr95Old, _ => True

theorem stillAt_step {p : Protocol} {step : Receipt → Receipt}
    (same : (step s).p = .proto p) (post : Post (step s)) :
    Leaves (fun _ s => step s) s (StillAt p Post) :=
  leaves_step (Or.inl ⟨same, post⟩)

theorem lengthOf_leaves {p : Protocol} (isProto : s.p = .proto p)
    (three : s.size = 3) (first : p = .alpha → s.byte 0 = 0x7E) :
    Leaves (lengthOf p) s (StillAt p (Announced p)) := by
  cases p with
  | sssp => exact stillAt_step isProto ⟨three, rfl⟩
  | bomba => exact stillAt_step isProto ⟨three, rfl⟩
  | hsic =>
      have limited : LimitedPart fun _ s =>
          { s with r := (s.byte 14).toNat } := limited_step fun _ => rfl
      refine leaves_ifSelrec limited ?_ fun _ _ _ => leaves_incomplete
      intro chunk line twelve
      refine stillAt_step isProto ⟨?_, rfl⟩
      show (s.extend chunk line).size = 15
      rw [Receipt.size_extend, three, twelve]
  | dsr95 =>
      refine leaves_ite (fun s : Receipt => s.job = .echo) ?_ ?_
      · intro _
        exact stillAt_step isProto trivial
      · intro _
        refine leaves_ifSelrec (limited_step size_dsrLength) ?_
          fun _ _ _ => leaves_incomplete
        intro chunk line _
        apply leaves_step
        unfold dsrLength
        split
        · exact Or.inr not_active_unknown
        · exact Or.inl ⟨isProto, trivial⟩
  | gs =>
      refine leaves_ite (fun s : Receipt => s.job = .lgo) ?_ ?_
      · intro logon
        exact stillAt_step isProto (Or.inl ⟨logon, Int.natCast_nonneg 5⟩)
      · intro _
        have limited : LimitedPart fun _ s =>
            { s with r := (s.byte 3).toNat * 256 + (s.byte 2).toNat } :=
          limited_step fun _ => rfl
        refine leaves_ifSelrec limited ?_ fun _ _ _ => leaves_incomplete
        intro chunk line one
        refine stillAt_step isProto (Or.inr ⟨?_, rfl⟩)
        show (s.extend chunk line).size = 4
        rw [Receipt.size_extend, three, one]
  | alpha =>
      exact stillAt_step isProto ⟨three, Int.negSucc_lt_zero 126, first rfl⟩
  | gbox => exact stillAt_step isProto ⟨three, rfl, rfl⟩
  | dsr95Old => exact stillAt_step isProto trivial

/-- The bytes `readRest` brings. -/
def Longer (s : Receipt) (n : Nat) (t : Receipt) : Prop :=
  ∃ chunk line, chunk.length = n ∧ t = s.extend chunk line

namespace Longer

variable {t : Receipt} {n i : Nat}

theorem size (longer : Longer s n t) : t.size = s.size + n := by
  obtain ⟨chunk, line, all, rfl⟩ := longer
  rw [Receipt.size_extend, all]

theorem serialdata (longer : Longer s n t) : t.serialdata = s.serialdata := by
  obtain ⟨chunk, line, -, rfl⟩ := longer
  rfl

theorem job (longer : Longer s n t) : t.job = s.job := by
  obtain ⟨chunk, line, -, rfl⟩ := longer
  rfl

theorem byte (longer : Longer s n t) (inside : i < s.size) :
    t.byte i = s.byte i := by
  obtain ⟨chunk, line, -, rfl⟩ := longer
  exact Receipt.byte_extend inside chunk line

theorem section12 (longer : Longer s n t) (inside : i + 1 < s.size) :
    t.section12 i = s.section12 i := by
  obtain ⟨chunk, line, -, rfl⟩ := longer
  exact Receipt.section12_extend inside chunk line

end Longer

/-- So many bytes more, or the message is given up. -/
theorem leaves_more {p : Protocol} (isProto : s.p = .proto p) (n : Nat) :
    Leaves (ifSelrec n keep (fail .incomplete)) s (StillAt p (Longer s n)) := by
  refine leaves_ifSelrec limited_keep ?_ fun _ _ _ => leaves_incomplete
  intro chunk line all
  exact leaves_keep (Or.inl ⟨isProto, chunk, line, all, rfl⟩)

theorem readRest_leaves {p : Protocol} (isProto : s.p = .proto p) :
    Leaves readRest s (StillAt p (Longer s s.r.toNat)) := by
  have part : Leaves (ifSelrec s.r.toNat keep fun l t =>
      ifSelrec (s.buf.length + s.r.toNat - t.buf.length) keep
        (fail .incomplete) l t) s (StillAt p (Longer s s.r.toNat)) := by
    refine leaves_ifSelrec limited_keep ?_ ?_
    · intro chunk line all
      exact leaves_keep (Or.inl ⟨isProto, chunk, line, all, rfl⟩)
    · intro chunk line some
      refine leaves_ifSelrec limited_keep ?_ fun _ _ _ => leaves_incomplete
      intro others rest missing
      refine leaves_keep (Or.inl ⟨isProto, chunk ++ others, rest, ?_, ?_⟩)
      · have length : (s.extend chunk line).buf.length =
            s.buf.length + chunk.length := List.length_append
        rw [List.length_append]
        omega
      · simp [Receipt.extend]
  exact part

theorem detectDsr_of_ne (other : s.p ≠ .proto .dsr95) (l : Nat) :
    detectDsr l s = s :=
  if_neg fun both => other both.1

theorem gboxSections_of_ne (other : s.p ≠ .proto .gbox) (l : Nat) :
    gboxSections l s = s :=
  if_neg other

theorem ne_proto {p : Protocol} (none : ¬ s.Active) : s.p ≠ .proto p := by
  intro isProto
  apply none
  rw [Receipt.Active, isProto]
  exact Or.inr trivial

theorem detectDsr_leaves (isProto : s.p = .proto .dsr95) :
    Leaves detectDsr s (StillAt .dsr95 fun _ => True) := by
  refine leaves_ite (fun s : Receipt =>
    s.p = .proto .dsr95 ∧ s.serialdata.dsr9500type = .auto) ?_ ?_
  · intro _
    refine leaves_ifSelrec ?_ ?_ ?_
    · apply Limited.ite (fun s => NoDigits s)
      · exact limited_step fun s => Receipt.size_setDsr s _
      · exact limited_ifSelrec 2 (limited_step fun s => Receipt.size_setDsr s _)
          (limited_step fun _ => rfl)
    · intro chunk line _
      refine leaves_ite (fun s => NoDigits s) ?_ ?_
      · intro _
        exact stillAt_step isProto trivial
      · intro _
        refine leaves_ifSelrec
          (limited_step fun s => Receipt.size_setDsr s _) ?_ ?_
        · intro _ _ _
          exact stillAt_step isProto trivial
        · intro _ _ _
          exact leaves_step (Or.inr not_active_incomplete)
    · intro _ _ _
      exact stillAt_step isProto trivial
  · intro _
    exact leaves_keep (Or.inl ⟨isProto, trivial⟩)

theorem leaves_whileProto {p : Protocol} {part : Part}
    {Before After : Receipt → Prop} (still : StillAt p Before s)
    (next : s.p = .proto p → Before s → Leaves part s (StillAt p After)) :
    Leaves (whileProto part) s (StillAt p After) := by
  refine leaves_ite (fun s : Receipt => s.p.IsProto) ?_ ?_
  · intro isProto
    rcases still with ⟨same, before⟩ | none
    · exact next same before
    · exact absurd (Or.inr isProto) none
  · intro notProto
    rcases still with ⟨same, -⟩ | none
    · rw [same] at notProto
      exact absurd trivial notProto
    · exact leaves_keep (Or.inr none)

theorem pmtHead_leaves (isProto : s.p = .proto .gbox) :
    Leaves pmtHead s (StillAt .gbox (Longer s 3)) := by
  refine leaves_ifSelrec ?_ ?_ fun _ _ _ => leaves_incomplete
  · apply limited_step
    intro t
    split <;> rfl
  · intro chunk line three
    apply leaves_step
    split
    · exact Or.inl ⟨isProto, chunk, line, three, rfl⟩
    · exact Or.inr not_active_unknown

theorem pmtAndEcmHeader_leaves (isProto : s.p = .proto .gbox) :
    Leaves pmtAndEcmHeader s
      (StillAt .gbox (Longer s.setPmtLen (s.nextLength + 3))) := by
  have part := leaves_more (s := s.setPmtLen) isProto (s.nextLength + 3)
  intro l below
  exact part l below

theorem ecmAndPid_leaves (isProto : s.p = .proto .gbox) :
    Leaves ecmAndPid s
      (StillAt .gbox (Longer s.setEcmLen (s.nextLength + 4))) := by
  have part := leaves_more (s := s.setEcmLen) isProto (s.nextLength + 4)
  intro l below
  exact part l below

/-- A gbox message: three sections, each with its length in front. -/
structure GboxMessage (s : Receipt) : Prop where
  catLen : s.serialdata.gboxLens.catLen = s.section12 1
  pmtLen : s.serialdata.gboxLens.pmtLen =
    s.section12 (s.serialdata.gboxLens.catLen + 4)
  ecmLen : s.serialdata.gboxLens.ecmLen =
    s.section12 (s.serialdata.gboxLens.catLen +
      s.serialdata.gboxLens.pmtLen + 7)
  size : s.size = s.serialdata.gboxLens.catLen +
    s.serialdata.gboxLens.pmtLen + s.serialdata.gboxLens.ecmLen + 13

theorem gboxLens_setPmtLen (s : Receipt) :
    s.setPmtLen.serialdata.gboxLens =
      { s.serialdata.gboxLens with pmtLen := s.nextLength } := rfl

theorem gboxLens_setEcmLen (s : Receipt) :
    s.setEcmLen.serialdata.gboxLens =
      { s.serialdata.gboxLens with ecmLen := s.nextLength } := rfl

/-- The lengths that the three reads announce are those in the message. -/
theorem gboxMessage_of_longer {first second third fourth : Receipt}
    (size : first.size = first.section12 1 + 3)
    (catLen : first.serialdata.gboxLens.catLen = first.section12 1)
    (pmtHead : Longer first 3 second)
    (pmt : Longer second.setPmtLen (second.nextLength + 3) third)
    (ecm : Longer third.setEcmLen (third.nextLength + 4) fourth) :
    GboxMessage fourth := by
  have sizeSecond : second.size = first.section12 1 + 6 := by
    rw [pmtHead.size, size]
  have sizeThird : third.size = first.section12 1 + second.nextLength + 9 := by
    rw [pmt.size, size_setPmtLen, sizeSecond]
    omega
  have sizeFourth : fourth.size = first.section12 1 + second.nextLength +
      third.nextLength + 13 := by
    rw [ecm.size, size_setEcmLen, sizeThird]
    omega
  have lens : fourth.serialdata.gboxLens =
      { catLen := first.section12 1, pmtLen := second.nextLength
        ecmLen := third.nextLength } := by
    rw [ecm.serialdata, gboxLens_setEcmLen, pmt.serialdata, gboxLens_setPmtLen,
      pmtHead.serialdata]
    simp only [catLen]
  have toThird (i : Nat) (inside : i + 1 < third.size) :
      fourth.section12 i = third.section12 i :=
    ecm.section12 inside
  have toSecond (i : Nat) (inside : i + 1 < second.size) :
      third.section12 i = second.section12 i :=
    pmt.section12 inside
  have positionSecond : second.nextLength =
      second.section12 (first.section12 1 + 4) := by
    have position : second.buf.length - 2 = first.section12 1 + 4 := by
      have length : second.buf.length = first.section12 1 + 6 := sizeSecond
      omega
    rw [Receipt.nextLength, position]
  have positionThird : third.nextLength =
      third.section12 (first.section12 1 + second.nextLength + 7) := by
    have position : third.buf.length - 2 =
        first.section12 1 + second.nextLength + 7 := by
      have length : third.buf.length =
          first.section12 1 + second.nextLength + 9 := sizeThird
      omega
    conv_lhs => rw [Receipt.nextLength, position]
  constructor
  · simp only [lens]
    rw [toThird 1 (by omega), toSecond 1 (by omega),
      pmtHead.section12 (by omega)]
  · simp only [lens]
    rw [toThird _ (by omega), toSecond _ (by omega)]
    exact positionSecond
  · simp only [lens]
    rw [toThird _ (by omega)]
    exact positionThird
  · simp only [lens]
    exact sizeFourth

theorem gboxSections_leaves (isProto : s.p = .proto .gbox)
    (size : s.size = s.section12 1 + 3)
    (catLen : s.serialdata.gboxLens.catLen = s.section12 1) :
    Leaves gboxSections s (StillAt .gbox GboxMessage) := by
  have head := pmtHead_leaves isProto
  have two : Leaves (fun l s => whileProto pmtAndEcmHeader l (pmtHead l s)) s
      (StillAt .gbox fun third => ∃ second, Longer s 3 second ∧
        Longer second.setPmtLen (second.nextLength + 3) third) := by
    refine Yields.comp (limited_whileProto limited_pmtAndEcmHeader) head ?_
    intro second still
    refine leaves_whileProto still ?_
    intro same longer
    refine Yields.mono (pmtAndEcmHeader_leaves same) ?_
    rintro third (⟨sameThird, longerThird⟩ | none)
    · exact Or.inl ⟨sameThird, second, longer, longerThird⟩
    · exact Or.inr none
  have three : Leaves (fun l s => whileProto ecmAndPid l
      (whileProto pmtAndEcmHeader l (pmtHead l s))) s
      (StillAt .gbox GboxMessage) := by
    refine Yields.comp (limited_whileProto limited_ecmAndPid) two ?_
    intro third still
    refine leaves_whileProto still ?_
    rintro same ⟨second, longer, longerThird⟩
    refine Yields.mono (ecmAndPid_leaves same) ?_
    rintro fourth (⟨sameFourth, longerFourth⟩ | none)
    · exact Or.inl ⟨sameFourth,
        gboxMessage_of_longer size catLen longer longerThird longerFourth⟩
    · exact Or.inr none
  refine leaves_ite (fun s : Receipt => s.p = .proto .gbox) ?_ ?_
  · intro _
    exact three
  · intro other
    exact absurd isProto other

/-- What is known of a request that is complete. -/
def Complete : Protocol → Receipt → Prop
  | .sssp, s => s.size = 3 + ((s.byte 1).toNat * 256 + (s.byte 2).toNat)
  | .bomba, s => s.size = 3 + (s.byte 2).toNat
  | .hsic, s => s.size = 15 + (s.byte 14).toNat
  | .gs, s =>
      s.job ≠ .lgo →
        s.size = 4 + ((s.byte 3).toNat * 256 + (s.byte 2).toNat)
  | .alpha, s => s.byte 0 = 0x7E
  | .gbox, s => s.size = 3 ∨ GboxMessage s
  | .dsr95, _ => True
  | .dsr95Old, _ => True

/-- Of all but three protocols the rest is read at once. -/
theorem complete_of_longer {p : Protocol} {t : Receipt}
    (announced : Announced p s) (longer : Longer s s.r.toNat t)
    (notAlpha : p ≠ .alpha) (notGbox : p ≠ .gbox) : Complete p t := by
  have size := longer.size
  cases p with
  | sssp =>
      obtain ⟨three, r⟩ := announced
      rw [three, r, Int.toNat_natCast] at size
      show t.size = _
      rw [longer.byte (by omega), longer.byte (by omega), size]
  | bomba =>
      obtain ⟨three, r⟩ := announced
      rw [three, r, Int.toNat_natCast] at size
      show t.size = _
      rw [longer.byte (by omega), size]
  | hsic =>
      obtain ⟨fifteen, r⟩ := announced
      rw [fifteen, r, Int.toNat_natCast] at size
      show t.size = _
      rw [longer.byte (by omega), size]
  | gs =>
      intro noLogon
      rw [longer.job] at noLogon
      rcases announced with ⟨logon, -⟩ | ⟨four, r⟩
      · exact absurd logon noLogon
      · rw [four, r, Int.toNat_natCast] at size
        rw [longer.byte (by omega), longer.byte (by omega), size]
  | alpha => exact absurd rfl notAlpha
  | gbox => exact absurd rfl notGbox
  | dsr95 => trivial
  | dsr95Old => trivial

theorem longer_refl (s : Receipt) : Longer s 0 s := by
  refine ⟨[], s.line, rfl, ?_⟩
  simp [Receipt.extend]

theorem readUntil_leaves (char : Int) (fuel : Nat) {p : Protocol}
    (isProto : s.p = .proto p) :
    Leaves (readUntil char fuel) s
      (StillAt p fun t => ∃ n, Longer s n t) := by
  induction fuel generalizing s with
  | zero => exact leaves_keep (Or.inl ⟨isProto, 0, longer_refl s⟩)
  | succ fuel induction =>
      refine leaves_ite (fun s : Receipt => ((s.last 1).toNat : Int) = char)
        ?_ ?_
      · intro _
        exact leaves_keep (Or.inl ⟨isProto, 0, longer_refl s⟩)
      · intro _
        refine leaves_ifSelrec (limited_readUntil char fuel) ?_
          fun _ _ _ => leaves_incomplete
        intro chunk line one
        have rest : Leaves (readUntil char fuel) (s.extend chunk line)
            (StillAt p fun t => ∃ n, Longer (s.extend chunk line) n t) :=
          induction isProto
        refine Yields.mono rest ?_
        rintro t (⟨same, n, others, rest, all, rfl⟩ | none)
        · refine Or.inl ⟨same, 1 + n, chunk ++ others, rest, ?_, ?_⟩
          · rw [List.length_append, one, all]
          · simp [Receipt.extend]
        · exact Or.inr none

/-- The part of stage 3 that reads a known number of bytes. -/
theorem rest_leaves {p : Protocol} (isProto : s.p = .proto p)
    (announced : Announced p s) (notAlpha : p ≠ .alpha) :
    Leaves (fun l s => gboxSections l (detectDsr l (readRest l s))) s
      (StillAt p (Complete p)) := by
  have rest := readRest_leaves isProto
  by_cases dsr : p = .dsr95
  · subst dsr
    have detected : Leaves (fun l s => detectDsr l (readRest l s)) s
        (StillAt .dsr95 fun _ => True) := by
      refine Yields.comp limited_detectDsr rest ?_
      rintro t (⟨same, -⟩ | none)
      · exact detectDsr_leaves same
      · exact leaves_of_eq (detectDsr_of_ne (ne_proto none)) (Or.inr none)
    refine Yields.comp limited_gboxSections detected ?_
    rintro t (⟨same, -⟩ | none)
    · refine leaves_of_eq (gboxSections_of_ne ?_) (Or.inl ⟨same, trivial⟩)
      simp [same]
    · exact leaves_of_eq (gboxSections_of_ne (ne_proto none)) (Or.inr none)
  · have detected : Leaves (fun l s => detectDsr l (readRest l s)) s
        (StillAt p (Longer s s.r.toNat)) := by
      refine Yields.comp limited_detectDsr rest ?_
      rintro t (⟨same, longer⟩ | none)
      · refine leaves_of_eq (detectDsr_of_ne ?_) (Or.inl ⟨same, longer⟩)
        simp [same, dsr]
      · exact leaves_of_eq (detectDsr_of_ne (ne_proto none)) (Or.inr none)
    refine Yields.comp limited_gboxSections detected ?_
    rintro t (⟨same, longer⟩ | none)
    · by_cases gbox : p = .gbox
      · subst gbox
        obtain ⟨three, r, catLen⟩ := announced
        have section12 : t.section12 1 = s.section12 1 :=
          longer.section12 (by omega)
        have size : t.size = t.section12 1 + 3 := by
          rw [longer.size, three, r, section12, Int.toNat_natCast]
          omega
        have lens : t.serialdata.gboxLens.catLen = t.section12 1 := by
          rw [longer.serialdata, section12, catLen]
        refine Yields.mono (gboxSections_leaves same size lens) ?_
        rintro u (⟨sameU, message⟩ | none)
        · exact Or.inl ⟨sameU, Or.inr message⟩
        · exact Or.inr none
      · refine leaves_of_eq (gboxSections_of_ne ?_)
          (Or.inl ⟨same, complete_of_longer announced longer notAlpha gbox⟩)
        simp [same, gbox]
    · exact leaves_of_eq (gboxSections_of_ne (ne_proto none)) (Or.inr none)

/-- Without bytes to come a message is complete as it is. -/
theorem complete_of_zero {p : Protocol} (announced : Announced p s)
    (zero : s.r = 0) : Complete p s := by
  by_cases alpha : p = .alpha
  · subst alpha
    exact announced.2.2
  · by_cases gbox : p = .gbox
    · subst gbox
      exact Or.inl announced.1
    · have longer : Longer s s.r.toNat s := by
        rw [zero]
        exact longer_refl s
      exact complete_of_longer announced longer alpha gbox

/-- Only for an AlphaStar and the echo of a DSR9500 the end is a character. -/
theorem complete_of_until {p : Protocol} {t : Receipt} {n : Nat}
    (announced : Announced p s) (negative : s.r < 0)
    (longer : Longer s n t) : Complete p t := by
  cases p with
  | alpha =>
      obtain ⟨three, -, first⟩ := announced
      exact (longer.byte (by omega)).trans first
  | dsr95 => trivial
  | dsr95Old => trivial
  | sssp =>
      have r := announced.2
      omega
  | bomba =>
      have r := announced.2
      omega
  | hsic =>
      have r := announced.2
      omega
  | gs =>
      rcases announced with ⟨-, r⟩ | ⟨-, r⟩
      · omega
      · omega
  | gbox =>
      have r := announced.2.1
      omega

theorem getRest_leaves {p : Protocol} (isProto : s.p = .proto p)
    (announced : Announced p s) :
    Leaves getRest s (StillAt p (Complete p)) := by
  refine leaves_ite (fun s : Receipt => 0 < s.r) ?_ ?_
  · intro positive
    have notAlpha : p ≠ .alpha := by
      rintro rfl
      have negative := announced.2.1
      omega
    exact rest_leaves isProto announced notAlpha
  · intro notPositive
    refine leaves_ite (fun s : Receipt => s.r < 0) ?_ ?_
    · intro negative
      have found : Leaves
          (fun l s => readUntil (-s.r) (s.line.length + 1) l s) s
          (StillAt p (Complete p)) := by
        refine Yields.mono
          (readUntil_leaves (-s.r) (s.line.length + 1) isProto) ?_
        rintro t (⟨same, n, longer⟩ | none)
        · exact Or.inl ⟨same, complete_of_until announced negative longer⟩
        · exact Or.inr none
      refine leaves_whileProto (Or.inl ⟨isProto, announced⟩) ?_
      intro _ _
      exact found
    · intro notNegative
      exact leaves_keep
        (Or.inl ⟨isProto, complete_of_zero announced (by omega)⟩)

/-! ## The whole receipt -/

theorem leaves_stage {part : Part} (next : s.Active → Leaves part s Post)
    (stopped : ¬ s.Active → Post s) : Leaves (stage part) s Post := by
  refine leaves_ite Receipt.Active next ?_
  intro none
  exact leaves_keep (stopped none)

theorem examined_of_not_active {Known : Protocol → Receipt → Prop}
    (none : ¬ s.Active) : Examined Known s := by
  constructor
  · intro start
    exact none (Or.inl start)
  · intro p isProto
    exact absurd isProto (ne_proto none)

theorem examined_of_stillAt {Known : Protocol → Receipt → Prop} {p : Protocol}
    (still : StillAt p (Known p) s) : Examined Known s := by
  rcases still with ⟨same, known⟩ | none
  · constructor
    · simp [same]
    · intro q isProto
      have equal : q = p := by
        have both := isProto.symm.trans same
        simpa using both
      rw [equal]
      exact known
  · exact examined_of_not_active none

theorem proto_of_active (active : s.Active) (started : s.p ≠ .start) :
    ∃ p, s.p = .proto p := by
  rcases active with start | isProto
  · exact absurd start started
  · cases progress : s.p with
    | proto p => exact ⟨p, rfl⟩
    | start => exact absurd progress started
    | incomplete => simp [progress, Progress.IsProto] at isProto
    | unknown => simp [progress, Progress.IsProto] at isProto
    | silent => simp [progress, Progress.IsProto] at isProto
    | garbage => simp [progress, Progress.IsProto] at isProto

theorem examineLength_leaves (identified : Identified s) (active : s.Active) :
    Leaves examineLength s (Examined Announced) := by
  obtain ⟨p, progress⟩ := proto_of_active active identified.1
  obtain ⟨three, first⟩ := identified.2 p progress
  have part : Leaves (lengthOf p) s (Examined Announced) :=
    Yields.mono (lengthOf_leaves progress three first)
      fun t still => examined_of_stillAt still
  intro l below
  have same : examineLength l s = lengthOf p l s := by
    rw [examineLength, progress]
    rfl
  rw [same] at below ⊢
  exact part l below

theorem stages_leaves (serialdata : SerialClient)
    (line : List (Option UInt8)) :
    Leaves stages (begin serialdata line) (Examined Complete) := by
  have one : Leaves (stage skipGarbage) (begin serialdata line) Begun :=
    leaves_stage (fun _ => skipGarbage_leaves rfl rfl) fun none => Or.inr none
  have two : Leaves
      (fun l s => stage identifyProtocol l (stage skipGarbage l s))
      (begin serialdata line) Identified := by
    refine Yields.comp (limited_stage limited_identifyProtocol) one ?_
    intro t begun
    apply leaves_stage
    · intro active
      rcases begun with ⟨-, size⟩ | none
      · exact identifyProtocol_leaves size
      · exact absurd active none
    · exact examined_of_not_active
  have three : Leaves (fun l s => stage examineLength l
      (stage identifyProtocol l (stage skipGarbage l s)))
      (begin serialdata line) (Examined Announced) := by
    refine Yields.comp (limited_stage limited_examineLength) two ?_
    intro t identified
    exact leaves_stage (examineLength_leaves identified) examined_of_not_active
  have four : Leaves (fun l s => stage getRest l (stage examineLength l
      (stage identifyProtocol l (stage skipGarbage l s))))
      (begin serialdata line) (Examined Complete) := by
    refine Yields.comp (limited_stage limited_getRest) three ?_
    intro t announced
    apply leaves_stage
    · intro active
      obtain ⟨p, progress⟩ := proto_of_active active announced.1
      exact Yields.mono (getRest_leaves progress (announced.2 p progress))
        fun u still => examined_of_stillAt still
    · exact examined_of_not_active
  exact four

theorem p_selrec (l n : Nat) (s : Receipt) : (selrec l n s).2.p = s.p := by
  obtain ⟨chunk, line, extended, -⟩ := selrec_extends l n s
  rw [extended]
  rfl

theorem p_humax (s : Receipt) : (humax s).p = s.p := by
  unfold humax
  split <;> rfl

theorem p_flush (l : Nat) (s : Receipt) : (flush l s).p = s.p := by
  unfold flush
  split
  · exact p_selrec l _ s
  · rfl

/-- A message that is taken went through the stages only. -/
theorem oscamSerRecv_of_proto {l : Nat} {serialdata : SerialClient}
    {line : List (Option UInt8)} {p : Protocol}
    (taken : (oscamSerRecv l serialdata line).p = .proto p) :
    oscamSerRecv l serialdata line = stages l (begin serialdata line) := by
  have progress : (stages l (begin serialdata line)).p = .proto p := by
    rwa [oscamSerRecv, p_humax, p_flush] at taken
  have unflushed : flush l (stages l (begin serialdata line)) =
      stages l (begin serialdata line) := by
    apply if_neg
    simp [progress]
  rw [oscamSerRecv, unflushed]
  apply if_neg
  simp [progress]

/-- Every message that is taken, and does not fill the buffer, is complete. -/
theorem oscamSerRecv_complete {l : Nat} {serialdata : SerialClient}
    {line : List (Option UInt8)} {p : Protocol}
    (below : (oscamSerRecv l serialdata line).size < l)
    (taken : (oscamSerRecv l serialdata line).p = .proto p) :
    Complete p (oscamSerRecv l serialdata line) := by
  have same := oscamSerRecv_of_proto taken
  rw [same] at below taken ⊢
  exact (stages_leaves serialdata line l below).2 p taken

end Oscam.Serial
