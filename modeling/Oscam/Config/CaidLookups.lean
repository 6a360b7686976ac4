import Oscam.Config.CaidTables

/-!
# Looking a caid up

A client looks a caid up in its table by `chk_caid`, a reader by `chk_ctab`.
The first goes through all places, the second one ends at a caid of zero.
-/

namespace Oscam.CaidTables

open Monitor (ascii)

/-- The caid is one of those that the entry stands for. -/
def Mapping.Matches (caid : UInt16) (entry : Mapping) : Prop :=
  caid.toNat &&& entry.part = entry.caid

instance (caid : UInt16) (entry : Mapping) : Decidable (entry.Matches caid) :=
  inferInstanceAs (Decidable (_ = _))

/-- `chk_caid`: the caid that it is mapped to, or -1. -/
def chkCaid (caid : UInt16) (ctab : List Mapping) : Int :=
  match ctab.find? (·.Matches caid) with
  | some entry => if entry.target ≠ 0 then entry.target else caid.toNat
  | none => -1

/-- The loop of `chk_ctab`. -/
def scanCtab (caid : UInt16) : List Mapping → Bool
  | [] => false
  | entry :: ctab =>
      if entry.caid = 0 then false
      else if entry.Matches caid then true
      else scanCtab caid ctab

/-- `chk_ctab`. -/
def chkCtab (caid : UInt16) (ctab : List Mapping) : Bool :=
  if caid = 0 ∨ (ctab.head?.any (·.caid = 0)) = true then true
  else scanCtab caid ctab

/-- `clear_caidtab`. -/
def clearCaidtab : List Mapping := (List.range csMaxcaidtab).map unused

/-- The entries that `chk_caidtab` stores. -/
def storedCaids (caidasc : List UInt8) : List Mapping :=
  ((strtok 44 caidasc).filterMap chkCaidEntry).take csMaxcaidtab

/-- Client and reader decide alike. -/
def Agree (caid : UInt16) (ctab : List Mapping) : Prop :=
  chkCtab caid ctab = true ↔ 0 ≤ chkCaid caid ctab

/-- The stored entries in front of the first caid of zero, and the ones from
there on. -/
def beforeZero (stored : List Mapping) : List Mapping :=
  stored.takeWhile (·.caid ≠ 0)

def fromZero (stored : List Mapping) : List Mapping :=
  stored.dropWhile (·.caid ≠ 0)

/-- One of the entries stands for the caid. -/
def AnyMatch (caid : UInt16) (entries : List Mapping) : Prop :=
  ∃ entry ∈ entries, entry.Matches caid

/-- With a first caid of zero the reader takes every caid, and otherwise none for
the sake of an entry behind such a caid. -/
def Alike (caid : UInt16) (stored : List Mapping) : Prop :=
  if beforeZero stored = [] then stored = [] ∨ AnyMatch caid stored
  else AnyMatch caid (fromZero stored) → AnyMatch caid (beforeZero stored)

/-! ## The two loops -/

variable {caid : UInt16} {ctab stored : List Mapping}

theorem chkCaid_nonneg_iff : 0 ≤ chkCaid caid ctab ↔ AnyMatch caid ctab := by
  unfold chkCaid AnyMatch
  split
  · rename_i entry found
    have there := List.mem_of_find?_eq_some found
    have hit := List.find?_some found
    refine iff_of_true ?_ ⟨entry, there, of_decide_eq_true hit⟩
    split <;> exact Int.natCast_nonneg _
  · rename_i missing
    refine iff_of_false (by decide) ?_
    rintro ⟨entry, there, hit⟩
    exact List.find?_eq_none.mp missing entry there (decide_eq_true hit)

theorem scanCtab_iff :
    scanCtab caid ctab = true ↔ AnyMatch caid (beforeZero ctab) := by
  unfold AnyMatch beforeZero
  induction ctab with
  | nil => simp [scanCtab]
  | cons entry ctab induction =>
      by_cases zero : entry.caid = 0
      · simp [scanCtab, zero]
      · by_cases hit : entry.Matches caid
        · simp [scanCtab, zero, hit]
        · simp only [scanCtab, zero, hit, if_false, induction]
          simp [zero, hit]

/-- An unused place behind the first one stands for no caid. -/
theorem not_matches_unused (some : caid ≠ 0) {i : Nat} (behind : i ≠ 0) :
    ¬ (unused i).Matches caid := by
  unfold Mapping.Matches unused
  rw [if_neg behind]
  intro hit
  apply some
  have masked : caid.toNat &&& 0xFFFF = caid.toNat :=
    Nat.and_two_pow_sub_one_of_lt_two_pow caid.toNat_lt
  rw [masked] at hit
  exact UInt16.toNat.inj hit

/-- The places behind the stored entries. -/
theorem anyMatch_caidtabOf (caidNe : caid ≠ 0) (some : stored ≠ []) :
    AnyMatch caid (caidtabOf stored) ↔ AnyMatch caid stored := by
  constructor
  · rintro ⟨entry, there, hit⟩
    rcases List.mem_append.mp there with inside | behind
    · exact ⟨entry, inside, hit⟩
    · obtain ⟨i, range, rfl⟩ := List.mem_map.mp behind
      have first := (List.mem_range'_1.mp range).1
      have length := List.length_pos_iff.mpr some
      exact absurd hit (not_matches_unused caidNe (by omega))
  · rintro ⟨entry, there, hit⟩
    exact ⟨entry, List.mem_append_left _ there, hit⟩

theorem beforeZero_caidtabOf (stored : List Mapping) :
    beforeZero (caidtabOf stored) = beforeZero stored := by
  have empty : beforeZero ((List.range' stored.length
      (csMaxcaidtab - stored.length)).map unused) = [] := by
    cases List.range' stored.length (csMaxcaidtab - stored.length) with
    | nil => rfl
    | cons i places => rfl
  unfold beforeZero caidtabOf at *
  rw [List.takeWhile_append, empty, List.append_nil]
  split
  · rename_i all
    exact ((List.takeWhile_prefix _).eq_of_length all).symm
  · rfl

theorem caidtabOf_nil : caidtabOf [] = clearCaidtab := by
  unfold caidtabOf clearCaidtab
  rw [List.nil_append, List.length_nil, Nat.sub_zero, List.range_eq_range']

/-- An empty table lets every caid through on both sides. -/
theorem agree_clearCaidtab (caid : UInt16) : Agree caid clearCaidtab := by
  have first : clearCaidtab = unused 0 :: (List.range' 1 31).map unused := rfl
  refine iff_of_true ?_ (chkCaid_nonneg_iff.mpr ⟨unused 0, ?_, ?_⟩)
  · unfold chkCtab
    rw [first]
    exact if_pos (.inr rfl)
  · rw [first]
    exact List.mem_cons_self
  · exact Nat.and_zero _

/-- The first caid of a table is zero. -/
theorem head_zero_iff (some : stored ≠ []) :
    ((caidtabOf stored).head?.any (·.caid = 0)) = true ↔
      beforeZero stored = [] := by
  obtain ⟨entry, rest, rfl⟩ := List.exists_cons_of_ne_nil some
  unfold beforeZero
  simp [caidtabOf]

theorem anyMatch_split (stored : List Mapping) :
    AnyMatch caid stored ↔
      AnyMatch caid (beforeZero stored) ∨ AnyMatch caid (fromZero stored) := by
  have whole : stored = beforeZero stored ++ fromZero stored :=
    List.takeWhile_append_dropWhile.symm
  conv_lhs => rw [whole]
  unfold AnyMatch
  simp only [List.mem_append, or_and_right, exists_or]

theorem agree_caidtabOf_iff (caidNe : caid ≠ 0) (stored : List Mapping) :
    Agree caid (caidtabOf stored) ↔ Alike caid stored := by
  unfold Alike
  by_cases some : stored = []
  · subst some
    have none : beforeZero [] = [] := List.takeWhile_nil
    rw [caidtabOf_nil, if_pos none]
    exact iff_of_true (agree_clearCaidtab caid) (.inl rfl)
  unfold Agree
  rw [chkCaid_nonneg_iff, anyMatch_caidtabOf caidNe some]
  unfold chkCtab
  by_cases zero : beforeZero stored = []
  · rw [if_pos (.inr ((head_zero_iff some).mpr zero)), if_pos zero]
    simp [some]
  · have first : ¬ ((caidtabOf stored).head?.any (·.caid = 0)) = true :=
      fun head => zero ((head_zero_iff some).mp head)
    rw [if_neg (not_or.mpr ⟨caidNe, first⟩), if_neg zero, scanCtab_iff,
      beforeZero_caidtabOf, anyMatch_split stored]
    constructor
    · exact fun same behind => same.mpr (.inr behind)
    · exact fun front => ⟨.inl, fun hit => hit.elim id front⟩

/-- Client and reader decide alike about a caid if and only if the entries from
the first caid of zero on leave them no choice; with an empty table they always
do. -/
theorem lookups_agree_iff (caid : UInt16) (some : caid ≠ 0)
    (caidasc : List UInt8) :
    (Agree caid (chkCaidtab caidasc) ↔ Alike caid (storedCaids caidasc)) ∧
      Agree caid clearCaidtab :=
  ⟨agree_caidtabOf_iff some (storedCaids caidasc), agree_clearCaidtab caid⟩

theorem lookups_agree_iff_1801 :
    (0x1801 : UInt16) ≠ 0 ∧
      (Agree 0x1801 (chkCaidtab (ascii "1702,0100:1801")) ↔
        Alike 0x1801 (storedCaids (ascii "1702,0100:1801"))) :=
  ⟨by decide, (lookups_agree_iff 0x1801 (by decide) _).1⟩

/-- Behind a caid of zero only the client finds a caid. -/
theorem caid_behind_zero :
    ¬ Agree 0x1801 (chkCaidtab (ascii "1702,0000,1801")) := by
  intro agree
  have found : 0 ≤ chkCaid 0x1801 (chkCaidtab (ascii "1702,0000,1801")) := by
    decide
  exact absurd (agree.mpr found) (by decide)

end Oscam.CaidTables
