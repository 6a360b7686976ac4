import Oscam.Config.Printing
import Oscam.Config.Services
import Oscam.Stat.StatLines
import Mathlib.Data.Nat.Bitwise

/-!
# Groups

`mk_t_group` prints the groups of a mask, and `chk_account` and `chk_reader`
read such a list.  The size of the buffer counts group 10 as a number of one
digit; the comma that the first group does not have makes up for it.
-/

namespace Oscam.Groups

open Services (sidtabBit toNat_sidtabBit maxSidbits)
open Stat (atoi)

/-! ## Printing and reading -/

/-- `(uint64_t)1<<i`. -/
def groupBit (i : Nat) : UInt64 := 1 <<< UInt64.ofNat i

/-- The bytes that `mk_t_group` allocates. -/
def neededFor (grp : UInt64) : Nat :=
  (List.range 64).foldl
    (fun needed i =>
      if grp &&& groupBit i ≠ 0 then
        if i > 9 then needed + 2 + 1 else needed + 2
      else needed)
    1

/-- The body of the second loop, with `dot`. -/
def putGroup (grp : UInt64) (needed : Nat) (s : Print × Bool) (i : Nat) :
    Print × Bool :=
  if grp &&& groupBit i ≠ 0 then
    let number := decimal (i + 1 : Nat)
    if s.2 = false then
      ((s.1.snprintf needed number).advance (if i > 8 then 2 else 1), true)
    else
      ((s.1.snprintf needed (44 :: number)).advance (if i > 8 then 3 else 2),
        true)
  else s

/-- `mk_t_group`. -/
def mkTGroup (grp : UInt64) : Text :=
  let needed := neededFor grp
  if needed = 1 then .empty
  else
    { needed
      buf := (((List.range 64).foldl (putGroup grp needed)
        (.start, false)).1.store 0).buf }

/-- The groups in a setting. -/
def readGroups (value : List UInt8) : UInt64 :=
  (strtok 44 value).foldl
    (fun grp ptr =>
      let g := atoi ptr
      if g > 0 ∧ g < 65 then grp ||| groupBit (g - 1).toNat else grp)
    0

/-- The part of `chk_account` for `group`. -/
def chkAccountGroup (value : List UInt8) : UInt64 := readGroups value

/-- The part of `chk_reader` for `group`. -/
def chkReaderGroup (value : List UInt8) : UInt64 := readGroups value

/-! ## The groups of a mask -/

variable {grp : UInt64} {i needed : Nat} {p : Print} {txt : List UInt8}
  {groups : List Nat}

/-- The bits that are set, in ascending order. -/
def setBits (grp : UInt64) : List Nat :=
  (List.range 64).filter fun i => grp &&& groupBit i ≠ 0

theorem lt_of_mem_setBits (member : i ∈ setBits grp) : i < 64 :=
  List.mem_range.mp (List.mem_filter.mp member).1

theorem nodup_setBits (grp : UInt64) : (setBits grp).Nodup :=
  List.nodup_range.filter _

theorem toNat_groupBit (small : i < 64) : (groupBit i).toNat = 2 ^ i :=
  toNat_sidtabBit small

theorem and_groupBit_ne_zero_iff (grp : UInt64) (small : i < 64) :
    grp &&& groupBit i ≠ 0 ↔ grp.toNat.testBit i = true := by
  rw [ne_eq, ← UInt64.toNat_inj, UInt64.toNat_and, toNat_groupBit small,
    Nat.and_two_pow]
  show ¬ _ = 0 ↔ _
  cases grp.toNat.testBit i <;> simp

theorem mem_setBits :
    i ∈ setBits grp ↔ i < 64 ∧ grp.toNat.testBit i = true := by
  unfold setBits
  rw [List.mem_filter, List.mem_range, decide_eq_true_eq]
  exact and_congr_right fun small => and_groupBit_ne_zero_iff grp small

/-- The mask of some groups. -/
theorem testBit_foldl_groupBit (small : ∀ i ∈ groups, i < 64) (mask : UInt64)
    (j : Nat) :
    (groups.foldl (fun mask i => mask ||| groupBit i) mask).toNat.testBit j =
        true ↔
      mask.toNat.testBit j = true ∨ j ∈ groups := by
  induction groups generalizing mask with
  | nil => simp
  | cons i groups induction =>
      rw [List.forall_mem_cons] at small
      rw [List.foldl_cons, induction small.2, UInt64.toNat_or, Nat.testBit_or,
        toNat_groupBit small.1, Nat.testBit_two_pow, Bool.or_eq_true,
        decide_eq_true_eq, List.mem_cons, or_assoc]
      exact or_congr_right (or_congr_left eq_comm)

theorem foldl_setBits (grp : UInt64) :
    (setBits grp).foldl (fun mask i => mask ||| groupBit i) 0 = grp := by
  apply UInt64.toNat_inj.mp
  apply Nat.eq_of_testBit_eq
  intro j
  rw [Bool.eq_iff_iff,
    testBit_foldl_groupBit fun i member => lt_of_mem_setBits member,
    mem_setBits]
  have none : (0 : UInt64).toNat.testBit j = false := Nat.zero_testBit j
  rw [none]
  constructor
  · rintro (wrong | ⟨-, set⟩)
    · cases wrong
    · exact set
  · intro set
    refine .inr ⟨?_, set⟩
    by_contra large
    have high : grp.toNat < 2 ^ j := Nat.lt_of_lt_of_le grp.toNat_lt
      (Nat.pow_le_pow_right (by decide) (by omega))
    rw [Nat.testBit_lt_two_pow high] at set
    cases set

/-! ## The text -/

/-- The groups as they are printed, behind a comma each or behind a comma from
the second one on. -/
def groupText : Bool → List Nat → List UInt8
  | _, [] => []
  | dot, i :: groups =>
      (if dot then [44] else []) ++ decimal (i + 1 : Nat) ++
        groupText true groups

/-- The numbers of groups. -/
def numbers (groups : List Nat) : List (List UInt8) :=
  groups.map fun i => decimal (i + 1 : Nat)

theorem groupText_true (i : Nat) (groups : List Nat) :
    groupText true (i :: groups) = 44 :: groupText false (i :: groups) := rfl

theorem groupText_eq (groups : List Nat) :
    groupText false groups = [44].intercalate (numbers groups) := by
  induction groups with
  | nil => rfl
  | cons i groups induction =>
      cases groups with
      | nil => simp [groupText, numbers]
      | cons next groups =>
          have rest : numbers (i :: next :: groups) =
              decimal (i + 1 : Nat) :: decimal (next + 1 : Nat) ::
                numbers groups := rfl
          have tail : numbers (next :: groups) =
              decimal (next + 1 : Nat) :: numbers groups := rfl
          rw [rest, List.intercalate_cons_cons, ← tail, ← induction]
          simp [groupText]

/-- A group up to 64 has one digit below 10 and two from there on. -/
theorem length_decimal (small : i < 64) :
    (decimal (i + 1 : Nat)).length = if i > 8 then 2 else 1 := by
  have positive : ¬ ((i + 1 : Nat) : Int) < 0 := by omega
  rw [decimal, if_neg positive, Int.natAbs_natCast]
  split
  · have two : 1 < (Nat.digits 10 (i + 1)).length :=
      (Nat.lt_digits_length_iff (by decide) _).mpr (by omega)
    have most : (padded 10 1 (i + 1)).length ≤ 2 :=
      length_padded_le (by decide) (by omega) (by decide)
    have least : (Nat.digits 10 (i + 1)).length ≤
        (padded 10 1 (i + 1)).length := by
      simp [padded]
    omega
  · exact length_padded (by decide) (by omega)

/-- What a group takes behind another one. -/
def groupSize (i : Nat) : Nat := if i > 8 then 3 else 2

theorem length_groupText_true (small : ∀ i ∈ groups, i < 64) :
    (groupText true groups).length = (groups.map groupSize).sum := by
  induction groups with
  | nil => rfl
  | cons i groups induction =>
      rw [List.forall_mem_cons] at small
      rw [groupText, List.length_append, induction small.2, List.map_cons,
        List.sum_cons, List.length_append, length_decimal small.1, groupSize,
        if_pos rfl, List.length_singleton]
      split <;> rfl

/-- What `mk_t_group` counts for a group. -/
def countedSize (i : Nat) : Nat := if i > 9 then 3 else 2

theorem foldl_needed (grp : UInt64) (places : List Nat) (needed : Nat) :
    places.foldl
        (fun needed i =>
          if grp &&& groupBit i ≠ 0 then
            if i > 9 then needed + 2 + 1 else needed + 2
          else needed)
        needed =
      needed + ((places.filter fun i =>
        grp &&& groupBit i ≠ 0).map countedSize).sum := by
  induction places generalizing needed with
  | nil => rfl
  | cons i places induction =>
      rw [List.foldl_cons, induction]
      by_cases set : grp &&& groupBit i ≠ 0
      · have kept := List.filter_cons_of_pos (l := places)
          (p := fun i => decide (grp &&& groupBit i ≠ 0)) (decide_eq_true set)
        rw [kept, if_pos set, List.map_cons, List.sum_cons, countedSize]
        split <;> omega
      · have left := List.filter_cons_of_neg (l := places)
          (p := fun i => decide (grp &&& groupBit i ≠ 0))
          (by rwa [decide_eq_true_eq])
        rw [left, if_neg set]

theorem neededFor_eq (grp : UInt64) :
    neededFor grp = 1 + ((setBits grp).map countedSize).sum :=
  foldl_needed grp (List.range 64) 1

/-- Group 10 is counted one byte short, and it is there at most once. -/
theorem sum_groupSize_le (nodup : groups.Nodup) :
    (groups.map groupSize).sum ≤
      (groups.map countedSize).sum + if 9 ∈ groups then 1 else 0 := by
  induction groups with
  | nil => exact Nat.le_refl 0
  | cons i groups induction =>
      rw [List.nodup_cons] at nodup
      have rest := induction nodup.2
      rw [List.map_cons, List.sum_cons, List.map_cons, List.sum_cons]
      by_cases ten : i = 9
      · subst ten
        rw [if_neg nodup.1] at rest
        have printed : groupSize 9 = 3 := rfl
        have counted : countedSize 9 = 2 := rfl
        rw [if_pos List.mem_cons_self, printed, counted]
        omega
      · have same : groupSize i = countedSize i := by
          unfold groupSize countedSize
          split <;> split <;> omega
        have member : 9 ∈ i :: groups ↔ 9 ∈ groups := by
          rw [List.mem_cons]
          exact or_iff_right fun here => ten here.symm
        simp only [member]
        omega

/-- The text with its zero fits, as the first group has no comma. -/
theorem length_groupText_lt (grp : UInt64) :
    (groupText false (setBits grp)).length < neededFor grp := by
  rw [neededFor_eq]
  cases set : setBits grp with
  | nil => exact Nat.zero_lt_one
  | cons i groups =>
      have small : ∀ j ∈ i :: groups, j < 64 := by
        intro j member
        rw [← set] at member
        exact lt_of_mem_setBits member
      have nodup := nodup_setBits grp
      rw [set] at nodup
      have length := length_groupText_true small
      have counted := sum_groupSize_le nodup
      rw [groupText_true, List.length_cons] at length
      split at counted <;> omega

/-! ## Printing all groups -/

variable {dot : Bool}

/-- The position moves on by what is printed. -/
theorem putGroup_eq (small : i < 64) (set : grp &&& groupBit i ≠ 0) :
    putGroup grp needed (p, dot) i =
      (p.print needed
        ((if dot then [44] else []) ++ decimal (i + 1 : Nat)), true) := by
  have length := length_decimal small
  rw [putGroup, if_pos set]
  cases dot with
  | false =>
      unfold Print.print
      rw [← length]
      rfl
  | true =>
      have size : (if i > 8 then 3 else 2) =
          (44 :: decimal (i + 1 : Nat)).length := by
        rw [List.length_cons, length]
        split <;> rfl
      unfold Print.print
      dsimp only
      rw [size]
      rfl

theorem putGroup_of_zero (unset : ¬ grp &&& groupBit i ≠ 0)
    (s : Print × Bool) : putGroup grp needed s i = s :=
  if_neg unset

theorem foldl_putGroup (places : List Nat) (s : Print × Bool) :
    places.foldl (putGroup grp needed) s =
      (places.filter fun i => grp &&& groupBit i ≠ 0).foldl
        (putGroup grp needed) s := by
  induction places generalizing s with
  | nil => rfl
  | cons i places induction =>
      rw [List.foldl_cons, induction]
      by_cases set : grp &&& groupBit i ≠ 0
      · rw [List.filter_cons, if_pos (decide_eq_true set), List.foldl_cons]
      · rw [List.filter_cons, if_neg (by rwa [decide_eq_true_eq]),
          putGroup_of_zero set]

theorem holds_putGroup (room : (txt ++ groupText dot groups).length < needed)
    (small : ∀ i ∈ groups, i < 64) (set : ∀ i ∈ groups, grp &&& groupBit i ≠ 0)
    (holds : p.Holds txt) :
    (groups.foldl (putGroup grp needed) (p, dot)).1.Holds
      (txt ++ groupText dot groups) := by
  induction groups generalizing p txt dot with
  | nil => rwa [groupText, List.append_nil]
  | cons i groups induction =>
      rw [List.forall_mem_cons] at small set
      rw [groupText, ← List.append_assoc] at room ⊢
      rw [List.foldl_cons, putGroup_eq small.1 set.1]
      apply induction room small.2 set.2
      apply holds.print
      simp only [List.length_append] at room ⊢
      omega

/-! ## The round trip -/

theorem isField_number {number : List UInt8} (small : ∀ i ∈ groups, i < 64)
    (listed : number ∈ numbers groups) : Stat.IsField number := by
  obtain ⟨i, member, rfl⟩ := List.mem_map.mp listed
  have few := small i member
  exact Stat.isField_decimal (by omega)

theorem not_mem_number {number : List UInt8} (small : ∀ i ∈ groups, i < 64)
    (listed : number ∈ numbers groups) {c : UInt8}
    (other : numberChar c = false) : c ∉ number := by
  intro member
  have digit := (isField_number small listed).number c member
  rw [other] at digit
  cases digit

theorem atoi_number (small : i < 64) :
    atoi (decimal (i + 1 : Nat)) = (i + 1 : Nat) :=
  Stat.atoi_decimal (Stat.int32_of_small (by omega) (by omega))

/-- The numbers of groups are read as their bits. -/
theorem foldl_numbers (small : ∀ i ∈ groups, i < 64) (mask : UInt64) :
    (numbers groups).foldl
        (fun grp ptr =>
          let g := atoi ptr
          if g > 0 ∧ g < 65 then grp ||| groupBit (g - 1).toNat else grp)
        mask =
      groups.foldl (fun mask i => mask ||| groupBit i) mask := by
  induction groups generalizing mask with
  | nil => rfl
  | cons i groups induction =>
      rw [List.forall_mem_cons] at small
      have first : numbers (i :: groups) =
          decimal (i + 1 : Nat) :: numbers groups := rfl
      have place : (((i + 1 : Nat) : Int) - 1).toNat = i := by omega
      have known : ((i + 1 : Nat) : Int) > 0 ∧ ((i + 1 : Nat) : Int) < 65 := by
        have few := small.1
        omega
      rw [first, List.foldl_cons, List.foldl_cons, ← induction small.2,
        atoi_number small.1]
      dsimp only
      rw [if_pos known, place]

/-- The groups of a text are those it was made of. -/
theorem readGroups_groupText (grp : UInt64) :
    readGroups (groupText false (setBits grp)) = grp := by
  have small : ∀ i ∈ setBits grp, i < 64 := fun i => lt_of_mem_setBits
  have tokens : strtok 44 (groupText false (setBits grp)) =
      numbers (setBits grp) := by
    rw [groupText_eq]
    apply strtok_intercalate
    · intro number listed
      exact not_mem_number small listed (by decide)
    · intro number listed
      exact (isField_number small listed).some
  rw [readGroups, tokens, foldl_numbers small, foldl_setBits]

/-- The buffer holds the text, with its zero behind it. -/
theorem mkTGroup_string (grp : UInt64) :
    (mkTGroup grp).Inside ∧
      (mkTGroup grp).string = groupText false (setBits grp) := by
  have fits := length_groupText_lt grp
  unfold mkTGroup
  dsimp only
  split
  · rename_i none
    rw [none, Nat.lt_one_iff, List.length_eq_zero_iff] at fits
    rw [fits]
    exact ⟨Text.inside_empty, Text.string_empty⟩
  · have room : ([] ++ groupText false (setBits grp)).length < _ := fits
    have printed := holds_putGroup room
      (fun i => lt_of_mem_setBits) (fun i member =>
        of_decide_eq_true (List.mem_filter.mp member).2) Print.holds_start
    have plain : 0 ∉ groupText false (setBits grp) := by
      rw [groupText_eq]
      apply Separated.not_mem_intercalate (by decide)
      intro number listed
      exact not_mem_number (fun i => lt_of_mem_setBits) listed (by decide)
    rw [List.nil_append] at printed
    rw [foldl_putGroup]
    exact printed.store_zero.string plain fits

/-- The text is inside its buffer, and the mask is read back from it. -/
theorem mkTGroup_roundTrip (grp : UInt64) :
    (mkTGroup grp).Inside ∧ chkAccountGroup (mkTGroup grp).string = grp ∧
      chkReaderGroup (mkTGroup grp).string = grp := by
  obtain ⟨inside, string⟩ := mkTGroup_string grp
  have same := readGroups_groupText grp
  rw [← string] at same
  exact ⟨inside, same, same⟩

/-- Groups 1, 10 and 64 fill the buffer to its last byte. -/
example : (mkTGroup 0x8000000000000201).string = Monitor.ascii "1,10,64" ∧
    (mkTGroup 0x8000000000000201).buf.written =
      (mkTGroup 0x8000000000000201).needed := by
  decide

end Oscam.Groups
