import Mathlib.Algebra.Order.BigOperators.Group.List
import Oscam.Config.Printing

/-!
# The tables of caids

`chk_caidtab` and `chk_tuntab` read the mappings of caids and of betatunnels,
and `mk_t_caidtab` and `mk_t_tuntab` print them again.  An entry has a caid, a
second part behind a mark of its own, and a target behind a colon.
-/

namespace Oscam.CaidTables

open Monitor (trim isBlank splitAt ascii)

/-- `CS_MAXCAIDTAB`. -/
abbrev csMaxcaidtab : Nat := 32

/-- `CS_MAXTUNTAB`. -/
abbrev csMaxtuntab : Nat := 20

/-- An entry: `caid`, `mask` and `cmap` of a `CAIDTAB`, or `bt_caidfrom`,
`bt_srvid` and `bt_caidto` of a `TUNTAB`. -/
structure Mapping where
  caid : Nat
  part : Nat
  target : Nat
  deriving DecidableEq, Repr

/-! ## Reading -/

/-- The text in front of the first separator, and the one behind it, which is
empty without a separator. -/
def cutAt (separator : UInt8) (txt : List UInt8) : List UInt8 × List UInt8 :=
  (splitAt separator txt).getD (txt, [])

/-- `a2i` with a negative number of bytes: missing digits are F. -/
def a2iFilled (asc : List UInt8) (bytes : Nat) : Option Nat :=
  (hexValue
    (((trim asc).reverse ++ List.replicate (2 * bytes) 70).take
      (2 * bytes))).map (· % 2 ^ 32)

/-- The numbers of an entry with this mark. -/
def readMapping (mark : UInt8) (ptr1 : List UInt8) : Mapping :=
  let (ptr1, ptr3) := cutAt 58 (trim ptr1)
  let (ptr1, ptr2) := cutAt mark (trim ptr1)
  { caid := (a2i ptr1 2).getD a2iError
    part := (a2iFilled ptr2 2).getD a2iError
    target := (a2i ptr3 2).getD a2iError }

/-- A place of a `CAIDTAB` that no entry was stored to; the loop that sets the
masks starts at the second place. -/
def unused (i : Nat) : Mapping :=
  { caid := 0, part := if i = 0 then 0 else 0xFFFF, target := 0 }

def chkCaidEntry (ptr1 : List UInt8) : Option Mapping :=
  let entry := readMapping 38 ptr1
  if entry.caid ||| entry.part ||| entry.target < 0x10000 then some entry
  else none

/-- The entries that were stored, with the places behind them. -/
def caidtabOf (stored : List Mapping) : List Mapping :=
  stored ++
    (List.range' stored.length (csMaxcaidtab - stored.length)).map unused

/-- `chk_caidtab`. -/
def chkCaidtab (caidasc : List UInt8) : List Mapping :=
  caidtabOf (((strtok 44 caidasc).filterMap chkCaidEntry).take csMaxcaidtab)

/-- The numbers are stored in fields of 16 bits, those of an invalid text as
well. -/
def chkTunEntry (ptr1 : List UInt8) : Option Mapping :=
  let entry := readMapping 46 ptr1
  if entry.caid ||| entry.part ||| entry.target ≠ 0 then
    some
      { caid := entry.caid % 2 ^ 16, part := entry.part % 2 ^ 16
        target := entry.target % 2 ^ 16 }
  else none

/-- `chk_tuntab`: the first `n` places; the others are zero. -/
def chkTuntab (tunasc : List UInt8) : List Mapping :=
  ((strtok 44 tunasc).filterMap chkTunEntry).take csMaxtuntab

/-! ## Printing -/

/-- The size that an entry is counted with. -/
def Mapping.size (entry : Mapping) : Nat :=
  (if entry.part ≠ 0 then 10 else 5) + if entry.target ≠ 0 then 5 else 0

/-- One turn of the loops of `mk_t_caidtab` and `mk_t_tuntab`. -/
def putMapping (mark : UInt8) (shown : Nat → Bool) (needed : Nat) (p : Print)
    (entry : Mapping × Nat) : Print :=
  let p :=
    if entry.2 = 0 then
      (p.snprintf needed (hexadecimal 4 entry.1.caid)).advance 4
    else (p.snprintf needed (44 :: hexadecimal 4 entry.1.caid)).advance 5
  let p :=
    if shown entry.1.part then
      (p.snprintf needed (mark :: hexadecimal 4 entry.1.part)).advance 5
    else p
  if entry.1.target ≠ 0 then
    (p.snprintf needed (58 :: hexadecimal 4 entry.1.target)).advance 5
  else p

def mkMappings (mark : UInt8) (shown : Nat → Bool) (entries : List Mapping) :
    Text :=
  let needed := 1 + (entries.map Mapping.size).sum
  if needed = 1 then .empty
  else
    let p := entries.zipIdx.foldl (putMapping mark shown needed) .start
    { needed := needed, buf := (p.store 0).buf }

/-- A mask is printed unless it is zero or has all bits. -/
def shownMask (mask : Nat) : Bool := mask ≠ 0 && mask ≠ 0xFFFF

/-- `mk_t_caidtab`; `none` if it reads behind the caids of the table. -/
def mkTCaidtab (ctab : List Mapping) : Option Text :=
  let listed := ctab.takeWhile (·.caid ≠ 0)
  if listed.length = csMaxcaidtab then none
  else some (mkMappings 38 shownMask listed)

/-- `mk_t_tuntab`. -/
def mkTTuntab (ttab : List Mapping) : Text := mkMappings 46 (· ≠ 0) ttab

/-- The table is printed inside its bounds and read back as it is. -/
def CaidtabKept (ctab : List Mapping) : Prop :=
  ∃ t ∈ mkTCaidtab ctab, t.Inside ∧ chkCaidtab t.string = ctab

def TuntabKept (ttab : List Mapping) : Prop :=
  (mkTTuntab ttab).Inside ∧ chkTuntab (mkTTuntab ttab).string = ttab

/-! ## The text of an entry -/

/-- The fields have 16 bits. -/
structure Mapping.Typed (entry : Mapping) : Prop where
  caid : entry.caid < 2 ^ 16
  part : entry.part < 2 ^ 16
  target : entry.target < 2 ^ 16

def Mapping.front (mark : UInt8) (shown : Nat → Bool) (entry : Mapping) :
    List UInt8 :=
  hexadecimal 4 entry.caid ++
    if shown entry.part then mark :: hexadecimal 4 entry.part else []

def Mapping.text (mark : UInt8) (shown : Nat → Bool) (entry : Mapping) :
    List UInt8 :=
  entry.front mark shown ++
    if entry.target ≠ 0 then 58 :: hexadecimal 4 entry.target else []

variable {entry : Mapping} {entries : List Mapping} {mark : UInt8}
  {shown : Nat → Bool} {needed : Nat} {p : Print} {txt : List UInt8}

theorem length_hexadecimal_four {n : Nat} (small : n < 2 ^ 16) :
    (hexadecimal 4 n).length = 4 :=
  length_padded (by decide) small

/-- A printed number with its mark, counted with its real length. -/
theorem holds_marked {n : Nat} (holds : p.Holds txt) (small : n < 2 ^ 16)
    (room : 5 < needed) (mark : UInt8) :
    ((p.snprintf needed (mark :: hexadecimal 4 n)).advance 5).Holds
      (txt ++ mark :: hexadecimal 4 n) := by
  have length : (mark :: hexadecimal 4 n).length = 5 := by
    rw [List.length_cons, length_hexadecimal_four small]
  have step := holds.print needed (mark :: hexadecimal 4 n) (by omega)
  rwa [Print.print, length] at step

theorem holds_putMapping (mark : UInt8) (shown : Nat → Bool)
    (typed : entry.Typed) (room : 5 < needed) (i : Nat)
    (holds : p.Holds txt) :
    (putMapping mark shown needed p (entry, i)).Holds
      (txt ++ (if i = 0 then [] else [44]) ++ entry.text mark shown) := by
  have first : Print.Holds
      (if i = 0 then (p.snprintf needed (hexadecimal 4 entry.caid)).advance 4
        else (p.snprintf needed (44 :: hexadecimal 4 entry.caid)).advance 5)
      (txt ++ (if i = 0 then [] else [44]) ++ hexadecimal 4 entry.caid) := by
    have length := length_hexadecimal_four typed.caid
    by_cases start : i = 0
    · have step := holds.print needed (hexadecimal 4 entry.caid) (by omega)
      rw [if_pos start, if_pos start, List.append_nil]
      rwa [Print.print, length] at step
    · rw [if_neg start, if_neg start, List.append_assoc]
      exact holds_marked holds typed.caid room 44
  unfold putMapping Mapping.text Mapping.front
  dsimp only
  generalize (if i = 0 then (p.snprintf needed (hexadecimal 4
    entry.caid)).advance 4 else (p.snprintf needed (44 :: hexadecimal 4
      entry.caid)).advance 5) = q at first ⊢
  by_cases printed : shown entry.part = true
  · rw [if_pos printed, if_pos printed]
    have second := holds_marked first typed.part room mark
    by_cases mapped : entry.target ≠ 0
    · rw [if_pos mapped, if_pos mapped]
      have third := holds_marked second typed.target room 58
      simpa only [List.append_assoc] using third
    · rw [if_neg mapped, if_neg mapped]
      simpa only [List.append_assoc, List.append_nil] using second
  · rw [if_neg printed, if_neg printed]
    by_cases mapped : entry.target ≠ 0
    · rw [if_pos mapped, if_pos mapped]
      have third := holds_marked first typed.target room 58
      simpa only [List.append_assoc, List.append_nil] using third
    · rw [if_neg mapped, if_neg mapped]
      simpa only [List.append_assoc, List.append_nil] using first

/-! ## Reading the text of an entry -/

/-- A character that can stand in front of the second part. -/
structure IsMark (mark : UInt8) : Prop where
  number : numberChar mark = false
  colon : mark ≠ 58
  comma : mark ≠ 44
  zero : mark ≠ 0
  blank : isBlank mark = false

theorem isMark_and : IsMark 38 := by constructor <;> decide

theorem isMark_dot : IsMark 46 := by constructor <;> decide

theorem mem_front {c : UInt8} (member : c ∈ entry.front mark shown) :
    numberChar c = true ∨ c = mark := by
  have number {n : Nat} (inside : c ∈ hexadecimal 4 n) : numberChar c = true :=
    numberChar_padded (by decide) (by decide) c inside
  unfold Mapping.front at member
  rcases List.mem_append.mp member with caid | part
  · exact .inl (number caid)
  · split at part
    · rcases List.mem_cons.mp part with same | digits
      · exact .inr same
      · exact .inl (number digits)
    · exact absurd part List.not_mem_nil

theorem mem_text {c : UInt8} (member : c ∈ entry.text mark shown) :
    numberChar c = true ∨ c = mark ∨ c = 58 := by
  unfold Mapping.text at member
  rcases List.mem_append.mp member with front | target
  · rcases mem_front front with number | same
    · exact .inl number
    · exact .inr (.inl same)
  · split at target
    · rcases List.mem_cons.mp target with same | digits
      · exact .inr (.inr same)
      · exact .inl (numberChar_padded (by decide) (by decide) c digits)
    · exact absurd target List.not_mem_nil

/-- The separators and the zero do not occur in the text of an entry. -/
theorem not_mem_text {c : UInt8} (number : numberChar c = false)
    (other : mark ≠ c) (colon : c ≠ 58) : c ∉ entry.text mark shown := by
  intro member
  rcases mem_text member with isNumber | same | same
  · rw [number] at isNumber
    exact Bool.noConfusion isNumber
  · exact other same.symm
  · exact colon same

theorem text_ne_nil : entry.text mark shown ≠ [] := by
  unfold Mapping.text Mapping.front
  rw [List.append_assoc]
  exact List.append_ne_nil_of_left_ne_nil (padded_ne_nil (by decide)) _

theorem isBlank_front (isMark : IsMark mark) :
    ∀ c ∈ entry.front mark shown, isBlank c = false := by
  intro c member
  rcases mem_front member with number | rfl
  · exact isBlank_of_numberChar number
  · exact isMark.blank

theorem isBlank_text (isMark : IsMark mark) :
    ∀ c ∈ entry.text mark shown, isBlank c = false := by
  intro c member
  rcases mem_text member with number | rfl | rfl
  · exact isBlank_of_numberChar number
  · exact isMark.blank
  · rfl

theorem a2i_four {n : Nat} (small : n < 2 ^ 16) :
    a2i (hexadecimal 4 n) 2 = some n :=
  a2i_hexadecimal_alone (by decide) (by decide) small (by omega)

/-- With all digits there nothing is filled. -/
theorem a2iFilled_four {n : Nat} (small : n < 2 ^ 16) :
    a2iFilled (hexadecimal 4 n) 2 = some n := by
  have plain : trim (hexadecimal 4 n) = hexadecimal 4 n := by
    apply trim_of_plain
    intro c member
    exact isBlank_of_numberChar
      (numberChar_padded (by decide) (by decide) c member)
  have length : (trim (hexadecimal 4 n)).reverse.length = 2 * 2 := by
    rw [plain, List.length_reverse, length_hexadecimal_four small]
  have value := a2i_four small
  unfold a2i at value
  unfold a2iFilled
  rwa [List.take_append_of_le_length (by omega)]

/-- What is read back of an entry. -/
def Mapping.reread (shown : Nat → Bool) (entry : Mapping) : Mapping :=
  { entry with part := if shown entry.part then entry.part else 0xFFFF }

theorem cutAt_append {separator : UInt8} {front : List UInt8}
    (plain : separator ∉ front) (back : List UInt8) :
    cutAt separator (front ++ separator :: back) = (front, back) := by
  rw [cutAt, splitAt_append plain]
  rfl

theorem cutAt_of_not_mem {separator : UInt8} {txt : List UInt8}
    (plain : separator ∉ txt) : cutAt separator txt = (txt, []) := by
  rw [cutAt, splitAt_of_not_mem plain]
  rfl

theorem readMapping_text (isMark : IsMark mark) (typed : entry.Typed) :
    readMapping mark (entry.text mark shown) = entry.reread shown := by
  have colon : (58 : UInt8) ∉ entry.front mark shown := by
    intro member
    rcases mem_front member with number | same
    · cases number
    · exact isMark.colon same.symm
  have halves : cutAt 58 (entry.text mark shown) =
      (entry.front mark shown,
        if entry.target ≠ 0 then hexadecimal 4 entry.target else []) := by
    unfold Mapping.text
    by_cases mapped : entry.target ≠ 0
    · rw [if_pos mapped, if_pos mapped, cutAt_append colon]
    · rw [if_neg mapped, if_neg mapped, List.append_nil,
        cutAt_of_not_mem colon]
  have digits : mark ∉ hexadecimal 4 entry.caid :=
    not_mem_hexadecimal isMark.number 4 _
  have parts : cutAt mark (entry.front mark shown) =
      (hexadecimal 4 entry.caid,
        if shown entry.part then hexadecimal 4 entry.part else []) := by
    unfold Mapping.front
    by_cases printed : shown entry.part = true
    · rw [if_pos printed, if_pos printed, cutAt_append digits]
    · rw [if_neg printed, if_neg printed, List.append_nil,
        cutAt_of_not_mem digits]
  have caid := a2i_four typed.caid
  have part : a2iFilled
      (if shown entry.part then hexadecimal 4 entry.part else []) 2 =
        some (if shown entry.part then entry.part else 0xFFFF) := by
    split
    · exact a2iFilled_four typed.part
    · decide
  have target : a2i
      (if entry.target ≠ 0 then hexadecimal 4 entry.target else []) 2 =
        some entry.target := by
    by_cases mapped : entry.target ≠ 0
    · rw [if_pos mapped]
      exact a2i_four typed.target
    · rw [if_neg mapped, not_not.mp mapped]
      decide
  unfold readMapping
  rw [trim_of_plain (isBlank_text isMark)]
  simp only [halves, trim_of_plain (isBlank_front isMark), parts, caid, part,
    target, Option.getD_some]
  rfl

/-! ## Reading the text of a table -/

/-- The text of a table: its entries with commas between them. -/
def tableText (mark : UInt8) (shown : Nat → Bool) (entries : List Mapping) :
    List UInt8 :=
  [44].intercalate (entries.map (·.text mark shown))

theorem strtok_tableText (isMark : IsMark mark) (entries : List Mapping) :
    strtok 44 (tableText mark shown entries) =
      entries.map (·.text mark shown) := by
  apply strtok_intercalate
  · intro field member
    obtain ⟨entry, _, rfl⟩ := List.mem_map.mp member
    exact not_mem_text rfl isMark.comma (by decide)
  · intro field member
    obtain ⟨entry, _, rfl⟩ := List.mem_map.mp member
    exact text_ne_nil

/-- An entry is printed in the size that it is counted with. -/
theorem length_text_lt (typed : entry.Typed)
    (counted : ∀ part, shown part = true → part ≠ 0) :
    (entry.text mark shown).length + 1 ≤ entry.size := by
  have caid := length_hexadecimal_four typed.caid
  have part := length_hexadecimal_four typed.part
  have target := length_hexadecimal_four typed.target
  unfold Mapping.text Mapping.front Mapping.size
  by_cases printed : shown entry.part = true
  · have some := counted entry.part printed
    by_cases mapped : entry.target = 0 <;>
      simp [printed, some, mapped, caid, part, target]
  · rw [if_neg printed]
    by_cases some : entry.part = 0 <;> by_cases mapped : entry.target = 0 <;>
      simp [some, mapped, caid, target]

/-- The text is printed inside the buffer, whatever the table. -/
theorem mkMappings_text (shown : Nat → Bool) (isMark : IsMark mark)
    (counted : ∀ part, shown part = true → part ≠ 0)
    (typed : ∀ entry ∈ entries, entry.Typed) :
    (mkMappings mark shown entries).Inside ∧
      (mkMappings mark shown entries).string =
        tableText mark shown entries := by
  have sizes : ((entries.map (·.text mark shown)).map
      fun field => field.length + 1).sum ≤
        (entries.map Mapping.size).sum := by
    rw [List.map_map]
    apply List.sum_le_sum
    intro entry member
    exact length_text_lt (typed entry member) counted
  have total := (Separated.length_intercalate_le_sum (44 : UInt8)
    (entries.map (·.text mark shown))).trans sizes
  unfold mkMappings
  dsimp only
  by_cases none : 1 + (entries.map Mapping.size).sum = 1
  · have length : (tableText mark shown entries).length = 0 := by
      unfold tableText
      omega
    rw [if_pos none, List.eq_nil_of_length_eq_zero length]
    exact ⟨Text.inside_empty, Text.string_empty⟩
  · have room : ∀ entry ∈ entries, 5 < 1 + (entries.map Mapping.size).sum := by
      intro entry member
      have part := List.single_le_sum (by simp) entry.size
        (List.mem_map_of_mem member)
      have least : 5 ≤ entry.size := by
        unfold Mapping.size
        split <;> omega
      omega
    have printed : (entries.zipIdx.foldl (putMapping mark shown
        (1 + (entries.map Mapping.size).sum)) .start).Holds
          (tableText mark shown entries) := by
      have items := Print.foldl_items [] 44
        (putMapping mark shown (1 + (entries.map Mapping.size).sum))
        (Mapping.text mark shown) Print.holds_start entries
        fun p txt i _ entry member holds =>
          holds_putMapping mark shown (typed entry member) (room entry member) i
            holds
      simpa [tableText] using items
    rw [if_neg none]
    apply printed.store_zero.string
    · apply Separated.not_mem_intercalate (by decide)
      intro field listed
      obtain ⟨entry, _, rfl⟩ := List.mem_map.mp listed
      exact not_mem_text rfl isMark.zero (by decide)
    · unfold tableText
      omega

/-! ## Saving and reading again -/

theorem lt_of_or_lt {a b c : Nat} {n : Nat} (small : a ||| b ||| c < n) :
    a < n ∧ b < n ∧ c < n := by
  have inner : a ||| b < n := lt_of_le_of_lt Nat.left_le_or small
  exact ⟨lt_of_le_of_lt Nat.left_le_or inner,
    lt_of_le_of_lt Nat.right_le_or inner,
    lt_of_le_of_lt Nat.right_le_or small⟩

theorem typed_of_chkCaidEntry {ptr1 : List UInt8}
    (stored : chkCaidEntry ptr1 = some entry) : entry.Typed := by
  unfold chkCaidEntry at stored
  dsimp only at stored
  split at stored
  · rename_i small
    rw [← Option.some.inj stored]
    obtain ⟨caid, part, target⟩ := lt_of_or_lt small
    exact ⟨caid, part, target⟩
  · cases stored

theorem typed_of_chkTunEntry {ptr1 : List UInt8}
    (stored : chkTunEntry ptr1 = some entry) : entry.Typed := by
  unfold chkTunEntry at stored
  dsimp only at stored
  split at stored
  · rw [← Option.some.inj stored]
    exact ⟨Nat.mod_lt _ (by decide), Nat.mod_lt _ (by decide),
      Nat.mod_lt _ (by decide)⟩
  · cases stored

theorem typed_unused (i : Nat) : (unused i).Typed := by
  refine ⟨Nat.two_pow_pos 16, ?_, Nat.two_pow_pos 16⟩
  unfold unused
  dsimp only
  split <;> decide

theorem length_caidtabOf (few : entries.length ≤ csMaxcaidtab) :
    (caidtabOf entries).length = csMaxcaidtab := by
  rw [caidtabOf, List.length_append, List.length_map, List.length_range']
  omega

theorem length_chkCaidtab (caidasc : List UInt8) :
    (chkCaidtab caidasc).length = csMaxcaidtab :=
  length_caidtabOf (List.length_take_le _ _)

theorem typed_chkCaidtab {caidasc : List UInt8}
    (member : entry ∈ chkCaidtab caidasc) : entry.Typed := by
  rcases List.mem_append.mp member with stored | behind
  · obtain ⟨ptr1, _, found⟩ :=
      List.mem_filterMap.mp (List.mem_of_mem_take stored)
    exact typed_of_chkCaidEntry found
  · obtain ⟨i, _, rfl⟩ := List.mem_map.mp behind
    exact typed_unused i

theorem typed_chkTuntab {tunasc : List UInt8}
    (member : entry ∈ chkTuntab tunasc) : entry.Typed := by
  obtain ⟨ptr1, _, found⟩ :=
    List.mem_filterMap.mp (List.mem_of_mem_take member)
  exact typed_of_chkTunEntry found

theorem typed_reread (shown : Nat → Bool) (typed : entry.Typed) :
    (entry.reread shown).Typed := by
  refine ⟨typed.caid, ?_, typed.target⟩
  show (if shown entry.part then entry.part else 0xFFFF) < 2 ^ 16
  split
  · exact typed.part
  · decide

/-- The mask is what can change: a mask of zero is read as FFFF. -/
theorem reread_eq_iff (hidden : ∀ part, shown part = false →
    part = 0 ∨ part = 0xFFFF) (counted : ∀ part, shown part = true →
      part ≠ 0) : entry.reread shown = entry ↔ entry.part ≠ 0 := by
  have same : entry.reread shown = entry ↔
      (if shown entry.part then entry.part else 0xFFFF) = entry.part := by
    constructor
    · exact congrArg Mapping.part
    · intro part
      rw [Mapping.reread, part]
  rw [same]
  by_cases printed : shown entry.part = true
  · rw [if_pos printed]
    exact iff_of_true rfl (counted _ printed)
  · rw [if_neg printed]
    rcases hidden _ (Bool.eq_false_iff.mpr printed) with zero | all
    · simp [zero]
    · simp [all]

theorem map_reread_eq_iff (shown : Nat → Bool)
    (hidden : ∀ part, shown part = false → part = 0 ∨ part = 0xFFFF)
    (counted : ∀ part, shown part = true → part ≠ 0)
    (entries : List Mapping) :
    entries.map (·.reread shown) = entries ↔
      ∀ entry ∈ entries, entry.part ≠ 0 := by
  have each := List.map_inj_left (l := entries)
    (f := (·.reread shown)) (g := id)
  rw [List.map_id] at each
  rw [each]
  exact forall₂_congr fun entry _ => reread_eq_iff hidden counted

theorem counted_shownMask (part : Nat) (printed : shownMask part = true) :
    part ≠ 0 := by
  unfold shownMask at printed
  simp only [ne_eq, decide_not, Bool.and_eq_true, Bool.not_eq_true',
    decide_eq_false_iff_not] at printed
  exact printed.1

theorem hidden_shownMask (part : Nat) (skipped : shownMask part = false) :
    part = 0 ∨ part = 0xFFFF := by
  unfold shownMask at skipped
  grind

theorem chkCaidEntry_text (typed : entry.Typed) :
    chkCaidEntry (entry.text 38 shownMask) = some (entry.reread shownMask) := by
  have fields := typed_reread shownMask typed
  have small : (entry.reread shownMask).caid ||| (entry.reread shownMask).part
      ||| (entry.reread shownMask).target < 0x10000 :=
    Nat.or_lt_two_pow (n := 16)
      (Nat.or_lt_two_pow fields.caid fields.part) fields.target
  unfold chkCaidEntry
  rw [readMapping_text isMark_and typed]
  exact if_pos small

theorem chkCaidtab_tableText (typed : ∀ entry ∈ entries, entry.Typed)
    (few : entries.length ≤ csMaxcaidtab) :
    chkCaidtab (tableText 38 shownMask entries) =
      caidtabOf (entries.map (·.reread shownMask)) := by
  have stored : (entries.map (·.text 38 shownMask)).filterMap chkCaidEntry =
      entries.map (·.reread shownMask) := by
    rw [List.filterMap_map, ← List.filterMap_eq_map]
    apply List.filterMap_congr
    intro entry member
    exact chkCaidEntry_text (typed entry member)
  rw [chkCaidtab, strtok_tableText isMark_and, stored,
    List.take_of_length_le (by rwa [List.length_map])]

theorem chkTuntab_tableText (typed : ∀ entry ∈ entries, entry.Typed)
    (few : entries.length ≤ csMaxtuntab) :
    chkTuntab (tableText 46 (· ≠ 0) entries) =
      entries.map (·.reread (· ≠ 0)) := by
  have stored : (entries.map (·.text 46 (· ≠ 0))).filterMap chkTunEntry =
      entries.map (·.reread (· ≠ 0)) := by
    rw [List.filterMap_map, ← List.filterMap_eq_map]
    apply List.filterMap_congr
    intro entry member
    have fields := typed_reread (· ≠ 0) (typed entry member)
    have some : (entry.reread (· ≠ 0)).part ≠ 0 := by
      show (if decide (entry.part ≠ 0) = true then entry.part else 0xFFFF) ≠ 0
      split
      · exact of_decide_eq_true (by assumption)
      · decide
    have filled : (entry.reread (· ≠ 0)).caid ||| (entry.reread (· ≠ 0)).part
        ||| (entry.reread (· ≠ 0)).target ≠ 0 := by
      intro zero
      have least := lt_of_or_lt (zero.trans_lt Nat.one_pos)
      omega
    show chkTunEntry (entry.text 46 (· ≠ 0)) = _
    unfold chkTunEntry
    rw [readMapping_text isMark_dot (typed entry member)]
    dsimp only
    rw [if_pos filled, Nat.mod_eq_of_lt fields.caid,
      Nat.mod_eq_of_lt fields.part, Nat.mod_eq_of_lt fields.target]
    rfl
  rw [chkTuntab, strtok_tableText isMark_dot, stored,
    List.take_of_length_le (by rwa [List.length_map])]

/-- Up to some place of the table all entries have a caid and a mask, and from
there on no entry was stored. -/
def CaidtabPlain (ctab : List Mapping) : Prop :=
  ∃ k < csMaxcaidtab,
    (∀ entry ∈ ctab.take k, entry.caid ≠ 0 ∧ entry.part ≠ 0) ∧
      ctab.drop k = (List.range' k (csMaxcaidtab - k)).map unused

/-- The text is read back as the entries that it was made of. -/
theorem kept_of_listed_iff {listed : List Mapping} (rest : List Mapping)
    (typed : ∀ entry ∈ listed, entry.Typed)
    (room : listed.length < csMaxcaidtab) :
    ((mkMappings 38 shownMask listed).Inside ∧
      chkCaidtab (mkMappings 38 shownMask listed).string = listed ++ rest) ↔
      (∀ entry ∈ listed, entry.part ≠ 0) ∧
        (List.range' listed.length (csMaxcaidtab - listed.length)).map unused =
          rest := by
  obtain ⟨inside, string⟩ :=
    mkMappings_text shownMask isMark_and counted_shownMask typed
  have stored := map_reread_eq_iff shownMask hidden_shownMask
    counted_shownMask listed
  rw [string, chkCaidtab_tableText typed room.le, caidtabOf, List.length_map,
    ← stored]
  constructor
  · rintro ⟨_, same⟩
    exact List.append_inj same (List.length_map _)
  · rintro ⟨front, back⟩
    exact ⟨inside, by rw [front, back]⟩

/-- The printer finds the end of a table at its first unused place. -/
theorem takeWhile_eq_take {ctab : List Mapping} {k : Nat}
    (room : k < csMaxcaidtab)
    (listed : ∀ entry ∈ ctab.take k, entry.caid ≠ 0 ∧ entry.part ≠ 0)
    (rest : ctab.drop k =
      (List.range' k (csMaxcaidtab - k)).map unused) :
    ctab.takeWhile (·.caid ≠ 0) = ctab.take k := by
  obtain ⟨n, size⟩ : ∃ n, csMaxcaidtab - k = n + 1 :=
    ⟨csMaxcaidtab - k - 1, by omega⟩
  rw [size, List.range'_succ, List.map_cons] at rest
  have named : ∀ entry ∈ ctab.take k, decide (entry.caid ≠ 0) = true :=
    fun entry member => decide_eq_true (listed entry member).1
  have first : (unused k :: (List.range' (k + 1) n).map unused).takeWhile
      (·.caid ≠ 0) = [] := by
    simp [unused]
  calc ctab.takeWhile (·.caid ≠ 0)
      = (ctab.take k ++ ctab.drop k).takeWhile (·.caid ≠ 0) := by
        rw [List.take_append_drop]
    _ = ctab.take k := by
        rw [rest, List.takeWhile_append_of_pos named, first, List.append_nil]

/-- The entries in front of the first one without a caid decide. -/
theorem caidtabKept_iff (caidasc : List UInt8) :
    CaidtabKept (chkCaidtab caidasc) ↔ CaidtabPlain (chkCaidtab caidasc) := by
  have whole := length_chkCaidtab caidasc
  have typed : ∀ entry ∈ chkCaidtab caidasc, entry.Typed :=
    fun entry member => typed_chkCaidtab member
  generalize chkCaidtab caidasc = ctab at whole typed
  have prefixed : ctab.takeWhile (·.caid ≠ 0) <+: ctab :=
    List.takeWhile_prefix _
  have listedTyped : ∀ entry ∈ ctab.takeWhile (·.caid ≠ 0), entry.Typed :=
    fun entry member => typed entry (prefixed.subset member)
  constructor
  · rintro ⟨t, printed, kept⟩
    unfold mkTCaidtab at printed
    dsimp only at printed
    split at printed
    · cases printed
    · rename_i ends
      have room : (ctab.takeWhile (·.caid ≠ 0)).length < csMaxcaidtab :=
        lt_of_le_of_ne (prefixed.length_le.trans_eq whole) ends
      obtain rfl := Option.some.inj printed
      have taken := List.prefix_iff_eq_take.mp prefixed
      have parts := kept_of_listed_iff
        (ctab.drop (ctab.takeWhile (·.caid ≠ 0)).length) listedTyped room
      have split : ctab.takeWhile (·.caid ≠ 0) ++
          ctab.drop (ctab.takeWhile (·.caid ≠ 0)).length = ctab :=
        (List.prefix_append_drop prefixed).symm
      rw [split] at parts
      obtain ⟨masks, unusedRest⟩ := parts.mp kept
      refine ⟨(ctab.takeWhile (·.caid ≠ 0)).length, room, ?_, unusedRest.symm⟩
      intro entry member
      rw [← taken] at member
      have named := List.mem_takeWhile_imp
        (p := fun (entry : Mapping) => entry.caid ≠ 0) member
      exact ⟨of_decide_eq_true named, masks entry member⟩
  · rintro ⟨k, room, listed, rest⟩
    have ends := takeWhile_eq_take room listed rest
    have length : (ctab.takeWhile (·.caid ≠ 0)).length = k := by
      rw [ends, List.length_take, whole]
      omega
    have parts := kept_of_listed_iff (ctab.drop k) listedTyped
      (by omega)
    rw [length, ends, List.take_append_drop] at parts
    refine ⟨mkMappings 38 shownMask (ctab.take k), ?_, parts.mpr ?_⟩
    · unfold mkTCaidtab
      dsimp only
      rw [if_neg (by omega), ends]
      rfl
    · exact ⟨fun entry member => (listed entry member).2, rest.symm⟩

theorem tuntabKept_iff (tunasc : List UInt8) :
    TuntabKept (chkTuntab tunasc) ↔
      ∀ entry ∈ chkTuntab tunasc, entry.part ≠ 0 := by
  have few : (chkTuntab tunasc).length ≤ csMaxtuntab :=
    List.length_take_le _ _
  have typed : ∀ entry ∈ chkTuntab tunasc, entry.Typed :=
    fun entry member => typed_chkTuntab member
  generalize chkTuntab tunasc = ttab at few typed
  obtain ⟨inside, string⟩ := mkMappings_text (· ≠ 0) isMark_dot (by simp)
    typed
  have stored := map_reread_eq_iff (· ≠ 0) (by simp) (by simp) ttab
  unfold TuntabKept mkTTuntab
  rw [string, chkTuntab_tableText typed few, stored]
  exact and_iff_right inside

/-- Which tables a save and a new start leave as they are. -/
theorem saved_tables_iff (caidasc tunasc : List UInt8) :
    (CaidtabKept (chkCaidtab caidasc) ↔ CaidtabPlain (chkCaidtab caidasc)) ∧
      (TuntabKept (chkTuntab tunasc) ↔
        ∀ entry ∈ chkTuntab tunasc, entry.part ≠ 0) :=
  ⟨caidtabKept_iff caidasc, tuntabKept_iff tunasc⟩

/-- `1234&0000` is read back as `1234&FFFF`, `1801.0000:1702` comes back with
the service FFFF, and 32 caids are read past their end. -/
theorem tables_changed :
    ¬ CaidtabKept (chkCaidtab (ascii "1234&0000")) ∧
      ¬ TuntabKept (chkTuntab (ascii "1801.0000:1702")) ∧
        ¬ CaidtabKept (chkCaidtab
          ([44].intercalate (List.replicate 32 (ascii "1234")))) := by
  refine ⟨?_, ?_, ?_⟩
  · rintro ⟨t, printed, _, kept⟩
    obtain rfl := Option.some.inj printed
    exact absurd kept (by decide)
  · rintro ⟨_, kept⟩
    exact absurd kept (by decide)
  · rintro ⟨t, printed, _⟩
    have outside : mkTCaidtab (chkCaidtab
        ([44].intercalate (List.replicate 32 (ascii "1234")))) = none := by
      decide
    rw [outside] at printed
    cases printed

end Oscam.CaidTables
