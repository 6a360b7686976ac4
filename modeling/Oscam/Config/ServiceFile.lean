import Oscam.Config.Services
import Oscam.Numerals

/-!
# The file of the services

`write_services` writes `cfg.sidtab` to oscam.services, from which
`init_sidtab` loads it again.  A list of numbers is one line of the file, but a
line is read into a buffer of 1024 bytes.
-/

namespace Oscam.Services

open Monitor (cstr trim isBlank splitAt ascii)

/-! ## Writing -/

/-- `CONFVARWIDTH`. -/
abbrev confVarWidth : Nat := 30

/-- What `fprintf_conf` writes in front of a value. -/
def fprintfConf (varname : List UInt8) : List UInt8 :=
  varname ++ List.replicate (confVarWidth - varname.length) 32 ++ ascii "= "

/-- The loops over the numbers of a list, with `%0*X`. -/
def printNumbers (width : Nat) (numbers : List Nat) : List UInt8 :=
  [44].intercalate (numbers.map (hexadecimal width))

/-- `*ptr = '_'` for a space. -/
def underscore (c : UInt8) : UInt8 := if c = 32 then 95 else c

/-- The entry with the label as `write_services` leaves it. -/
def underscored (sidtab : Sidtab) : Sidtab :=
  { sidtab with label := sidtab.label.map underscore }

/-- The section of an entry. -/
def printSidtab (sidtab : Sidtab) : List UInt8 :=
  ascii "[" ++ sidtab.label ++ ascii "]\n" ++
    fprintfConf (ascii "caid") ++ printNumbers 4 sidtab.caid ++ ascii "\n" ++
    fprintfConf (ascii "provid") ++ printNumbers 6 sidtab.provid ++
    ascii "\n" ++
    fprintfConf (ascii "srvid") ++ printNumbers 4 sidtab.srvid ++ ascii "\n\n"

/-- `CS_SVN_VERSION`, which the build sets. -/
structure SvnVersion where
  txt : List UInt8
  plain : 10 ∉ txt
  short : txt.length < 900

def generatedBy : List UInt8 :=
  ascii "# oscam.services generated automatically by Streamboard OSCAM " ++
    ascii "1.10rc-svn build #"

def readMore : List UInt8 :=
  ascii "# Read more: http://streamboard.gmc.to/svn/oscam/trunk/" ++
    ascii "Distribution/doc/txt/oscam.services.txt"

/-- The comments at the begin of the file. -/
def printComments (version : SvnVersion) : List UInt8 :=
  generatedBy ++ version.txt ++ ascii "\n" ++ readMore ++ ascii "\n\n"

/-- `write_services`: `cfg.sidtab` afterwards, and the file. -/
def writeServices (version : SvnVersion) (table : List Sidtab) :
    List Sidtab × List UInt8 :=
  (table.map underscored,
    printComments version ++ (table.map underscored).flatMap printSidtab)

/-- Written and loaded again, the table is the same up to spaces in labels. -/
def SameTable (version : SvnVersion) (table : List Sidtab) : Prop :=
  initSidtab (writeServices version table).1 (writeServices version table).2 =
    table.map underscored

/-! ## What fits in a line -/

/-- The characters of a line behind the `=` and a space, as far as a buffer
has room for them. -/
abbrev valueRoom : Nat := maxLineSize - 1 - (confVarWidth + 2)

/-- The digits of the numbers, each with a comma. -/
def needed (width : Nat) (numbers : List Nat) : Nat :=
  (numbers.map fun number => max width (Nat.digits 16 number).length + 1).sum

/-- The list needs no more than one buffer, or only zeros of a last zero are
cut off. -/
def FitsLine (width : Nat) (numbers : List Nat) : Prop :=
  needed width numbers ≤ valueRoom + 1 ∨
    numbers.getLast? = some 0 ∧ needed width numbers ≤ valueRoom + width

instance (width : Nat) (numbers : List Nat) :
    Decidable (FitsLine width numbers) :=
  inferInstanceAs (Decidable (_ ∨ _))

/-- Every list of the entry fits in its line. -/
structure Fits (sidtab : Sidtab) : Prop where
  caid : FitsLine 4 sidtab.caid
  provid : FitsLine 6 sidtab.provid
  srvid : FitsLine 4 sidtab.srvid

/-! ## Reading a list -/

variable {width bytes n : Nat} {numbers : List Nat}

/-- A number is printed with as many digits as it is read with at most. -/
structure Printable (width bytes : Nat) (numbers : List Nat) : Prop where
  some : 0 < width
  narrow : width ≤ 2 * bytes
  small : ∀ number ∈ numbers, number < 16 ^ (2 * bytes)
  word : ∀ number ∈ numbers, number < 2 ^ 32

theorem length_hexadecimal (width n : Nat) :
    (hexadecimal width n).length = max width (Nat.digits 16 n).length := by
  unfold hexadecimal padded
  simp only [List.length_append, List.length_replicate, List.length_map,
    List.length_reverse]
  omega

theorem not_mem_strtolower_hexadecimal (width n count : Nat) :
    44 ∉ strtolower ((hexadecimal width n).take count) := by
  intro member
  unfold strtolower at member
  rw [List.map_take] at member
  obtain ⟨digit, small, comma⟩ :=
    mem_strtolower_hexadecimal (List.mem_of_mem_take member)
  revert comma
  interval_cases digit <;> decide

/-- A number of which the last digits are missing is the same only if it is
zero. -/
theorem div_pow_eq_self_iff (cut : Nat) :
    n / 16 ^ cut = n ↔ cut = 0 ∨ n = 0 := by
  constructor
  · intro same
    by_contra both
    have positive : 0 < n := by omega
    have more : 1 < 16 ^ cut := Nat.one_lt_pow (by omega) (by decide)
    have less := Nat.div_lt_self positive more
    omega
  · rintro (rfl | rfl)
    · rw [Nat.pow_zero, Nat.div_one]
    · exact Nat.zero_div _

/-- The first characters of a number, as they are read. -/
theorem read_take (printable : Printable width bytes [n]) (count : Nat) :
    chkEntry4sidtab (strtolower ((hexadecimal width n).take count)) bytes =
      if count = 0 then []
      else [n / 16 ^ ((hexadecimal width n).length - count)] := by
  have small := printable.small n List.mem_cons_self
  have word := printable.word n List.mem_cons_self
  unfold chkEntry4sidtab
  split
  · rename_i none
    rw [none, List.take_zero]
    rfl
  · have filled : strtolower ((hexadecimal width n).take count) ≠ [] := by
      unfold strtolower
      rw [Ne, List.map_eq_nil_iff, List.take_eq_nil_iff, not_or]
      exact ⟨by assumption, padded_ne_nil printable.some⟩
    have single : strtok 44 (strtolower ((hexadecimal width n).take count)) =
        [strtolower ((hexadecimal width n).take count)] := by
      have tokens := @strtok_intercalate 44
        [strtolower ((hexadecimal width n).take count)]
        (by simpa using not_mem_strtolower_hexadecimal width n count)
        (by simpa using filled)
      rwa [List.intercalate_singleton] at tokens
    have fits : (hexadecimal width n).length ≤ 2 * bytes :=
      length_padded_le (by decide) small printable.narrow
    rw [single, List.filterMap_cons, a2i_strtolower_take count fits word]
    rfl

/-- A number in front of others is read with them. -/
theorem read_append (printable : Printable width bytes [n])
    (back : List UInt8) :
    chkEntry4sidtab (strtolower (hexadecimal width n ++ 44 :: back)) bytes =
      n :: chkEntry4sidtab (strtolower back) bytes := by
  have whole : (hexadecimal width n).take (hexadecimal width n).length =
      hexadecimal width n := List.take_length
  have plain : 44 ∉ strtolower (hexadecimal width n) := by
    rw [← whole]
    exact not_mem_strtolower_hexadecimal width n _
  have filled : strtolower (hexadecimal width n) ≠ [] := by
    unfold strtolower
    rw [Ne, List.map_eq_nil_iff]
    exact padded_ne_nil printable.some
  have fits : (hexadecimal width n).length ≤ 2 * bytes :=
    length_padded_le (by decide) (printable.small n List.mem_cons_self)
      printable.narrow
  have number := a2i_strtolower_take (hexadecimal width n).length fits
    (printable.word n List.mem_cons_self)
  rw [whole, Nat.sub_self, Nat.pow_zero, Nat.div_one] at number
  have apart : strtolower (hexadecimal width n ++ 44 :: back) =
      strtolower (hexadecimal width n) ++ 44 :: strtolower back := by
    unfold strtolower
    rw [List.map_append, List.map_cons]
    rfl
  unfold chkEntry4sidtab
  rw [apart, strtok_append plain filled, List.filterMap_cons, number]

theorem Printable.first (printable : Printable width bytes (n :: numbers)) :
    Printable width bytes [n] :=
  { printable with
    small := fun other member => printable.small other (by
      rw [List.mem_singleton.mp member]
      exact List.mem_cons_self)
    word := fun other member => printable.word other (by
      rw [List.mem_singleton.mp member]
      exact List.mem_cons_self) }

theorem Printable.rest (printable : Printable width bytes (n :: numbers)) :
    Printable width bytes numbers :=
  { printable with
    small := fun other member =>
      printable.small other (List.mem_cons_of_mem _ member)
    word := fun other member =>
      printable.word other (List.mem_cons_of_mem _ member) }

theorem printNumbers_cons (width n : Nat) (some : numbers ≠ []) :
    printNumbers width (n :: numbers) =
      hexadecimal width n ++ 44 :: printNumbers width numbers := by
  unfold printNumbers
  rw [List.map_cons, List.intercalate_cons_of_ne_nil (by simpa using some),
    List.append_assoc, List.singleton_append]

theorem needed_cons (width n : Nat) (numbers : List Nat) :
    needed width (n :: numbers) =
      (hexadecimal width n).length + 1 + needed width numbers := by
  rw [length_hexadecimal]
  rfl

theorem le_length_hexadecimal (width n : Nat) :
    width ≤ (hexadecimal width n).length := by
  rw [length_hexadecimal]
  exact Nat.le_max_left _ _

/-- The last number of a list. -/
theorem read_last_iff (printable : Printable width bytes [n]) (room : Nat) :
    chkEntry4sidtab (strtolower ((hexadecimal width n).take room)) bytes =
        [n] ↔
      (hexadecimal width n).length + 1 ≤ room + 1 ∨
        n = 0 ∧ (hexadecimal width n).length + 1 ≤ room + width := by
  have wide := le_length_hexadecimal width n
  have some := printable.some
  have zero : n = 0 → (hexadecimal width n).length = width := by
    rintro rfl
    rw [length_hexadecimal, Nat.digits_zero]
    exact Nat.max_eq_left (Nat.zero_le _)
  rw [read_take printable]
  split
  · rename_i none
    apply iff_of_false (by simp)
    omega
  · rw [List.cons.injEq, and_iff_left rfl, div_pow_eq_self_iff]
    omega

/-- What is read of the first characters of a list is the list if and only if
nothing is cut off, or only zeros of a last zero. -/
theorem read_printNumbers_iff (printable : Printable width bytes numbers)
    (room : Nat) :
    chkEntry4sidtab (strtolower ((printNumbers width numbers).take room))
        bytes = numbers ↔
      needed width numbers ≤ room + 1 ∨
        numbers.getLast? = some 0 ∧ needed width numbers ≤ room + width := by
  induction numbers generalizing room with
  | nil =>
      have none : printNumbers width [] = [] := rfl
      rw [none, List.take_nil]
      exact iff_of_true rfl (.inl (Nat.zero_le _))
  | cons number numbers induction =>
      have first := printable.first
      have wide := le_length_hexadecimal width number
      rw [needed_cons]
      by_cases last : numbers = []
      · subst last
        have alone : printNumbers width [number] = hexadecimal width number :=
          List.intercalate_singleton
        have none : needed width [] = 0 := rfl
        rw [alone, none, Nat.add_zero, read_last_iff first,
          List.getLast?_singleton, Option.some.injEq]
      · obtain ⟨second, others, rfl⟩ := List.exists_cons_of_ne_nil last
        have more := needed_cons width second others
        have wide' := le_length_hexadecimal width second
        rw [printNumbers_cons width number last]
        by_cases inside : (hexadecimal width number).length < room
        · -- The number and its comma are read whole.
          obtain ⟨left, rfl⟩ := Nat.exists_eq_add_of_lt inside
          have kept : (hexadecimal width number ++
              44 :: printNumbers width (second :: others)).take
                ((hexadecimal width number).length + left + 1) =
              hexadecimal width number ++
                44 :: (printNumbers width (second :: others)).take left := by
            rw [Nat.add_assoc, List.take_length_add_append,
              List.take_succ_cons]
          have whole : (hexadecimal width number).length + 1 +
              needed width (second :: others) ≤
                (hexadecimal width number).length + left + 1 + 1 ↔
              needed width (second :: others) ≤ left + 1 := by
            omega
          have zeros : (hexadecimal width number).length + 1 +
              needed width (second :: others) ≤
                (hexadecimal width number).length + left + 1 + width ↔
              needed width (second :: others) ≤ left + width := by
            omega
          rw [kept, read_append first, List.cons.injEq, and_iff_right rfl,
            induction printable.rest left, List.getLast?_cons_cons, whole,
            zeros]
        · -- At most one number is left.
          have cut : (hexadecimal width number ++
              44 :: printNumbers width (second :: others)).take room =
              (hexadecimal width number).take room :=
            List.take_append_of_le_length (by omega)
          rw [cut, read_take first]
          apply iff_of_false
          · split <;> simp
          · omega

/-! ## Lines of a section -/

theorem trim_isPrefix {txt : List UInt8} (first : txt.head? ≠ some 32) :
    trim txt <+: txt := by
  unfold trim
  rw [if_neg first]
  exact List.rdropWhile_prefix _ _

theorem head?_of_front {c : UInt8} {front txt : List UInt8}
    (begins : front <+: txt) (head : front.head? = some c) :
    txt.head? = some c := by
  obtain ⟨rest, rfl⟩ := begins
  rw [List.head?_append, head, Option.some_or]

/-- A line that begins otherwise is no header. -/
theorem isHeader_cons {c : UInt8} (other : c ≠ 91) (filled : c ≠ 32)
    (line : List UInt8) : isHeader (c :: line) = false := by
  by_contra header
  obtain ⟨_long, head, _last⟩ :=
    (isHeader_iff _).mp (Bool.eq_true_of_not_eq_false header)
  have string : cstr (c :: line) <+: c :: line := List.takeWhile_prefix _
  have first : (cstr (c :: line)).head? ≠ some 32 := by
    intro space
    exact filled (Option.some.inj (head?_of_front string space))
  have front := (trim_isPrefix first).trans string
  exact other (Option.some.inj (head?_of_front front head))

theorem infix_token (line : List UInt8) : token line <:+: line := by
  have front : (if (cstr line).head? = some 32 then
      (cstr line).dropWhile isBlank else cstr line) <:+: cstr line := by
    split
    · exact (List.dropWhile_suffix _).isInfix
    · exact List.infix_rfl
  have string : cstr line <:+: line := (List.takeWhile_prefix _).isInfix
  exact ((List.rdropWhile_prefix _ _).isInfix.trans front).trans string

theorem isHeader_of_not_mem {line : List UInt8} (plain : 91 ∉ line) :
    isHeader line = false := by
  by_contra header
  obtain ⟨_long, head, _last⟩ :=
    (isHeader_iff _).mp (Bool.eq_true_of_not_eq_false header)
  exact plain ((infix_token line).subset (List.mem_of_head? head))

theorem applyLine_of_not_mem {line : List UInt8} (plain : 61 ∉ line)
    (sidtab : Sidtab) : applyLine sidtab line = sidtab := by
  have none : splitAt 61 (token line) = none :=
    splitAt_of_not_mem fun member => plain ((infix_token line).subset member)
  unfold applyLine setting
  rw [none, ite_self]

/-- Lines inside a section that change its entry so. -/
structure Sets (lines : List (List UInt8)) (change : Sidtab → Sidtab) :
    Prop where
  inside : ∀ line ∈ lines, isHeader line = false
  sets : ∀ sidtab, lines.foldl applyLine sidtab = change sidtab

theorem Sets.append {lines others : List (List UInt8)}
    {change further : Sidtab → Sidtab} (sets : Sets lines change)
    (rest : Sets others further) :
    Sets (lines ++ others) (further ∘ change) where
  inside line member := by
    rcases List.mem_append.mp member with here | there
    · exact sets.inside line here
    · exact rest.inside line there
  sets sidtab := by
    rw [List.foldl_append, sets.sets, rest.sets]
    rfl

/-- Lines without a bracket and a `=` change nothing. -/
theorem sets_of_plain {lines : List (List UInt8)}
    (plain : ∀ line ∈ lines, 91 ∉ line ∧ 61 ∉ line) : Sets lines id where
  inside line member := isHeader_of_not_mem (plain line member).1
  sets sidtab := by
    induction lines with
    | nil => rfl
    | cons line lines induction =>
        rw [List.foldl_cons,
          applyLine_of_not_mem (plain line List.mem_cons_self).2]
        exact induction fun other member =>
          plain other (List.mem_cons_of_mem _ member)

/-! ## The line of a list -/

/-- The names under which the lists are written. -/
def listNames : List (List UInt8) :=
  [ascii "caid", ascii "provid", ascii "srvid"]

/-- A name with the spaces behind it. -/
def nameField (varname : List UInt8) : List UInt8 :=
  varname ++ List.replicate (confVarWidth - varname.length) 32

theorem fprintfConf_eq (varname : List UInt8) :
    fprintfConf varname = nameField varname ++ [61, 32] := rfl

/-- What matters of such a name. -/
structure IsName (varname : List UInt8) : Prop where
  length : (nameField varname).length = confVarWidth
  first : ∃ c rest, nameField varname = c :: rest ∧ c ≠ 91 ∧ c ≠ 32
  plain : 0 ∉ nameField varname ∧ 10 ∉ nameField varname ∧
    61 ∉ nameField varname
  read : trim (strtolower (nameField varname)) = varname

theorem isName_of_mem {varname : List UInt8} (listed : varname ∈ listNames) :
    IsName varname := by
  rcases List.mem_cons.mp listed with rfl | listed
  · exact ⟨rfl, ⟨_, _, rfl, by decide, by decide⟩, by decide, by decide⟩
  · rcases List.mem_cons.mp listed with rfl | listed
    · exact ⟨rfl, ⟨_, _, rfl, by decide, by decide⟩, by decide, by decide⟩
    · rw [List.mem_singleton.mp listed]
      exact ⟨rfl, ⟨_, _, rfl, by decide, by decide⟩, by decide, by decide⟩

/-- Only digits and commas are printed. -/
theorem mem_printNumbers {c : UInt8} (member : c ∈ printNumbers width numbers) :
    c = 44 ∨ numberChar c = true := by
  rcases Separated.mem_intercalate member with comma | ⟨field, listed, inside⟩
  · exact .inl comma
  · obtain ⟨number, _, rfl⟩ := List.mem_map.mp listed
    exact .inr (numberChar_padded (by decide) (by decide) c inside)

theorem not_mem_printNumbers {c : UInt8} (other : c ≠ 44)
    (letter : numberChar c = false) : c ∉ printNumbers width numbers := by
  intro member
  rcases mem_printNumbers member with comma | number
  · exact other comma
  · rw [letter] at number
    exact Bool.noConfusion number

theorem isBlank_printNumbers :
    ∀ c ∈ printNumbers width numbers, isBlank c = false := by
  intro c member
  rcases mem_printNumbers member with rfl | number
  · rfl
  · exact isBlank_of_numberChar number

/-- A line with a name sets what stands behind the `=`. -/
theorem setting_nameField {varname : List UInt8} (name : IsName varname)
    (value : List UInt8) (sidtab : Sidtab) :
    setting (nameField varname ++ 61 :: value) sidtab =
      chkSidtab varname (trim (strtolower value)) sidtab := by
  unfold setting
  rw [splitAt_append name.plain.2.2]
  dsimp only
  rw [name.read]

/-- What is in front of the blanks at the end of a line. -/
theorem trim_nameField {varname value back : List UInt8}
    (name : IsName varname)
    (last : ∀ c ∈ (61 :: value).getLast?, isBlank c = false)
    (blank : ∀ c ∈ back, isBlank c = true) :
    trim (nameField varname ++ 61 :: value ++ back) =
      nameField varname ++ 61 :: value := by
  obtain ⟨c, rest, begins, bracket, space⟩ := name.first
  apply trim_append_of_ends _ _ _ blank
  · exact List.append_ne_nil_of_right_ne_nil _ (List.cons_ne_nil _ _)
  · rw [begins, List.cons_append, List.head?_cons]
    exact fun same => space (Option.some.inj same)
  · rw [List.getLast?_append_of_ne_nil _ (List.cons_ne_nil _ _)]
    exact last

theorem cstr_fprintfConf {varname value back : List UInt8}
    (name : IsName varname) (text : 0 ∉ value) (behind : 0 ∉ back) :
    cstr (fprintfConf varname ++ value ++ back) =
      fprintfConf varname ++ value ++ back := by
  apply cstr_of_plain
  intro zero
  rw [fprintfConf_eq] at zero
  rcases List.mem_append.mp zero with front | last
  · rcases List.mem_append.mp front with first | inside
    · rcases List.mem_append.mp first with before | sign
      · exact name.plain.1 before
      · exact absurd sign (by decide)
    · exact text inside
  · exact behind last

/-- The first piece of the line sets what is in it of the list. -/
theorem applyLine_fprintfConf {varname value back : List UInt8}
    (name : IsName varname) (plain : ∀ c ∈ value, isBlank c = false)
    (text : 0 ∉ value) (ends : back = [] ∨ back = [10]) (sidtab : Sidtab) :
    applyLine sidtab (fprintfConf varname ++ value ++ back) =
      chkSidtab varname (strtolower value) sidtab := by
  have blank : ∀ c ∈ back, isBlank c = true := by
    intro c member
    rcases ends with rfl | rfl
    · exact absurd member List.not_mem_nil
    · rw [List.mem_singleton.mp member]
      rfl
  have behind : 0 ∉ back := by
    intro zero
    have printed := blank 0 zero
    cases printed
  have long (txt : List UInt8) : ¬ (nameField varname ++ txt).length < 3 := by
    rw [List.length_append, name.length]
    show ¬ 30 + txt.length < 3
    omega
  unfold applyLine token
  rw [cstr_fprintfConf name text behind]
  by_cases none : value = []
  · -- The space behind the `=` goes with the newline.
    have split : fprintfConf varname ++ value ++ back =
        nameField varname ++ 61 :: [] ++ 32 :: back := by
      rw [none, fprintfConf_eq]
      simp only [List.append_assoc, List.cons_append, List.nil_append]
    have spaces : ∀ c ∈ 32 :: back, isBlank c = true := by
      intro c member
      rcases List.mem_cons.mp member with rfl | behind
      · rfl
      · exact blank c behind
    have equals : ∀ c ∈ ([61] : List UInt8).getLast?, isBlank c = false := by
      intro c member
      cases member
      rfl
    rw [split, trim_nameField name equals spaces, if_neg (long _),
      setting_nameField name, none]
    rfl
  · have split : fprintfConf varname ++ value ++ back =
        nameField varname ++ 61 :: 32 :: value ++ back := by
      rw [fprintfConf_eq]
      simp only [List.append_assoc, List.cons_append, List.nil_append]
    have last : ∀ c ∈ (61 :: 32 :: value).getLast?, isBlank c = false := by
      intro c member
      have same : (61 :: 32 :: value).getLast? = value.getLast? :=
        List.getLast?_append_of_ne_nil [61, 32] none
      rw [same] at member
      exact plain c (List.mem_of_getLast? member)
    have read : trim (strtolower (32 :: value)) = strtolower value :=
      trim_space (isBlank_strtolower plain)
    rw [split, trim_nameField name last blank, if_neg (long _),
      setting_nameField name, read]

theorem length_fprintfConf {varname : List UInt8} (name : IsName varname) :
    (fprintfConf varname).length = confVarWidth + 2 := by
  rw [fprintfConf_eq, List.length_append, name.length]
  rfl

theorem newline_not_mem_line {varname : List UInt8} (name : IsName varname) :
    10 ∉ fprintfConf varname ++ printNumbers width numbers := by
  intro member
  rcases List.mem_append.mp member with front | behind
  · rw [fprintfConf_eq] at front
    rcases List.mem_append.mp front with before | sign
    · exact name.plain.2.1 before
    · exact absurd sign (by decide)
  · exact not_mem_printNumbers (by decide) rfl behind

/-- What there is room for in a buffer, and what is behind it. -/
theorem take_line {varname : List UInt8} (name : IsName varname) :
    (fprintfConf varname ++ printNumbers width numbers).take
        (maxLineSize - 1) =
      fprintfConf varname ++ (printNumbers width numbers).take valueRoom := by
  have length := length_fprintfConf name
  have front : (fprintfConf varname).take (maxLineSize - 1) =
      fprintfConf varname := by
    apply List.take_of_length_le
    rw [length]
    decide
  rw [List.take_append, length, front]

theorem drop_line {varname : List UInt8} (name : IsName varname) :
    (fprintfConf varname ++ printNumbers width numbers).drop
      (maxLineSize - 1) = (printNumbers width numbers).drop valueRoom := by
  have length := length_fprintfConf name
  have front : (fprintfConf varname).drop (maxLineSize - 1) = [] := by
    apply List.drop_of_length_le
    rw [length]
    decide
  rw [List.drop_append, length, front, List.nil_append]

/-- The pieces of the line set what the first of them has of the list. -/
theorem sets_printNumbers {varname : List UInt8} (name : IsName varname)
    (width : Nat) (numbers : List Nat) :
    Sets
      (fgetsLines maxLineSize
        (fprintfConf varname ++ printNumbers width numbers ++ [10]))
      (chkSidtab varname
        (strtolower ((printNumbers width numbers).take valueRoom))) := by
  have buffer : 1 < maxLineSize := by decide
  have plain : 10 ∉ fprintfConf varname ++ printNumbers width numbers :=
    newline_not_mem_line name
  obtain ⟨back, others, lines, ends, rest⟩ := fgetsLines_pieces plain buffer
  have first : Sets
      [fprintfConf varname ++ (printNumbers width numbers).take valueRoom ++
        back]
      (chkSidtab varname
        (strtolower ((printNumbers width numbers).take valueRoom))) := by
    constructor
    · intro line member
      obtain ⟨c, front, begins, bracket, space⟩ := name.first
      rw [List.mem_singleton.mp member, fprintfConf_eq, begins]
      exact isHeader_cons bracket space _
    · intro sidtab
      apply applyLine_fprintfConf name _ _ ends
      · intro c member
        exact isBlank_printNumbers c (List.mem_of_mem_take member)
      · intro member
        exact not_mem_printNumbers (by decide) rfl
          (List.mem_of_mem_take member)
  have junk : Sets others id := by
    apply sets_of_plain
    intro line listed
    have other (c : UInt8) (comma : c ≠ 44) (newline : c ≠ 10)
        (letter : numberChar c = false) : c ∉ line := by
      intro member
      have inside := rest line listed c member
      rw [drop_line name] at inside
      rcases List.mem_append.mp inside with printed | last
      · exact not_mem_printNumbers comma letter (List.mem_of_mem_drop printed)
      · exact newline (List.mem_singleton.mp last)
    exact ⟨other 91 (by decide) (by decide) rfl,
      other 61 (by decide) (by decide) rfl⟩
  rw [lines, take_line name]
  exact first.append junk

/-! ## The section of an entry -/

/-- What holds of the entries that are loaded. -/
structure Typed (sidtab : Sidtab) : Prop where
  some : sidtab.label ≠ []
  short : sidtab.label.length ≤ 63
  plain : 0 ∉ sidtab.label ∧ 10 ∉ sidtab.label
  small : ∀ c ∈ sidtab.label, tolower c = c
  caid : Printable 4 2 sidtab.caid
  provid : Printable 6 4 sidtab.provid
  srvid : Printable 4 2 sidtab.srvid

/-- The entry of the section that was written. -/
def reread (sidtab : Sidtab) : Sidtab :=
  { label := sidtab.label
    caid := chkEntry4sidtab
      (strtolower ((printNumbers 4 sidtab.caid).take valueRoom)) 2
    provid := chkEntry4sidtab
      (strtolower ((printNumbers 6 sidtab.provid).take valueRoom)) 4
    srvid := chkEntry4sidtab
      (strtolower ((printNumbers 4 sidtab.srvid).take valueRoom)) 2 }

variable {sidtab : Sidtab} {table : List Sidtab}

theorem token_header (typed : Typed sidtab) :
    token (91 :: sidtab.label ++ [93] ++ [10]) =
      91 :: sidtab.label ++ [93] := by
  have string : cstr (91 :: sidtab.label ++ [93] ++ [10]) =
      91 :: sidtab.label ++ [93] ++ [10] := by
    apply cstr_of_plain
    have inside := typed.plain.1
    simpa using inside
  unfold token
  rw [string]
  apply trim_append_of_ends
  · exact List.cons_ne_nil _ _
  · rw [List.cons_append, List.head?_cons]
    decide
  · intro c last
    rw [List.getLast?_concat] at last
    obtain rfl := Option.some.inj last
    rfl
  · intro c member
    rw [List.mem_singleton.mp member]
    rfl

theorem printSidtab_eq (sidtab : Sidtab) :
    printSidtab sidtab =
      (91 :: sidtab.label ++ [93]) ++ 10 ::
        (fprintfConf (ascii "caid") ++ printNumbers 4 sidtab.caid ++ 10 ::
          (fprintfConf (ascii "provid") ++ printNumbers 6 sidtab.provid ++ 10 ::
            (fprintfConf (ascii "srvid") ++ printNumbers 4 sidtab.srvid ++
              10 :: [10]))) := by
  have opening : ascii "[" = [91] := rfl
  have closing : ascii "]\n" = [93, 10] := rfl
  have newline : ascii "\n" = [10] := rfl
  have both : ascii "\n\n" = [10, 10] := rfl
  unfold printSidtab
  rw [opening, closing, newline, both]
  simp only [List.append_assoc, List.cons_append, List.nil_append]

theorem fgetsLines_header (typed : Typed sidtab) :
    fgetsLines maxLineSize (91 :: sidtab.label ++ [93] ++ [10]) =
      [91 :: sidtab.label ++ [93] ++ [10]] := by
  have written := @fgetsLines_flatten maxLineSize
    [91 :: sidtab.label ++ [93] ++ [10]]
  rw [List.flatten_singleton] at written
  apply written
  intro line member
  rw [List.mem_singleton.mp member]
  refine ⟨_, rfl, ?_, ?_⟩
  · have inside := typed.plain.2
    simpa using inside
  · have short := typed.short
    simp
    omega

/-- The label is read back. -/
theorem newSidtab_header (typed : Typed sidtab) :
    newSidtab (91 :: sidtab.label ++ [93]).dropLast =
      { label := sidtab.label, caid := [], provid := [], srvid := [] } := by
  have inner : ((91 :: sidtab.label ++ [93]).dropLast).drop 1 =
      sidtab.label := by
    rw [List.dropLast_concat]
    rfl
  have same : strtolower sidtab.label = sidtab.label :=
    (List.map_congr_left typed.small).trans (List.map_id _)
  have label : csStrncpy 64 sidtab.label = sidtab.label :=
    List.take_of_length_le typed.short
  unfold newSidtab
  rw [inner, same, label]

/-- The lines of a section that was written: the header, and lines that set the
entry. -/
theorem fgetsLines_printSidtab (typed : Typed sidtab) :
    ∃ header lines,
      fgetsLines maxLineSize (printSidtab sidtab) = header :: lines ∧
        isHeader header = true ∧ (∀ line ∈ lines, isHeader line = false) ∧
        entryOf (header, lines) = reread sidtab := by
  have list {varname : List UInt8} (listed : varname ∈ listNames) :=
    sets_printNumbers (isName_of_mem listed)
  have caid := @list (ascii "caid") (by decide) 4 sidtab.caid
  have provid := @list (ascii "provid") (by decide) 6 sidtab.provid
  have srvid := @list (ascii "srvid") (by decide) 4 sidtab.srvid
  have last : Sets [[10]] id := sets_of_plain (by decide)
  have lines := caid.append (provid.append (srvid.append last))
  refine ⟨91 :: sidtab.label ++ [93] ++ [10], _, ?_, ?_, lines.inside, ?_⟩
  · have split := fgetsLines_append_line maxLineSize
    rw [printSidtab_eq, split (91 :: sidtab.label ++ [93]),
      fgetsLines_header typed,
      split (fprintfConf (ascii "caid") ++ printNumbers 4 sidtab.caid),
      split (fprintfConf (ascii "provid") ++ printNumbers 6 sidtab.provid),
      split (fprintfConf (ascii "srvid") ++ printNumbers 4 sidtab.srvid)]
    rfl
  · have length := List.length_pos_of_ne_nil typed.some
    rw [isHeader_iff, token_header typed]
    refine ⟨?_, rfl, List.getLast?_concat⟩
    simp
    omega
  · unfold entryOf
    rw [lines.sets, token_header typed, newSidtab_header typed]
    rfl

/-! ## The file of a table -/

theorem sections_append {front : List (List UInt8)}
    (inside : ∀ line ∈ front, isHeader line = false)
    (lines : List (List UInt8)) :
    sections (front ++ lines) =
      (front ++ (sections lines).1, (sections lines).2) := by
  induction front with
  | nil => rfl
  | cons line front induction =>
      rw [List.cons_append, sections,
        induction fun other member =>
          inside other (List.mem_cons_of_mem _ member),
        inside line List.mem_cons_self]
      rfl

/-- The text behind a section is read apart from it. -/
theorem fgetsLines_behind (sidtab : Sidtab) (rest : List UInt8) :
    fgetsLines maxLineSize (printSidtab sidtab ++ rest) =
      fgetsLines maxLineSize (printSidtab sidtab) ++
        fgetsLines maxLineSize rest := by
  obtain ⟨body, ends⟩ : ∃ body, printSidtab sidtab = body ++ [10] := by
    have both : ascii "\n\n" = [10] ++ [10] := rfl
    unfold printSidtab
    rw [both, ← List.append_assoc]
    exact ⟨_, rfl⟩
  rw [ends, List.append_assoc, List.singleton_append]
  exact fgetsLines_append_line _ _ _

theorem sections_printed (typed : ∀ sidtab ∈ table, Typed sidtab) :
    (sections (fgetsLines maxLineSize (table.flatMap printSidtab))).1 = [] ∧
      (sections (fgetsLines maxLineSize
        (table.flatMap printSidtab))).2.map entryOf = table.map reread := by
  induction table with
  | nil => exact ⟨rfl, rfl⟩
  | cons sidtab table induction =>
      obtain ⟨none, entries⟩ := induction fun other member =>
        typed other (List.mem_cons_of_mem _ member)
      obtain ⟨header, lines, read, begins, inside, entry⟩ :=
        fgetsLines_printSidtab (typed sidtab List.mem_cons_self)
      rw [List.flatMap_cons, fgetsLines_behind, read, List.cons_append,
        sections, sections_append inside, if_pos begins, none, List.append_nil]
      refine ⟨rfl, ?_⟩
      rw [List.map_cons, List.map_cons, entry, entries]

/-- The comments are lines in front of the first section. -/
theorem fgetsLines_comments (version : SvnVersion) (rest : List UInt8) :
    ∃ lines, fgetsLines maxLineSize (printComments version ++ rest) =
        lines ++ fgetsLines maxLineSize rest ∧
      ∀ line ∈ lines, isHeader line = false := by
  let lines := [generatedBy ++ version.txt ++ [10], readMore ++ [10], [10]]
  have split : printComments version ++ rest =
      (generatedBy ++ version.txt ++ 10 :: (readMore ++ [10])) ++
        10 :: rest := by
    have newline : ascii "\n" = [10] := rfl
    have both : ascii "\n\n" = [10, 10] := rfl
    unfold printComments
    rw [newline, both]
    simp only [List.append_assoc, List.cons_append, List.nil_append]
  have whole : generatedBy ++ version.txt ++ 10 :: (readMore ++ [10]) ++ [10] =
      lines.flatten := by
    simp only [lines, List.flatten_cons, List.flatten_nil, List.append_assoc,
      List.cons_append, List.nil_append]
  have written : ∀ line ∈ lines, IsLine maxLineSize line := by
    intro line member
    rcases List.mem_cons.mp member with rfl | member
    · refine ⟨_, rfl, ?_, ?_⟩
      · intro newline
        rcases List.mem_append.mp newline with front | inside
        · exact absurd front (by decide)
        · exact version.plain inside
      · have short := version.short
        have length : generatedBy.length = 80 := rfl
        rw [List.length_append, length]
        show 80 + version.txt.length < 1024 - 1
        omega
    · rcases List.mem_cons.mp member with rfl | member
      · exact ⟨readMore, rfl, by decide, by decide⟩
      · rw [List.mem_singleton.mp member]
        exact ⟨[], rfl, by decide, by decide⟩
  refine ⟨lines, ?_, ?_⟩
  · rw [split, fgetsLines_append_line, whole, fgetsLines_flatten written]
  · intro line member
    rcases List.mem_cons.mp member with rfl | member
    · exact isHeader_cons (by decide) (by decide) _
    · rcases List.mem_cons.mp member with rfl | member
      · exact isHeader_cons (by decide) (by decide) _
      · rw [List.mem_singleton.mp member]
        exact isHeader_cons (by decide) (by decide) _

/-- What is loaded from the file that was written. -/
theorem initSidtab_printed (typed : ∀ sidtab ∈ table, Typed sidtab)
    (few : table.length ≤ maxSidbits + 1) (version : SvnVersion) :
    initSidtab table (printComments version ++ table.flatMap printSidtab) =
      table.map reread := by
  obtain ⟨lines, read, inside⟩ :=
    fgetsLines_comments version (table.flatMap printSidtab)
  obtain ⟨_none, entries⟩ := sections_printed typed
  have parts : (fileSections
      (printComments version ++ table.flatMap printSidtab)).map entryOf =
        table.map reread := by
    unfold fileSections
    rw [read, sections_append inside]
    exact entries
  have length := congrArg List.length parts
  rw [List.length_map, List.length_map] at length
  have loaded : loaded (printComments version ++ table.flatMap printSidtab) =
      table.map reread := by
    unfold loaded
    rw [loadSections_of_le (by omega), parts]
    rfl
  rw [initSidtab_eq, loaded]
  split
  · rename_i none
    rw [List.map_eq_nil_iff.mp none]
    rfl
  · rfl

/-! ## The entries that are loaded -/

theorem tolower_tolower (c : UInt8) : tolower (tolower c) = tolower c := by
  by_cases letter : 65 ≤ c ∧ c ≤ 90
  · have small : ¬ c + 32 ≤ 90 := by
      have least := UInt8.le_iff_toNat_le.mp letter.1
      have most := UInt8.le_iff_toNat_le.mp letter.2
      rw [UInt8.le_iff_toNat_le, UInt8.toNat_add]
      simp at least most ⊢
      omega
    have lower : tolower c = c + 32 := if_pos letter
    rw [lower]
    exact if_neg fun both => small both.2
  · have same : tolower c = c := if_neg letter
    rw [same, same]

/-- A control character is no small letter of another one. -/
theorem eq_of_tolower {c d : UInt8} (control : d < 32) (same : tolower c = d) :
    c = d := by
  unfold tolower at same
  split at same
  · rename_i letter
    exfalso
    have least := UInt8.le_iff_toNat_le.mp letter.1
    have most := UInt8.le_iff_toNat_le.mp letter.2
    have low := UInt8.lt_iff_toNat_lt.mp control
    have sum := congrArg UInt8.toNat same
    rw [UInt8.toNat_add] at sum
    simp at least most low sum
    omega
  · exact same

theorem printable_chkEntry4sidtab (some : 0 < width)
    (narrow : width ≤ 2 * bytes) (word : bytes ≤ 4) (value : List UInt8) :
    Printable width bytes (chkEntry4sidtab value bytes) := by
  have small : ∀ number ∈ chkEntry4sidtab value bytes,
      number < 16 ^ (2 * bytes) := by
    intro number member
    obtain ⟨ptr, _, read⟩ := List.mem_filterMap.mp member
    exact a2i_lt read
  refine ⟨some, narrow, small, ?_⟩
  intro number member
  calc number < 16 ^ (2 * bytes) := small number member
    _ ≤ 16 ^ 8 := Nat.pow_le_pow_right (by decide) (by omega)
    _ = 2 ^ 32 := rfl

theorem printable_nil (some : 0 < width) (narrow : width ≤ 2 * bytes) :
    Printable width bytes [] :=
  ⟨some, narrow, by simp, by simp⟩

/-- The header of a section has no newline. -/
theorem newline_not_mem_token {line : List UInt8}
    (header : isHeader line = true) (ends : NewlineLast line) :
    10 ∉ token line := by
  obtain ⟨_long, _head, last⟩ := (isHeader_iff line).mp header
  intro newline
  obtain ⟨before, behind, cut⟩ := List.append_of_mem newline
  obtain ⟨front, back, whole⟩ := infix_token line
  have nothing := ends (front ++ before) (behind ++ back) (by
    rw [← whole, cut]
    simp only [List.append_assoc, List.cons_append])
  rw [cut, (List.append_eq_nil_iff.mp nothing).1, List.getLast?_concat] at last
  exact absurd last (by decide)

theorem typed_newSidtab {line : List UInt8} (header : isHeader line = true)
    (ends : NewlineLast line) : Typed (newSidtab (token line).dropLast) := by
  obtain ⟨long, _head, _last⟩ := (isHeader_iff line).mp header
  have inside : ∀ c ∈ (newSidtab (token line).dropLast).label,
      ∃ letter ∈ token line, tolower letter = c := by
    intro c member
    obtain ⟨letter, listed, lower⟩ :=
      List.mem_map.mp (List.mem_of_mem_take member)
    exact ⟨letter, List.mem_of_mem_dropLast (List.mem_of_mem_drop listed),
      lower⟩
  have length : (newSidtab (token line).dropLast).label.length =
      min 63 ((token line).length - 1 - 1) := by
    show ((((token line).dropLast.drop 1).map tolower).take (64 - 1)).length =
      _
    rw [List.length_take, List.length_map, List.length_drop,
      List.length_dropLast]
  refine
    { some := ?_
      short := ?_
      plain := ⟨?_, ?_⟩
      small := ?_
      caid := printable_nil (by decide) (by decide)
      provid := printable_nil (by decide) (by decide)
      srvid := printable_nil (by decide) (by decide) }
  · intro none
    rw [none, List.length_nil] at length
    omega
  · omega
  · intro zero
    obtain ⟨letter, listed, lower⟩ := inside 0 zero
    rw [eq_of_tolower (by decide) lower] at listed
    have string : 0 ∈ cstr line := (trim_sublist _).subset listed
    exact absurd (List.mem_takeWhile_imp string) (by decide)
  · intro newline
    obtain ⟨letter, listed, lower⟩ := inside 10 newline
    rw [eq_of_tolower (by decide) lower] at listed
    exact newline_not_mem_token header ends listed
  · intro c member
    obtain ⟨letter, _, rfl⟩ := inside c member
    exact tolower_tolower letter

theorem Typed.chkSidtab (typed : Typed sidtab) (key value : List UInt8) :
    Typed (chkSidtab key value sidtab) := by
  unfold Services.chkSidtab
  split
  · exact { typed with
      caid := printable_chkEntry4sidtab (by decide) (by decide) (by decide) _ }
  · split
    · exact { typed with
        provid := printable_chkEntry4sidtab (by decide) (by decide)
          (by decide) _ }
    · split
      · exact { typed with
          provid := printable_chkEntry4sidtab (by decide) (by decide)
            (by decide) _ }
      · split
        · exact { typed with
            srvid := printable_chkEntry4sidtab (by decide) (by decide)
              (by decide) _ }
        · exact typed

theorem Typed.applyLine (typed : Typed sidtab) (line : List UInt8) :
    Typed (applyLine sidtab line) := by
  unfold Services.applyLine setting
  split
  · exact typed
  · split
    · exact typed
    · exact typed.chkSidtab _ _

/-- A line that is read keeps the entries so. -/
theorem typed_readLine {s : Loading} {line : List UInt8}
    (ends : NewlineLast line) (typed : ∀ sidtab ∈ s.entries, Typed sidtab) :
    ∀ sidtab ∈ (readLine s line).entries, Typed sidtab := by
  by_cases header : isHeader line = true
  · by_cases room : s.nr ≤ maxSidbits
    · rw [readLine_accepted header room]
      intro sidtab member
      rcases List.mem_append.mp member with before | last
      · exact typed sidtab before
      · rw [List.mem_singleton.mp last]
        exact typed_newSidtab header ends
    · rw [readLine_rejected header (by omega)]
      exact typed
  · rw [readLine_of_not_header (Bool.eq_false_iff.mpr header)]
    intro sidtab member
    rcases List.mem_append.mp member with before | last
    · exact typed sidtab (List.mem_append_left _ before)
    · obtain ⟨entry, current, rfl⟩ :=
        Option.map_eq_some_iff.mp (Option.mem_toList.mp last)
      exact (typed entry (List.mem_append_right _
        (Option.mem_toList.mpr current))).applyLine line

theorem typed_foldl {lines : List (List UInt8)} {s : Loading}
    (ends : ∀ line ∈ lines, NewlineLast line)
    (typed : ∀ sidtab ∈ s.entries, Typed sidtab) :
    ∀ sidtab ∈ (lines.foldl readLine s).entries, Typed sidtab := by
  induction lines generalizing s with
  | nil => exact typed
  | cons line lines induction =>
      exact induction
        (fun other member => ends other (List.mem_cons_of_mem _ member))
        (typed_readLine (ends line List.mem_cons_self) typed)

/-- The entries of every table that is loaded. -/
theorem typed_initSidtab (file : List UInt8) :
    ∀ sidtab ∈ initSidtab [] file, Typed sidtab := by
  unfold initSidtab
  dsimp only
  split
  · simp
  · exact typed_foldl newlineLast_fgetsLines (by simp [start, Loading.entries])

theorem length_initSidtab (file : List UInt8) :
    (initSidtab [] file).length ≤ maxSidbits + 1 := by
  rw [initSidtab_eq]
  split
  · exact Nat.zero_le _
  · rw [length_loaded]
    exact Nat.min_le_left _ _

theorem eq_of_underscore {c d : UInt8} (control : d < 32)
    (same : underscore c = d) : c = d := by
  unfold underscore at same
  split at same
  · rw [← same] at control
    exact absurd control (by decide)
  · exact same

theorem Typed.underscored (typed : Typed sidtab) :
    Typed (underscored sidtab) := by
  have other {d : UInt8} (control : d < 32) (missing : d ∉ sidtab.label) :
      d ∉ sidtab.label.map underscore := by
    intro member
    obtain ⟨c, listed, same⟩ := List.mem_map.mp member
    rw [eq_of_underscore control same] at listed
    exact missing listed
  refine
    { typed with
      some := ?_
      short := ?_
      plain := ⟨other (by decide) typed.plain.1,
        other (by decide) typed.plain.2⟩
      small := ?_ }
  · exact fun none => typed.some (List.map_eq_nil_iff.mp none)
  · have length : (Services.underscored sidtab).label.length =
        sidtab.label.length := List.length_map _
    rw [length]
    exact typed.short
  · intro c member
    obtain ⟨letter, listed, rfl⟩ := List.mem_map.mp member
    have small := typed.small letter listed
    unfold underscore
    split
    · rfl
    · exact small

/-! ## Writing and loading again -/

theorem reread_eq_iff (typed : Typed sidtab) :
    reread sidtab = sidtab ↔ Fits sidtab := by
  have caid := read_printNumbers_iff typed.caid valueRoom
  have provid := read_printNumbers_iff typed.provid valueRoom
  have srvid := read_printNumbers_iff typed.srvid valueRoom
  constructor
  · intro same
    exact
      { caid := caid.mp (congrArg Sidtab.caid same)
        provid := provid.mp (congrArg Sidtab.provid same)
        srvid := srvid.mp (congrArg Sidtab.srvid same) }
  · intro fits
    unfold reread
    rw [caid.mpr fits.caid, provid.mpr fits.provid, srvid.mpr fits.srvid]

/-- `write_services` changes only labels. -/
theorem fits_underscored : Fits (underscored sidtab) ↔ Fits sidtab :=
  ⟨fun fits => ⟨fits.caid, fits.provid, fits.srvid⟩,
    fun fits => ⟨fits.caid, fits.provid, fits.srvid⟩⟩

theorem sameTable_iff (typed : ∀ sidtab ∈ table, Typed sidtab)
    (few : table.length ≤ maxSidbits + 1) (version : SvnVersion) :
    SameTable version table ↔ ∀ sidtab ∈ table, Fits sidtab := by
  have changed : ∀ sidtab ∈ table.map underscored, Typed sidtab := by
    intro sidtab member
    obtain ⟨entry, listed, rfl⟩ := List.mem_map.mp member
    exact (typed entry listed).underscored
  unfold SameTable writeServices
  dsimp only
  rw [initSidtab_printed changed (by rwa [List.length_map]) version,
    List.map_map, List.map_inj_left]
  apply forall₂_congr
  intro sidtab member
  exact (reread_eq_iff (typed sidtab member).underscored).trans
    fits_underscored

/-- A table that was loaded is loaded again from the file that
`write_services` writes if and only if its lists fit in their lines. -/
theorem initSidtab_writeServices_iff (version : SvnVersion)
    (file : List UInt8) :
    SameTable version (initSidtab [] file) ↔
      ∀ sidtab ∈ initSidtab [] file, Fits sidtab :=
  sameTable_iff (typed_initSidtab file) (length_initSidtab file) version

theorem newline_not_mem_test : 10 ∉ ascii "test" := by decide

theorem length_test : (ascii "test").length < 900 := by decide

/-- The revision of a build that sets none. -/
def testVersion : SvnVersion :=
  { txt := ascii "test", plain := newline_not_mem_test, short := length_test }

/-- A service with 200 CA ids of one digit each. -/
def manyCaids : List UInt8 :=
  ascii "[a]\ncaid=" ++ [44].intercalate (List.replicate 200 [49]) ++ [10]

/-- The CA ids are printed with four digits each, and the line is too long. -/
theorem manyCaids_not_reread :
    ¬ SameTable testVersion (initSidtab [] manyCaids) := by
  have table : initSidtab [] manyCaids =
      [{ label := ascii "a", caid := List.replicate 200 1, provid := []
         srvid := [] }] := by
    decide +kernel
  intro same
  have fits := (sameTable_iff (typed_initSidtab manyCaids)
    (length_initSidtab manyCaids) testVersion).mp same
  rw [table] at fits
  have long : needed 4 (List.replicate 200 1) = 1000 := by
    unfold needed
    rw [List.map_replicate, List.sum_replicate]
    simp
  have line := (fits _ List.mem_cons_self).caid
  unfold FitsLine at line
  rw [long] at line
  rcases line with room | ⟨_zero, room⟩
  · exact absurd room (by decide)
  · exact absurd room (by decide)

end Oscam.Services
