import Oscam.Lib.Separated
import Oscam.Monitor.Requests
import Oscam.Protocol.SerialRecv

/-!
# Texts of files and settings

The functions of `oscam-simples.c` and of the C library by which configuration
and statistics files are read.  A text is the list of its bytes.
-/

namespace Oscam

open Monitor (cstr trim isBlank splitAt)
open Serial (gethexval)

/-- The lines that `fgets` delivers: a line ends behind a newline or when the
buffer, which has room for `left` bytes behind `cur`, is full. -/
def fgetsFrom (size : Nat) : List UInt8 → Nat → List UInt8 → List (List UInt8)
  | cur, _, [] => if cur = [] then [] else [cur]
  | cur, left, c :: txt =>
      if c = 10 ∨ left ≤ 1 then (cur ++ [c]) :: fgetsFrom size [] (size - 1) txt
      else fgetsFrom size (cur ++ [c]) (left - 1) txt

/-- All lines of a file, read by `fgets` into a buffer of `size` bytes. -/
def fgetsLines (size : Nat) (file : List UInt8) : List (List UInt8) :=
  fgetsFrom size [] (size - 1) file

/-- `cs_strncpy` into a buffer of `num` bytes. -/
def csStrncpy (num : Nat) (source : List UInt8) : List UInt8 :=
  source.take (num - 1)

def tolower (c : UInt8) : UInt8 := if 65 ≤ c ∧ c ≤ 90 then c + 32 else c

/-- `strtolower`. -/
def strtolower (txt : List UInt8) : List UInt8 := txt.map tolower

/-- The tokens that `strtok_r` gives for one separator: there are no empty
ones. -/
def strtok (separator : UInt8) (txt : List UInt8) : List (List UInt8) :=
  (txt.splitOn separator).filter (· ≠ [])

/-- The value of hexadecimal digits, the last one first. -/
def hexValue : List UInt8 → Option Nat
  | [] => some 0
  | c :: digits =>
      match gethexval c, hexValue digits with
      | some digit, some value => some (digit + 16 * value)
      | _, _ => none

/-- `a2i` of the last `2 * bytes` digits; `none` when it sets `errno`.  A digit
before the eighth from the end would be shifted by more than a word has, which
C leaves open; here it is lost. -/
def a2i (asc : List UInt8) (bytes : Nat) : Option Nat :=
  (hexValue ((trim asc).reverse.take (2 * bytes))).map (· % 2 ^ 32)

/-- What `a2i` returns when it sets `errno`. -/
abbrev a2iError : Nat := 0x1F1F1F

/-- `dyn_word_atob`: one to four digits, or -1. -/
def dynWordAtob (asc : List UInt8) : Int :=
  if (trim asc).length = 0 ∨ 4 < (trim asc).length then -1
  else
    match hexValue (trim asc).reverse with
    | some value => value
    | none => -1

/-- A digit for `key_atob_l`; an invalid one is -1. -/
def keyDigit (c : UInt8) : UInt8 :=
  match gethexval c with
  | some digit => UInt8.ofNat digit
  | none => 0xFF

/-- `key_atob_l`: the bytes of `l` digits. -/
def keyAtobL (asc : List UInt8) (l : Nat) : List UInt8 :=
  (List.range (l / 2)).map fun i =>
    16 * keyDigit (asc.getD (2 * i) 0) + keyDigit (asc.getD (2 * i + 1) 0)

/-- `key_atob_l` returns -1 if one of the digits is invalid. -/
def keyAtobLError (asc : List UInt8) (l : Nat) : Bool :=
  (List.range l).any fun i => (gethexval (asc.getD i 0)).isNone

/-- Also the number of an invalid text is a word. -/
theorem a2i_getD_lt (asc : List UInt8) (bytes : Nat) :
    (a2i asc bytes).getD a2iError < 2 ^ 32 := by
  unfold a2i
  cases hexValue ((trim asc).reverse.take (2 * bytes)) with
  | none => decide
  | some value => exact Nat.mod_lt _ (Nat.two_pow_pos 32)

/-! ## Strings -/

theorem cstr_of_plain {txt : List UInt8} (plain : 0 ∉ txt) : cstr txt = txt := by
  rw [cstr, List.takeWhile_eq_self_iff]
  intro c member
  rw [bne_iff_ne]
  rintro rfl
  exact plain member

/-- The string of a buffer ends at the first zero. -/
theorem cstr_append_zero {txt : List UInt8} (plain : 0 ∉ txt)
    (rest : List UInt8) : cstr (txt ++ 0 :: rest) = txt := by
  have whole := cstr_of_plain plain
  unfold cstr at whole ⊢
  rw [List.takeWhile_append_of_pos (List.takeWhile_eq_self_iff.mp whole)]
  exact List.append_nil txt

/-! ## Lines -/

theorem fgetsFrom_append {size left : Nat} {cur body rest : List UInt8}
    (plain : 10 ∉ body) (fits : body.length < left) :
    fgetsFrom size cur left (body ++ rest) =
      fgetsFrom size (cur ++ body) (left - body.length) rest := by
  induction body generalizing cur left with
  | nil => rw [List.nil_append, List.append_nil, List.length_nil, Nat.sub_zero]
  | cons c body induction =>
      rw [List.length_cons] at fits
      have other : c ≠ 10 := by
        rintro rfl
        exact plain List.mem_cons_self
      have inside : ¬ (c = 10 ∨ left ≤ 1) := by
        rintro (newline | full)
        · exact other newline
        · omega
      have split : cur ++ [c] ++ body = cur ++ c :: body := by
        rw [List.append_assoc, List.singleton_append]
      have room : left - 1 - body.length = left - (body.length + 1) := by omega
      rw [List.cons_append, fgetsFrom, if_neg inside,
        induction (fun member => plain (List.mem_cons_of_mem _ member))
          (by omega), split, List.length_cons, room]

/-- A line with its newline, short enough for a buffer. -/
def IsLine (size : Nat) (line : List UInt8) : Prop :=
  ∃ body, line = body ++ [10] ∧ 10 ∉ body ∧ body.length < size - 1

/-- Lines that were written one behind the other are read back. -/
theorem fgetsLines_flatten {size : Nat} {lines : List (List UInt8)}
    (written : ∀ line ∈ lines, IsLine size line) :
    fgetsLines size lines.flatten = lines := by
  induction lines with
  | nil => rfl
  | cons line lines induction =>
      obtain ⟨body, rfl, plain, short⟩ := written line List.mem_cons_self
      have rest := induction fun line member =>
        written line (List.mem_cons_of_mem _ member)
      unfold fgetsLines at rest ⊢
      rw [List.flatten_cons, List.append_assoc, fgetsFrom_append plain short,
        List.nil_append, List.singleton_append, fgetsFrom,
        if_pos (Or.inl rfl), rest]

/-- A newline can only be the last character. -/
def NewlineLast (line : List UInt8) : Prop :=
  ∀ front back, line = front ++ 10 :: back → back = []

theorem NewlineLast.of_append {line back : List UInt8}
    (ends : NewlineLast (line ++ back)) : NewlineLast line := by
  intro front rest split
  have empty := ends front (rest ++ back) (by
    rw [split, List.append_assoc]
    rfl)
  exact (List.append_eq_nil_iff.mp empty).1

theorem newlineLast_of_not_mem {line : List UInt8} (plain : 10 ∉ line) :
    NewlineLast line := by
  intro front back split
  rw [split] at plain
  exact absurd (by simp) plain

theorem newlineLast_fgetsFrom {size left : Nat} {cur txt : List UInt8}
    (plain : 10 ∉ cur) :
    ∀ line ∈ fgetsFrom size cur left txt, NewlineLast line := by
  induction txt generalizing cur left with
  | nil =>
      intro line member
      rw [fgetsFrom] at member
      split at member
      · exact absurd member List.not_mem_nil
      · rw [List.mem_singleton.mp member]
        exact newlineLast_of_not_mem plain
  | cons c txt induction =>
      intro line member
      rw [fgetsFrom] at member
      split at member
      · rcases List.mem_cons.mp member with rfl | later
        · intro front back split
          rcases List.eq_nil_or_concat back with rfl | ⟨others, last, rfl⟩
          · rfl
          · -- The newline would be in front of the last character.
            rw [List.concat_eq_append, ← List.cons_append,
              ← List.append_assoc] at split
            have inside := (List.append_inj' split rfl).1
            rw [inside] at plain
            exact absurd (by simp) plain
        · exact induction List.not_mem_nil line later
      · rename_i inside
        apply induction ?_ line member
        intro newline
        rcases List.mem_append.mp newline with before | here
        · exact plain before
        · exact inside (Or.inl (List.mem_singleton.mp here).symm)

theorem newlineLast_fgetsLines {size : Nat} {file : List UInt8} :
    ∀ line ∈ fgetsLines size file, NewlineLast line :=
  newlineLast_fgetsFrom List.not_mem_nil

theorem flatten_fgetsFrom (size left : Nat) (cur txt : List UInt8) :
    (fgetsFrom size cur left txt).flatten = cur ++ txt := by
  induction txt generalizing cur left with
  | nil =>
      rw [fgetsFrom]
      split
      · rename_i empty
        rw [empty]
        rfl
      · simp
  | cons c txt induction =>
      rw [fgetsFrom]
      split
      · rw [List.flatten_cons, induction, List.nil_append, List.append_assoc,
          List.singleton_append]
      · rw [induction, List.append_assoc, List.singleton_append]

/-- A character of a line is one of the file. -/
theorem mem_of_mem_fgetsLines {size : Nat} {file line : List UInt8}
    (listed : line ∈ fgetsLines size file) {c : UInt8} (member : c ∈ line) :
    c ∈ file := by
  have whole : (fgetsLines size file).flatten = file :=
    flatten_fgetsFrom size (size - 1) [] file
  rw [← whole]
  exact List.mem_flatten_of_mem listed member

/-- The text behind a newline is read with an empty buffer. -/
theorem fgetsFrom_append_line (size left : Nat) (cur front rest : List UInt8) :
    fgetsFrom size cur left (front ++ 10 :: rest) =
      fgetsFrom size cur left (front ++ [10]) ++ fgetsLines size rest := by
  induction front generalizing cur left with
  | nil =>
      rw [List.nil_append, List.nil_append, fgetsFrom, fgetsFrom,
        if_pos (Or.inl rfl), if_pos (Or.inl rfl)]
      rfl
  | cons c front induction =>
      rw [List.cons_append, List.cons_append, fgetsFrom, fgetsFrom]
      split
      · rw [induction, List.cons_append]
      · exact induction _ _

theorem fgetsLines_append_line (size : Nat) (front rest : List UInt8) :
    fgetsLines size (front ++ 10 :: rest) =
      fgetsLines size (front ++ [10]) ++ fgetsLines size rest :=
  fgetsFrom_append_line size (size - 1) [] front rest

/-- A line that is too long comes in pieces, the first of which fills the
buffer. -/
theorem fgetsLines_pieces {size : Nat} {body : List UInt8} (plain : 10 ∉ body)
    (room : 1 < size) :
    ∃ back others,
      fgetsLines size (body ++ [10]) =
          (body.take (size - 1) ++ back) :: others ∧
        (back = [] ∨ back = [10]) ∧
        ∀ line ∈ others, ∀ c ∈ line, c ∈ body.drop (size - 1) ++ [10] := by
  by_cases short : body.length < size - 1
  · refine ⟨[10], [], ?_, .inr rfl, by simp⟩
    unfold fgetsLines
    rw [fgetsFrom_append plain short, List.nil_append, fgetsFrom,
      if_pos (Or.inl rfl), List.take_of_length_le short.le]
    rfl
  · -- The last character for which there is room.
    obtain ⟨c, behind, split⟩ : ∃ c behind,
        body.drop (size - 2) = c :: behind := by
      apply List.exists_cons_of_ne_nil
      intro none
      have length := congrArg List.length none
      rw [List.length_drop, List.length_nil] at length
      omega
    have whole : body.take (size - 2) ++ c :: behind = body := by
      rw [← split, List.take_append_drop]
    have front : body.take (size - 2) ++ [c] = body.take (size - 1) := by
      rw [show size - 1 = size - 2 + 1 by omega, List.take_add, split]
      rfl
    have later : body.drop (size - 1) = behind := by
      rw [show size - 1 = size - 2 + 1 by omega, ← List.drop_drop, split]
      rfl
    have length : (body.take (size - 2)).length = size - 2 := by
      rw [List.length_take]
      omega
    refine ⟨[], fgetsLines size (behind ++ [10]), ?_, .inl rfl, ?_⟩
    · unfold fgetsLines
      conv_lhs => rw [← whole, List.append_assoc, List.cons_append]
      rw [fgetsFrom_append (fun member => plain (List.mem_of_mem_take member))
          (by omega), List.nil_append, fgetsFrom, if_pos (Or.inr (by omega)),
        front, List.append_nil]
    · intro line listed d member
      rw [later]
      exact mem_of_mem_fgetsLines listed member

/-! ## Tokens -/

/-- Behind a token that has others behind it there is a separator. -/
theorem strtok_first {separator : UInt8} {txt first second : List UInt8}
    {rest : List (List UInt8)}
    (tokens : strtok separator txt = first :: second :: rest) :
    separator ∉ first ∧ ∃ before behind,
      txt = before ++ first ++ separator :: behind := by
  have listed : first ∈ txt.splitOn separator := by
    have member : first ∈ strtok separator txt := by
      rw [tokens]
      exact List.mem_cons_self
    exact (List.mem_filter.mp member).1
  obtain ⟨front, last, split⟩ : ∃ front last,
      txt.splitOn separator = front ++ [last] := by
    rcases List.eq_nil_or_concat (txt.splitOn separator) with
      empty | ⟨front, last, split⟩
    · exact absurd empty (List.splitOn_ne_nil separator txt)
    · exact ⟨front, last, by rw [split, List.concat_eq_append]⟩
  have inFront : first ∈ front := by
    rw [strtok, split, List.filter_append] at tokens
    cases others : front.filter (· ≠ []) with
    | nil =>
        rw [others, List.nil_append] at tokens
        have few := List.length_filter_le (· ≠ []) [last]
        rw [tokens, List.length_singleton] at few
        simp at few
    | cons head tail =>
        rw [others, List.cons_append] at tokens
        have same : head = first := (List.cons.inj tokens).1
        have member : head ∈ front.filter (· ≠ []) := by
          rw [others]
          exact List.mem_cons_self
        rw [← same]
        exact (List.mem_filter.mp member).1
  obtain ⟨before, behind, whole⟩ := Separated.intercalate_concat inFront last
  refine ⟨Separated.not_mem_of_mem_splitOn listed, before, behind, ?_⟩
  rw [← whole, ← split, List.intercalate_splitOn]

/-- Fields that were put together with separators are the tokens. -/
theorem strtok_intercalate {separator : UInt8} {fields : List (List UInt8)}
    (plain : ∀ field ∈ fields, separator ∉ field)
    (filled : ∀ field ∈ fields, field ≠ []) :
    strtok separator ([separator].intercalate fields) = fields := by
  by_cases none : fields = []
  · subst none
    rfl
  · rw [strtok, List.splitOn_intercalate separator plain none,
      List.filter_eq_self]
    intro field member
    exact decide_eq_true (filled field member)

/-- A token in front of a separator. -/
theorem strtok_append {separator : UInt8} {front : List UInt8}
    (plain : separator ∉ front) (some : front ≠ []) (back : List UInt8) :
    strtok separator (front ++ separator :: back) =
      front :: strtok separator back := by
  have single : front.splitOn separator = [front] := by
    have whole : ([separator].intercalate [front]).splitOn separator =
        [front] :=
      List.splitOn_intercalate separator (by simpa using plain)
        (List.cons_ne_nil _ _)
    rwa [List.intercalate_singleton] at whole
  rw [strtok, List.splitOn_append_cons_self, single, List.singleton_append,
    List.filter_cons_of_pos (by simpa using some)]
  rfl

theorem splitAt_append {separator : UInt8} {front : List UInt8}
    (plain : separator ∉ front) (back : List UInt8) :
    splitAt separator (front ++ separator :: back) = some (front, back) := by
  have place : (front ++ separator :: back).idxOf? separator =
      some front.length := by
    induction front with
    | nil => simp [List.idxOf?_cons]
    | cons c front induction =>
        have other : c ≠ separator := by
          rintro rfl
          exact plain List.mem_cons_self
        rw [List.cons_append, List.idxOf?_cons, if_neg (by simpa using other),
          induction fun member => plain (List.mem_cons_of_mem _ member)]
        rfl
  rw [splitAt, place]
  simp

theorem splitAt_of_not_mem {separator : UInt8} {txt : List UInt8}
    (plain : separator ∉ txt) : splitAt separator txt = none := by
  rw [splitAt, List.idxOf?_eq_none_iff.mpr plain]
  rfl

end Oscam
