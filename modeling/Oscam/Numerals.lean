import Mathlib.Data.Nat.Digits.Lemmas
import Oscam.Simples

/-!
# Numbers in texts

Numbers as `printf` writes them and as `atoi` and `a2i` read them back.
-/

namespace Oscam

open Monitor (trim isBlank)
open Serial (gethexval)

/-! ## Writing -/

/-- A digit, from ten on a capital letter. -/
def digitChar (digit : Nat) : UInt8 :=
  if digit < 10 then UInt8.ofNat (48 + digit) else UInt8.ofNat (55 + digit)

/-- The digits of a number, zeros in front up to some width. -/
def padded (base width n : Nat) : List UInt8 :=
  List.replicate (width - (Nat.digits base n).length) 48 ++
    (Nat.digits base n).reverse.map digitChar

/-- `%d` and `%ld`. -/
def decimal (n : Int) : List UInt8 :=
  if n < 0 then 45 :: padded 10 1 n.natAbs else padded 10 1 n.natAbs

/-- `%04X` and such. -/
def hexadecimal (width n : Nat) : List UInt8 := padded 16 width n

/-! ## Reading -/

/-- `isspace`. -/
def isSpace (c : UInt8) : Bool := c == 32 || 9 ≤ c && c ≤ 13

def isDigit (c : UInt8) : Bool := 48 ≤ c && c ≤ 57

/-- The number at the begin of a text. -/
def leadingNumber (txt : List UInt8) : Nat :=
  (txt.takeWhile isDigit).foldl
    (fun value c => value * 10 + (c.toNat - 48)) 0

/-- `atol`. -/
def atol (txt : List UInt8) : Int :=
  match txt.dropWhile isSpace with
  | [] => 0
  | c :: rest =>
      if c = 45 then -leadingNumber rest
      else if c = 43 then leadingNumber rest
      else leadingNumber (c :: rest)

/-! ## Digits -/

variable {base width n digit : Nat}

theorem isDigit_digitChar (small : digit < 10) :
    isDigit (digitChar digit) = true := by
  interval_cases digit <;> rfl

theorem toNat_digitChar (small : digit < 10) :
    (digitChar digit).toNat - 48 = digit := by
  interval_cases digit <;> rfl

theorem gethexval_digitChar (small : digit < 16) :
    gethexval (digitChar digit) = some digit := by
  interval_cases digit <;> rfl

theorem gethexval_lt {c : UInt8} (found : gethexval c = some digit) :
    digit < 16 := by
  unfold gethexval at found
  have least (off low high : UInt8) (range : low ≤ c ∧ c ≤ high)
      (front : off.toNat ≤ low.toNat) (few : high.toNat < off.toNat + 16) :
      (c - off).toNat < 16 := by
    have first := UInt8.le_iff_toNat_le.mp range.1
    have last := UInt8.le_iff_toNat_le.mp range.2
    rw [UInt8.toNat_sub_of_le c off (UInt8.le_iff_toNat_le.mpr (by omega))]
    omega
  split at found
  · obtain rfl := Option.some.inj found
    exact least 48 48 57 (by assumption) (by decide) (by decide)
  · split at found
    · obtain rfl := Option.some.inj found
      exact least 55 65 70 (by assumption) (by decide) (by decide)
    · split at found
      · obtain rfl := Option.some.inj found
        exact least 87 97 102 (by assumption) (by decide) (by decide)
      · cases found

theorem hexValue_lt {digits : List UInt8} {value : Nat}
    (read : hexValue digits = some value) : value < 16 ^ digits.length := by
  induction digits generalizing value with
  | nil =>
      cases read
      decide
  | cons c digits induction =>
      unfold hexValue at read
      cases first : gethexval c with
      | none =>
          rw [first] at read
          cases read
      | some digit =>
          cases rest : hexValue digits with
          | none =>
              rw [first, rest] at read
              cases read
          | some others =>
              rw [first, rest] at read
              cases read
              have low := gethexval_lt first
              have high := induction rest
              rw [List.length_cons, Nat.pow_succ]
              omega

/-- A character of a number: a digit, a capital letter, or a sign. -/
def numberChar (c : UInt8) : Bool :=
  c == 45 || 48 ≤ c && c ≤ 57 || 65 ≤ c && c ≤ 90

theorem numberChar_digitChar (small : digit < 16) :
    numberChar (digitChar digit) = true := by
  interval_cases digit <;> rfl

theorem mem_padded (two : 1 < base) {c : UInt8}
    (member : c ∈ padded base width n) :
    ∃ digit < base, c = digitChar digit := by
  rcases List.mem_append.mp member with zeros | digits
  · exact ⟨0, by omega, List.eq_of_mem_replicate zeros⟩
  · obtain ⟨digit, inside, rfl⟩ := List.mem_map.mp digits
    exact ⟨digit, Nat.digits_lt_base two (List.mem_reverse.mp inside), rfl⟩

theorem length_padded_le (two : 1 < base) {most : Nat} (small : n < base ^ most)
    (least : width ≤ most) : (padded base width n).length ≤ most := by
  have digits : (Nat.digits base n).length ≤ most :=
    (Nat.digits_length_le_iff two n).mpr small
  unfold padded
  simp only [List.length_append, List.length_replicate, List.length_map,
    List.length_reverse]
  omega

theorem length_padded (two : 1 < base) (small : n < base ^ width) :
    (padded base width n).length = width := by
  have digits : (Nat.digits base n).length ≤ width :=
    (Nat.digits_length_le_iff two n).mpr small
  unfold padded
  simp only [List.length_append, List.length_replicate, List.length_map,
    List.length_reverse]
  omega

theorem numberChar_padded (two : 1 < base) (small : base ≤ 16) :
    ∀ c ∈ padded base width n, numberChar c = true := by
  intro c member
  obtain ⟨digit, inside, rfl⟩ := mem_padded two member
  exact numberChar_digitChar (by omega)

theorem not_mem_hexadecimal {c : UInt8} (other : numberChar c = false)
    (width n : Nat) : c ∉ hexadecimal width n := by
  intro member
  have number := numberChar_padded (by decide) (by decide) c member
  rw [other] at number
  exact Bool.noConfusion number

theorem padded_ne_nil (some : 0 < width) : padded base width n ≠ [] := by
  intro empty
  obtain ⟨zeros, digits⟩ := List.append_eq_nil_iff.mp empty
  have none : (Nat.digits base n).length = 0 := by
    simpa using digits
  rw [none, Nat.sub_zero, List.replicate_eq_nil_iff] at zeros
  omega

theorem ofDigits_eq_foldl (base : Nat) (digits : List Nat) :
    digits.reverse.foldl (fun value digit => value * base + digit) 0 =
      Nat.ofDigits base digits := by
  induction digits with
  | nil => rfl
  | cons digit digits induction =>
      rw [List.reverse_cons, List.foldl_append, induction, List.foldl_cons,
        List.foldl_nil, Nat.ofDigits_cons, Nat.mul_comm, Nat.add_comm]

theorem foldl_digitChar {digits : List Nat}
    (small : ∀ digit ∈ digits, digit < 10) (start : Nat) :
    (digits.map digitChar).foldl
        (fun value c => value * 10 + (c.toNat - 48)) start =
      digits.foldl (fun value digit => value * 10 + digit) start := by
  induction digits generalizing start with
  | nil => rfl
  | cons digit digits induction =>
      rw [List.map_cons, List.foldl_cons, List.foldl_cons,
        toNat_digitChar (small digit List.mem_cons_self),
        induction fun digit member =>
          small digit (List.mem_cons_of_mem _ member)]

theorem foldl_zeros (count : Nat) :
    (List.replicate count (48 : UInt8)).foldl
      (fun value c => value * 10 + (c.toNat - 48)) 0 = 0 := by
  induction count with
  | zero => rfl
  | succ count induction =>
      rw [List.replicate_succ, List.foldl_cons]
      exact induction

theorem leadingNumber_padded (width n : Nat) :
    leadingNumber (padded 10 width n) = n := by
  have small : ∀ digit ∈ (Nat.digits 10 n).reverse, digit < 10 := by
    intro digit member
    exact Nat.digits_lt_base (by decide) (List.mem_reverse.mp member)
  have all : (padded 10 width n).takeWhile isDigit = padded 10 width n := by
    rw [List.takeWhile_eq_self_iff]
    intro c member
    obtain ⟨digit, inside, rfl⟩ := mem_padded (by decide) member
    exact isDigit_digitChar inside
  unfold leadingNumber
  rw [all, padded, List.foldl_append, foldl_zeros, foldl_digitChar small,
    ofDigits_eq_foldl, Nat.ofDigits_digits]

/-- A number that was written is read back. -/
theorem atol_decimal (n : Int) : atol (decimal n) = n := by
  unfold decimal
  by_cases negative : n < 0
  · rw [if_pos negative]
    show -((leadingNumber (padded 10 1 n.natAbs) : Nat) : Int) = n
    rw [leadingNumber_padded]
    omega
  · rw [if_neg negative]
    have written : padded 10 1 n.natAbs ≠ [] := padded_ne_nil (by decide)
    obtain ⟨c, rest, split⟩ := List.exists_cons_of_ne_nil written
    have first : c ∈ padded 10 1 n.natAbs := by
      rw [split]
      exact List.mem_cons_self
    obtain ⟨digit, small, rfl⟩ := mem_padded (by decide) first
    have blank : isSpace (digitChar digit) = false := by
      interval_cases digit <;> rfl
    have minus : digitChar digit ≠ 45 := by
      interval_cases digit <;> decide
    have plus : digitChar digit ≠ 43 := by
      interval_cases digit <;> decide
    unfold atol
    rw [split, List.dropWhile_cons_of_neg (by simpa using blank)]
    dsimp only
    rw [if_neg minus, if_neg plus, ← split, leadingNumber_padded]
    omega

theorem hexValue_digits {digits : List Nat}
    (small : ∀ digit ∈ digits, digit < 16) (zeros : Nat) :
    hexValue (digits.map digitChar ++ List.replicate zeros 48) =
      some (Nat.ofDigits 16 digits) := by
  induction digits with
  | nil =>
      induction zeros with
      | zero => rfl
      | succ zeros induction =>
          rw [List.map_nil, List.nil_append] at induction ⊢
          rw [List.replicate_succ, hexValue, induction]
          rfl
  | cons digit digits induction =>
      rw [List.map_cons, List.cons_append, hexValue,
        gethexval_digitChar (small digit List.mem_cons_self),
        induction fun digit member =>
          small digit (List.mem_cons_of_mem _ member)]
      dsimp only
      rw [Nat.ofDigits_cons]

theorem trim_sublist (txt : List UInt8) : (trim txt).Sublist txt := by
  unfold trim
  have front : (if txt.head? = some 32 then txt.dropWhile isBlank
      else txt).Sublist txt := by
    split
    · exact (List.dropWhile_suffix _).sublist
    · exact List.Sublist.refl txt
  exact (List.rdropWhile_prefix _ _).sublist.trans front

theorem head_trim (txt : List UInt8) : (trim txt).head? ≠ some 32 := by
  have front : (if txt.head? = some 32 then txt.dropWhile isBlank
      else txt).head? ≠ some 32 := by
    split
    · intro blank
      have kept := List.head?_dropWhile_not isBlank txt
      rw [blank] at kept
      cases kept
    · assumption
  intro blank
  unfold trim at blank
  obtain ⟨rest, whole⟩ := List.rdropWhile_prefix isBlank
    (if txt.head? = some 32 then txt.dropWhile isBlank else txt)
  rw [← whole] at front
  apply front
  rw [List.head?_append_of_ne_nil _
    (List.ne_nil_of_mem (List.mem_of_head? blank))]
  exact blank

/-- Blanks do not have to be cut off twice. -/
theorem trim_trim (txt : List UInt8) : trim (trim txt) = trim txt := by
  show (if (trim txt).head? = some 32 then (trim txt).dropWhile isBlank
    else trim txt).rdropWhile isBlank = trim txt
  rw [if_neg (head_trim txt)]
  exact List.rdropWhile_idempotent _ _

/-- Blanks behind a text go, and nothing else when it begins with no space and
ends with no blank. -/
theorem trim_append_of_ends {txt back : List UInt8} (some : txt ≠ [])
    (first : txt.head? ≠ Option.some 32)
    (last : ∀ c ∈ txt.getLast?, isBlank c = false)
    (blank : ∀ c ∈ back, isBlank c = true) : trim (txt ++ back) = txt := by
  unfold trim
  rw [List.head?_append_of_ne_nil _ some, if_neg first, List.rdropWhile,
    List.reverse_append,
    List.dropWhile_append_of_pos fun c member =>
      blank c (List.mem_reverse.mp member)]
  show txt.rdropWhile isBlank = txt
  rw [List.rdropWhile_eq_self_iff]
  intro filled
  rw [last _ (List.getLast_mem_getLast? filled)]
  exact Bool.false_ne_true

theorem trim_append {txt back : List UInt8}
    (none : ∀ c ∈ txt, isBlank c = false) (blank : ∀ c ∈ back, isBlank c = true)
    (some : txt ≠ []) : trim (txt ++ back) = txt := by
  apply trim_append_of_ends some ?_ ?_ blank
  · intro space
    have kept := none 32 (List.mem_of_head? space)
    cases kept
  · intro c last
    exact none c (List.mem_of_getLast? last)

theorem trim_of_plain {txt : List UInt8}
    (none : ∀ c ∈ txt, isBlank c = false) : trim txt = txt := by
  by_cases some : txt = []
  · subst some
    rfl
  · have whole : trim (txt ++ []) = txt := trim_append none (by simp) some
    rwa [List.append_nil] at whole

/-- Of the blanks in front a space is enough. -/
theorem trim_space {txt : List UInt8} (none : ∀ c ∈ txt, isBlank c = false) :
    trim (32 :: txt) = txt := by
  cases txt with
  | nil => rfl
  | cons c rest =>
      have first : isBlank c = false := none c List.mem_cons_self
      have other : c ≠ 32 := by
        rintro rfl
        cases first
      have front : trim (32 :: c :: rest) = trim (c :: rest) := by
        unfold trim
        rw [List.head?_cons, List.head?_cons, if_pos rfl,
          if_neg (by simpa using other), List.dropWhile_cons_of_pos (by decide),
          List.dropWhile_cons_of_neg (by simpa using first)]
      rw [front, trim_of_plain none]

theorem isBlank_of_numberChar {c : UInt8} (number : numberChar c = true) :
    isBlank c = false := by
  unfold numberChar at number
  unfold isBlank
  grind

theorem a2i_lt {asc : List UInt8} {bytes value : Nat}
    (read : a2i asc bytes = some value) : value < 16 ^ (2 * bytes) := by
  obtain ⟨whole, digits, rfl⟩ := Option.map_eq_some_iff.mp read
  have below := hexValue_lt digits
  have few : ((trim asc).reverse.take (2 * bytes)).length ≤ 2 * bytes :=
    List.length_take_le _ _
  calc whole % 2 ^ 32 ≤ whole := Nat.mod_le _ _
    _ < 16 ^ ((trim asc).reverse.take (2 * bytes)).length := below
    _ ≤ 16 ^ (2 * bytes) := Nat.pow_le_pow_right (by decide) few

theorem hexValue_hexadecimal (width n : Nat) :
    hexValue (hexadecimal width n).reverse = some n := by
  have digits : ∀ digit ∈ Nat.digits 16 n, digit < 16 := by
    intro digit member
    exact Nat.digits_lt_base (by decide) member
  rw [hexadecimal, padded, List.reverse_append, ← List.map_reverse,
    List.reverse_reverse, List.reverse_replicate, hexValue_digits digits,
    Nat.ofDigits_digits]

/-- A number that was written is read back, also with blanks behind it. -/
theorem a2i_hexadecimal {bytes : Nat} {back : List UInt8}
    (blank : ∀ c ∈ back, isBlank c = true) (some : 0 < width)
    (fits : width ≤ 2 * bytes) (small : n < 16 ^ (2 * bytes))
    (word : n < 2 ^ 32) :
    a2i (hexadecimal width n ++ back) bytes = Option.some n := by
  have none : ∀ c ∈ hexadecimal width n, isBlank c = false := by
    intro c member
    exact isBlank_of_numberChar
      (numberChar_padded (by decide) (by decide) c member)
  have length : (hexadecimal width n).reverse.length ≤ 2 * bytes := by
    rw [List.length_reverse]
    exact length_padded_le (by decide) small fits
  unfold a2i
  rw [trim_append none blank (padded_ne_nil some),
    List.take_of_length_le length, hexValue_hexadecimal, Option.map_some,
    Nat.mod_eq_of_lt word]

theorem a2i_hexadecimal_alone {bytes : Nat} (some : 0 < width)
    (fits : width ≤ 2 * bytes) (small : n < 16 ^ (2 * bytes))
    (word : n < 2 ^ 32) :
    a2i (hexadecimal width n) bytes = Option.some n := by
  have read : a2i (hexadecimal width n ++ []) bytes = Option.some n :=
    a2i_hexadecimal (by simp) some fits small word
  rwa [List.append_nil] at read

/-! ## Small letters -/

theorem mem_strtolower_hexadecimal {c : UInt8}
    (member : c ∈ strtolower (hexadecimal width n)) :
    ∃ digit < 16, c = tolower (digitChar digit) := by
  obtain ⟨capital, inside, rfl⟩ := List.mem_map.mp member
  obtain ⟨digit, small, rfl⟩ := mem_padded (by decide) inside
  exact ⟨digit, small, rfl⟩

/-- Small letters are digits like capital ones. -/
theorem gethexval_tolower (small : digit < 16) :
    gethexval (tolower (digitChar digit)) = gethexval (digitChar digit) := by
  interval_cases digit <;> rfl

theorem isBlank_tolower (small : digit < 16) :
    isBlank (tolower (digitChar digit)) = false := by
  interval_cases digit <;> rfl

theorem isBlank_strtolower {txt : List UInt8}
    (none : ∀ c ∈ txt, isBlank c = false) :
    ∀ c ∈ strtolower txt, isBlank c = false := by
  intro c member
  obtain ⟨letter, inside, rfl⟩ := List.mem_map.mp member
  have kept := none letter inside
  unfold tolower
  split
  · unfold isBlank
    grind
  · exact kept

theorem hexValue_strtolower {digits : List UInt8}
    (same : ∀ c ∈ digits, gethexval (tolower c) = gethexval c) :
    hexValue (strtolower digits) = hexValue digits := by
  induction digits with
  | nil => rfl
  | cons c digits induction =>
      have rest := induction fun c member =>
        same c (List.mem_cons_of_mem _ member)
      unfold strtolower at rest ⊢
      rw [List.map_cons, hexValue, hexValue, rest, same c List.mem_cons_self]

/-- Without its last digits a number is divided. -/
theorem hexValue_drop {digits : List UInt8} {value : Nat}
    (read : hexValue digits = some value) (count : Nat) :
    hexValue (digits.drop count) = some (value / 16 ^ count) := by
  induction count generalizing digits value with
  | zero => rw [List.drop_zero, Nat.pow_zero, Nat.div_one, read]
  | succ count induction =>
      cases digits with
      | nil =>
          cases read
          rw [List.drop_nil, Nat.zero_div]
          rfl
      | cons c digits =>
          rw [hexValue] at read
          split at read
          · rename_i digit rest found later
            cases read
            have small := gethexval_lt found
            have front : (digit + 16 * rest) / 16 = rest := by omega
            rw [List.drop_succ_cons, induction later, Nat.pow_succ',
              ← Nat.div_div_eq_div_mul, front]
          · cases read

/-- The first digits of a number in small letters. -/
theorem a2i_strtolower_take {bytes : Nat} (count : Nat)
    (fits : (hexadecimal width n).length ≤ 2 * bytes) (word : n < 2 ^ 32) :
    a2i (strtolower ((hexadecimal width n).take count)) bytes =
      some (n / 16 ^ ((hexadecimal width n).length - count)) := by
  have plain : ∀ c ∈ strtolower ((hexadecimal width n).take count),
      isBlank c = false := by
    intro c member
    unfold strtolower at member
    rw [List.map_take] at member
    obtain ⟨digit, small, rfl⟩ :=
      mem_strtolower_hexadecimal (List.mem_of_mem_take member)
    exact isBlank_tolower small
  have back : (strtolower ((hexadecimal width n).take count)).reverse =
      strtolower ((hexadecimal width n).reverse.drop
        ((hexadecimal width n).length - count)) := by
    unfold strtolower
    rw [← List.map_reverse, List.reverse_take]
  have short : ((hexadecimal width n).reverse.drop
      ((hexadecimal width n).length - count)).length ≤ 2 * bytes := by
    rw [List.length_drop, List.length_reverse]
    omega
  have digits : ∀ c ∈ (hexadecimal width n).reverse.drop
      ((hexadecimal width n).length - count),
      gethexval (tolower c) = gethexval c := by
    intro c member
    obtain ⟨digit, small, rfl⟩ := mem_padded (by decide)
      (List.mem_reverse.mp (List.mem_of_mem_drop member))
    exact gethexval_tolower small
  have least := Nat.div_le_self n
    (16 ^ ((hexadecimal width n).length - count))
  unfold a2i
  rw [trim_of_plain plain, back, List.take_of_length_le (by
      unfold strtolower
      rw [List.length_map]
      exact short),
    hexValue_strtolower digits,
    hexValue_drop (hexValue_hexadecimal width n), Option.map_some,
    Nat.mod_eq_of_lt (by omega)]

/-! ## Keys -/

/-- `%02X` of every byte. -/
def keyText (key : List UInt8) : List UInt8 :=
  key.flatMap fun b => hexadecimal 2 b.toNat

theorem hexadecimal_two (small : n < 16 ^ 2) :
    hexadecimal 2 n = [digitChar (n / 16), digitChar (n % 16)] := by
  unfold hexadecimal padded
  by_cases zero : n = 0
  · subst zero
    rfl
  · rw [Nat.digits_def' (by decide) (by omega)]
    by_cases one : n / 16 = 0
    · rw [one, Nat.digits_zero]
      rfl
    · rw [Nat.digits_of_lt 16 _ one (by omega)]
      rfl

theorem length_keyText (key : List UInt8) :
    (keyText key).length = 2 * key.length := by
  induction key with
  | nil => rfl
  | cons b key induction =>
      have two : (hexadecimal 2 b.toNat).length = 2 :=
        length_padded (by decide) (UInt8.toNat_lt b)
      rw [keyText] at induction ⊢
      rw [List.flatMap_cons, List.length_append, two, induction,
        List.length_cons]
      omega

theorem gethexval_hexadecimal {c : UInt8}
    (member : c ∈ hexadecimal width n) : (gethexval c).isSome := by
  obtain ⟨digit, small, rfl⟩ := mem_padded (by decide) member
  rw [gethexval_digitChar small]
  rfl

theorem gethexval_keyText {key : List UInt8} {c : UInt8}
    (member : c ∈ keyText key) : (gethexval c).isSome := by
  obtain ⟨b, _, inside⟩ := List.mem_flatMap.mp member
  exact gethexval_hexadecimal inside

/-- The first two digits make the first byte. -/
theorem keyAtobL_cons (hi lo : UInt8) (asc : List UInt8) (bytes : Nat) :
    keyAtobL (hi :: lo :: asc) (2 * (bytes + 1)) =
      (16 * keyDigit hi + keyDigit lo) :: keyAtobL asc (2 * bytes) := by
  unfold keyAtobL
  rw [Nat.mul_div_cancel_left _ (by decide), Nat.mul_div_cancel_left _
    (by decide), List.range_succ_eq_map, List.map_cons, List.map_map]
  rfl

/-- A key that was printed is read back. -/
theorem keyAtobL_keyText (key : List UInt8) :
    keyAtobL (keyText key) (2 * key.length) = key := by
  induction key with
  | nil => rfl
  | cons b key induction =>
      have small : b.toNat < 16 ^ 2 := UInt8.toNat_lt b
      have value {digit : Nat} (low : digit < 16) :
          keyDigit (digitChar digit) = UInt8.ofNat digit := by
        rw [keyDigit, gethexval_digitChar low]
      have digits : keyText (b :: key) = digitChar (b.toNat / 16) ::
          digitChar (b.toNat % 16) :: keyText key := by
        rw [keyText, List.flatMap_cons, hexadecimal_two small]
        rfl
      have byte : 16 * UInt8.ofNat (b.toNat / 16) +
          UInt8.ofNat (b.toNat % 16) = b := by
        apply UInt8.toNat_inj.mp
        have sixteen : (16 : UInt8).toNat = 16 := rfl
        rw [UInt8.toNat_add, UInt8.toNat_mul, UInt8.toNat_ofNat',
          UInt8.toNat_ofNat', sixteen]
        omega
      rw [digits, List.length_cons, keyAtobL_cons, induction,
        value (by omega), value (by omega), byte]

end Oscam
