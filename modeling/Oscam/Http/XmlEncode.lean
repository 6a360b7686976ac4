import Oscam.Config.Printing

/-!
# Texts in pages

`xml_encode` writes a text with an entity for each character that means
something in XML, and with a number for each one that is not ASCII.  A `char`
is signed.
-/

namespace Oscam.Http

open Monitor (ascii cstr)

/-! ## Encoding -/

/-- A `char`. -/
def signedChar (c : UInt8) : Int :=
  if c.toNat < 128 then c.toNat else c.toNat - 256

/-- What is written for a character; the `buffer` has seven bytes. -/
def encoding (c : UInt8) : List UInt8 :=
  if c = 38 then ascii "&amp;"
  else if c = 60 then ascii "&lt;"
  else if c = 62 then ascii "&gt;"
  else if c = 34 then ascii "&quot;"
  else if c = 39 then ascii "&apos;"
  else if signedChar c % 2 ^ 32 < 32 ∨ 127 < signedChar c % 2 ^ 32 then
    (ascii "&#" ++ decimal (signedChar c + 256) ++ [59]).take 6
  else [c]

/-- `memcpy` to the position. -/
def copyTo (p : Print) (txt : List UInt8) : Print :=
  { buf := p.buf.write p.pos txt, pos := p.pos + txt.length }

/-- `encoded` with its size, and the position. -/
structure Encoded where
  needed : Nat
  print : Print

/-- `xml_encode` in front of the allocation. -/
def xmlEncode (encoded : Memory) (chartoencode : List UInt8) : Encoded :=
  { needed := chartoencode.length * 6 + 1
    print := chartoencode.foldl (fun p c => copyTo p (encoding c))
      (.startIn encoded) }

/-- Nothing is written behind the array or read from there. -/
def Encoded.Inside (e : Encoded) : Prop :=
  e.print.buf.written ≤ e.needed ∧ e.print.pos ≤ e.needed

/-- The copy that is returned. -/
def Encoded.result (e : Encoded) : List UInt8 :=
  cstr (e.print.buf.memory.read 0 e.print.pos)

/-! ## Decoding -/

/-- The character of an entity, as far as it is one of 256. -/
def entity (name : List UInt8) : Option UInt8 :=
  if name = ascii "amp" then some 38
  else if name = ascii "lt" then some 60
  else if name = ascii "gt" then some 62
  else if name = ascii "quot" then some 34
  else if name = ascii "apos" then some 39
  else
    match name with
    | 35 :: digits =>
        if digits ≠ [] ∧ digits.all isDigit ∧ leadingNumber digits < 256 then
          some (UInt8.ofNat (leadingNumber digits))
        else none
    | _ => none

/-- The characters that mean something in XML, `&` apart. -/
def isMarkup (c : UInt8) : Bool := c = 60 ∨ c = 62 ∨ c = 34 ∨ c = 39

/-- What a reader of the page makes of a text; first the name of the entity
that has been begun. -/
def decodeFrom : Option (List UInt8) → List UInt8 → Option (List UInt8)
  | none, [] => some []
  | some _, [] => none
  | none, c :: txt =>
      if c = 38 then decodeFrom (some []) txt
      else if isMarkup c then none
      else (decodeFrom none txt).map (c :: ·)
  | some name, c :: txt =>
      if c = 59 then
        (entity name).bind fun b => (decodeFrom none txt).map (b :: ·)
      else decodeFrom (some (name ++ [c])) txt

def decode (txt : List UInt8) : Option (List UInt8) := decodeFrom none txt

/-- The text is encoded inside the array; the result has no markup, each `&` in
it begins an entity of a character, and it is decoded to the text. -/
structure Encodes (encoded : Memory) (s : List UInt8) : Prop where
  inside : (xmlEncode encoded s).Inside
  clean : ∀ c ∈ (xmlEncode encoded s).result, isMarkup c = false
  entities : ∀ front back,
    (xmlEncode encoded s).result = front ++ 38 :: back →
      ∃ c ∈ s, 1 < (encoding c).length ∧ encoding c <+: 38 :: back
  decoded : decode (xmlEncode encoded s).result = some s

/-! ## Single characters -/

/-- The name of an entity in front of its semicolon. -/
structure IsName (name : List UInt8) : Prop where
  short : name.length ≤ 4
  plain : ∀ d ∈ name, d ≠ 0 ∧ d ≠ 59 ∧ d ≠ 38 ∧ isMarkup d = false

theorem entity_decimal (n : Nat) :
    entity (35 :: decimal n) =
      if n < 256 then some (UInt8.ofNat n) else none := by
  have written : decimal n = padded 10 1 n := by
    rw [decimal, if_neg (by omega), Int.natAbs_natCast]
  have filled : padded 10 1 n ≠ [] := padded_ne_nil (by decide)
  have digits : (padded 10 1 n).all isDigit = true := by
    rw [List.all_eq_true]
    intro c member
    obtain ⟨digit, inside, rfl⟩ := mem_padded (by decide) member
    exact isDigit_digitChar inside
  have other (name : String) (first : (ascii name).head? ≠ some 35) :
      35 :: padded 10 1 n ≠ ascii name := by
    intro same
    rw [← same] at first
    exact first rfl
  rw [written, entity, if_neg (other "amp" (by decide)),
    if_neg (other "lt" (by decide)), if_neg (other "gt" (by decide)),
    if_neg (other "quot" (by decide)), if_neg (other "apos" (by decide))]
  simp only [filled, digits, leadingNumber_padded, ne_eq, not_false_eq_true,
    true_and]

theorem isName_decimal {n : Nat} (few : n < 1000) :
    IsName (35 :: decimal n) := by
  have written : decimal n = padded 10 1 n := by
    rw [decimal, if_neg (by omega), Int.natAbs_natCast]
  have length : (padded 10 1 n).length ≤ 3 :=
    length_padded_le (by decide) few (by decide)
  rw [written]
  refine ⟨by rw [List.length_cons]; omega, ?_⟩
  intro d member
  rcases List.mem_cons.mp member with rfl | digit
  · decide
  · obtain ⟨value, small, rfl⟩ := mem_padded (by decide) digit
    interval_cases value <;> decide

/-- A character is written as it is, or as an entity that stands for it unless
it is a control character. -/
theorem encoding_cases (c : UInt8) :
    (encoding c = [c] ∧ c ≠ 38 ∧ isMarkup c = false ∧ 32 ≤ c) ∨
      ∃ name, encoding c = 38 :: (name ++ [59]) ∧ IsName name ∧
        entity name = if 32 ≤ c then some c else none := by
  have named (name : String) (short : (ascii name).length ≤ 4)
      (plain : (ascii name).all fun d =>
        d ≠ 0 ∧ d ≠ 59 ∧ d ≠ 38 ∧ isMarkup d = false) : IsName (ascii name) :=
    ⟨short, fun d member =>
      of_decide_eq_true (List.all_eq_true.mp plain d member)⟩
  unfold encoding
  by_cases amp : c = 38
  · subst amp
    exact .inr ⟨ascii "amp", rfl, named _ (by decide) rfl, rfl⟩
  by_cases lt : c = 60
  · subst lt
    exact .inr ⟨ascii "lt", rfl, named _ (by decide) rfl, rfl⟩
  by_cases gt : c = 62
  · subst gt
    exact .inr ⟨ascii "gt", rfl, named _ (by decide) rfl, rfl⟩
  by_cases quot : c = 34
  · subst quot
    exact .inr ⟨ascii "quot", rfl, named _ (by decide) rfl, rfl⟩
  by_cases apos : c = 39
  · subst apos
    exact .inr ⟨ascii "apos", rfl, named _ (by decide) rfl, rfl⟩
  have small : c.toNat < 256 := c.toNat_lt
  have printable : 32 ≤ c ↔ 32 ≤ c.toNat := UInt8.le_iff_toNat_le
  rw [if_neg amp, if_neg lt, if_neg gt, if_neg quot, if_neg apos]
  by_cases number : signedChar c % 2 ^ 32 < 32 ∨ 127 < signedChar c % 2 ^ 32
  · rw [if_pos number]
    right
    -- The number is the character, or one of 256 more.
    obtain ⟨n, value, few, which⟩ : ∃ n : Nat, signedChar c + 256 = n ∧
        n < 1000 ∧ (if n < 256 then some (UInt8.ofNat n) else none) =
          if 32 ≤ c then some c else none := by
      unfold signedChar at number ⊢
      split at number
      · rename_i positive
        refine ⟨c.toNat + 256, by rw [if_pos positive]; omega, by omega, ?_⟩
        rw [if_neg (by omega), if_neg (by rw [printable]; omega)]
      · rename_i negative
        refine ⟨c.toNat, by rw [if_neg negative]; omega, by omega, ?_⟩
        rw [if_pos small, if_pos (by rw [printable]; omega),
          UInt8.ofNat_toNat]
    have name := isName_decimal few
    refine ⟨35 :: decimal n, ?_, name, ?_⟩
    · have short := name.short
      rw [value, List.take_of_length_le]
      · rfl
      · rw [List.length_cons] at short
        rw [List.length_append, List.length_append, List.length_singleton]
        have front : (ascii "&#").length = 2 := rfl
        omega
    · rw [entity_decimal, which]
  · rw [if_neg number]
    left
    refine ⟨rfl, amp, ?_, ?_⟩
    · simp [isMarkup, lt, gt, quot, apos]
    · rw [printable]
      unfold signedChar at number
      split at number <;> omega

theorem length_encoding_le (c : UInt8) : (encoding c).length ≤ 6 := by
  rcases encoding_cases c with ⟨same, _⟩ | ⟨name, same, isName, _⟩
  · rw [same, List.length_singleton]
    omega
  · have short := isName.short
    rw [same, List.length_cons, List.length_append, List.length_singleton]
    omega

/-- There are no zeros and no markup in what is written. -/
theorem plain_encoding (c : UInt8) :
    ∀ d ∈ encoding c, d ≠ 0 ∧ isMarkup d = false := by
  intro d member
  rcases encoding_cases c with ⟨same, _, plain, some⟩ | ⟨name, same, isName, _⟩
  · rw [same] at member
    rw [List.mem_singleton.mp member]
    refine ⟨?_, plain⟩
    rintro rfl
    exact absurd some (by decide)
  · rw [same] at member
    rcases List.mem_cons.mp member with rfl | rest
    · decide
    · rcases List.mem_append.mp rest with inside | last
      · exact ⟨(isName.plain d inside).1, (isName.plain d inside).2.2.2⟩
      · rw [List.mem_singleton.mp last]
        decide

/-! ## The text -/

/-- So far this text has been copied to the array. -/
structure Copies (p : Print) (txt : List UInt8) : Prop extends p.Shows txt where
  written : p.buf.written ≤ txt.length

theorem Copies.copyTo {p : Print} {txt : List UInt8} (copies : Copies p txt)
    (more : List UInt8) : Copies (copyTo p more) (txt ++ more) := by
  have position : (Http.copyTo p more).pos = (txt ++ more).length := by
    rw [Http.copyTo, copies.pos, List.length_append]
  have before := copies.written
  unfold Http.copyTo at position ⊢
  by_cases none : more = []
  · subst none
    refine ⟨⟨position, ?_⟩, ?_⟩
    · simpa [Buffer.write] using copies.bytes
    · simpa [Buffer.write] using before
  · have filled : more.isEmpty = false := by simpa using none
    refine ⟨⟨position, ?_⟩, ?_⟩
    · rw [copies.pos, Buffer.write, filled]
      exact Memory.read_write_behind copies.bytes more
    · rw [copies.pos, Buffer.write, filled, List.length_append]
      simp only [Bool.false_eq_true, if_false]
      omega

theorem copies_xmlEncode (encoded : Memory) (s : List UInt8) :
    Copies (xmlEncode encoded s).print (s.flatMap encoding) := by
  have run (p : Print) (txt : List UInt8) (copies : Copies p txt) :
      Copies (s.foldl (fun p c => copyTo p (encoding c)) p)
        (txt ++ s.flatMap encoding) := by
    induction s generalizing p txt with
    | nil => simpa using copies
    | cons c s induction =>
        have step := induction _ _ (copies.copyTo (encoding c))
        rw [List.append_assoc] at step
        exact step
  exact run _ [] ⟨⟨rfl, rfl⟩, le_refl 0⟩

theorem inside_xmlEncode (encoded : Memory) (s : List UInt8) :
    (xmlEncode encoded s).Inside := by
  have copies := copies_xmlEncode encoded s
  have length : (s.flatMap encoding).length ≤ s.length * 6 := by
    induction s with
    | nil => exact le_refl 0
    | cons c s induction =>
        have first := length_encoding_le c
        have rest := induction (copies_xmlEncode encoded s)
        rw [List.flatMap_cons, List.length_append, List.length_cons]
        omega
  have written := copies.written
  have pos := copies.pos
  show _ ≤ s.length * 6 + 1 ∧ _ ≤ s.length * 6 + 1
  omega

theorem result_xmlEncode (encoded : Memory) (s : List UInt8) :
    (xmlEncode encoded s).result = s.flatMap encoding := by
  have copies := copies_xmlEncode encoded s
  rw [Encoded.result, copies.pos, copies.bytes]
  apply cstr_of_plain
  intro zero
  obtain ⟨c, _, inside⟩ := List.mem_flatMap.mp zero
  exact (plain_encoding c 0 inside).1 rfl

/-! ## Reading the page -/

theorem decodeFrom_name {name : List UInt8} (plain : 59 ∉ name)
    (begun txt : List UInt8) :
    decodeFrom (some begun) (name ++ 59 :: txt) =
      (entity (begun ++ name)).bind fun b =>
        (decodeFrom none txt).map (b :: ·) := by
  induction name generalizing begun with
  | nil =>
      rw [List.nil_append, decodeFrom, if_pos rfl, List.append_nil]
  | cons d name induction =>
      have other : d ≠ 59 := by
        rintro rfl
        exact plain List.mem_cons_self
      rw [List.cons_append, decodeFrom, if_neg other,
        induction fun member => plain (List.mem_cons_of_mem _ member),
        List.append_assoc, List.singleton_append]

/-- A control character is not read back. -/
theorem decodeFrom_encoding (c : UInt8) (txt : List UInt8) :
    decodeFrom none (encoding c ++ txt) =
      if 32 ≤ c then (decodeFrom none txt).map (c :: ·) else none := by
  rcases encoding_cases c with ⟨same, amp, plain, some⟩ | ⟨name, same, isName,
    value⟩
  · rw [same, List.singleton_append, decodeFrom, if_neg amp, if_neg (by simp
      [plain]), if_pos some]
  · have semicolon : 59 ∉ name := fun member =>
      (isName.plain 59 member).2.1 rfl
    rw [same, List.cons_append, List.append_assoc, List.singleton_append,
      decodeFrom, if_pos rfl, decodeFrom_name semicolon, List.nil_append, value]
    split <;> rfl

theorem decode_flatMap_iff (s : List UInt8) :
    decode (s.flatMap encoding) = some s ↔ ∀ c ∈ s, 32 ≤ c := by
  induction s with
  | nil => simp [decode, decodeFrom]
  | cons c s induction =>
      rw [List.forall_mem_cons, ← induction]
      unfold decode
      rw [List.flatMap_cons, decodeFrom_encoding]
      split
      · rename_i some
        simp [some]
      · rename_i control
        simp [control]

/-- An `&` only stands at the begin of an entity. -/
theorem front_of_encoding {c : UInt8} {front back : List UInt8}
    (split : encoding c = front ++ 38 :: back) :
    front = [] ∧ 1 < (encoding c).length := by
  rcases encoding_cases c with ⟨same, amp, _⟩ | ⟨name, same, isName, _⟩
  · have member : (38 : UInt8) ∈ [c] := by
      rw [← same, split]
      simp
    exact absurd (List.mem_singleton.mp member).symm amp
  · refine ⟨?_, by rw [same, List.length_cons, List.length_append]; simp⟩
    rw [same] at split
    cases front with
    | nil => rfl
    | cons d front =>
        rw [List.cons_append, List.cons.injEq] at split
        have member : (38 : UInt8) ∈ name ++ [59] := by
          rw [split.2]
          simp
        rcases List.mem_append.mp member with inside | last
        · exact absurd rfl (isName.plain 38 inside).2.2.1
        · cases List.mem_singleton.mp last

/-- An `&` begins what is written for a character. -/
theorem entity_of_split {s front back : List UInt8}
    (split : s.flatMap encoding = front ++ 38 :: back) :
    ∃ c ∈ s, 1 < (encoding c).length ∧ encoding c <+: 38 :: back := by
  induction s generalizing front with
  | nil => simp at split
  | cons c s induction =>
      rw [List.flatMap_cons] at split
      rcases List.append_eq_append_iff.mp split with
        ⟨between, rfl, rest⟩ | ⟨between, whole, rest⟩
      · obtain ⟨d, member, found⟩ := induction rest
        exact ⟨d, List.mem_cons_of_mem _ member, found⟩
      · cases between with
        | nil =>
            rw [List.nil_append] at rest
            obtain ⟨d, member, found⟩ :=
              induction (rest.symm.trans (List.nil_append _).symm)
            exact ⟨d, List.mem_cons_of_mem _ member, found⟩
        | cons amp between =>
            -- The `&` is in what is written for `c`.
            rw [List.cons_append, List.cons.injEq] at rest
            obtain ⟨rfl, behind⟩ := rest
            obtain ⟨rfl, long⟩ := front_of_encoding whole
            refine ⟨c, List.mem_cons_self, long, s.flatMap encoding, ?_⟩
            rw [whole, behind]
            rfl

/-- A text is encoded so that it can be read back if it has no control
characters. -/
theorem xmlEncode_encodes_iff (encoded : Memory) (s : List UInt8) :
    Encodes encoded s ↔ ∀ c ∈ s, 32 ≤ c := by
  have result := result_xmlEncode encoded s
  constructor
  · intro encodes
    have decoded := encodes.decoded
    rw [result] at decoded
    exact (decode_flatMap_iff s).mp decoded
  · intro printable
    refine ⟨inside_xmlEncode encoded s, ?_, ?_, ?_⟩
    · rw [result]
      intro d member
      obtain ⟨c, _, inside⟩ := List.mem_flatMap.mp member
      exact (plain_encoding c d inside).2
    · rw [result]
      intro front back split
      exact entity_of_split split
    · rw [result]
      exact (decode_flatMap_iff s).mpr printable

/-- A line feed comes out as the character 266. -/
theorem line_feed_misencoded :
    (xmlEncode .zero [10]).result = ascii "&#266;" ∧
      ¬ Encodes .zero [10] := by
  have result := result_xmlEncode .zero [10]
  constructor
  · rw [result]
    rfl
  · intro encodes
    have decoded := encodes.decoded
    rw [result, decode_flatMap_iff] at decoded
    exact absurd (decoded 10 List.mem_cons_self) (by decide)

end Oscam.Http
