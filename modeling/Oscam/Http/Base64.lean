import Oscam.Http.XmlEncode
import Mathlib.Logic.Function.Basic

/-!
# Base64 texts of images

`b64decode` decodes a text in place.  It looks its characters up in two tables
on the stack, of which it fills only the elements of the alphabet.
-/

namespace Oscam.Http

open Monitor (ascii)

/-- `alphabet`. -/
def alphabet : List UInt8 :=
  ascii "ABCDEFGHIJKLMNOPQRSTUVWXYZabcdefghijklmnopqrstuvwxyz0123456789+/"

/-- `inalphabet` and `decoder`. -/
structure Tables where
  inalphabet : UInt8 → UInt8
  decoder : UInt8 → UInt8

namespace Tables

/-- The elements for one character of the alphabet. -/
def enter (tables : Tables) (i : Nat) : Tables where
  inalphabet := Function.update tables.inalphabet (alphabet.getD i 0) 1
  decoder := Function.update tables.decoder (alphabet.getD i 0)
    (UInt8.ofNat i)

/-- The tables with all characters of the alphabet. -/
def fill (tables : Tables) : Tables :=
  (List.range 64).reverse.foldl enter tables

end Tables

/-- The variables of `b64decode` behind `i`. -/
structure Decode where
  result : Memory
  j : Nat
  bits : Int
  charCount : Nat

namespace Decode

/-- `result[j++] = value`. -/
def put (d : Decode) (value : Int) : Decode :=
  { d with
    result := d.result.write d.j [UInt8.ofInt value]
    j := d.j + 1 }

/-- The body of the loop, for a character that is in the alphabet. -/
def take (d : Decode) (value : Int) : Decode :=
  let d := { d with bits := d.bits + value, charCount := d.charCount + 1 }
  if d.charCount = 4 then
    let d := d.put (d.bits >>> (16 : Nat))
    let d := d.put (d.bits >>> (8 : Nat) % 256)
    { d.put (d.bits % 256) with bits := 0, charCount := 0 }
  else { d with bits := d.bits * 64 }

/-- `result[j] = '\0'` in front of a return. -/
def terminate (d : Decode) (length : Nat) : Nat × Memory :=
  (length, d.result.write d.j [0])

/-- The end of `b64decode`, behind an equals sign or the whole text. -/
def finish (d : Decode) (padded : Bool) : Nat × Memory :=
  if padded then
    match d.charCount with
    | 1 => d.terminate 0
    | 2 =>
      let d := d.put (d.bits >>> (10 : Nat))
      d.terminate d.j
    | 3 =>
      let d := (d.put (d.bits >>> (16 : Nat))).put (d.bits >>> (8 : Nat) % 256)
      d.terminate d.j
    | _ => (d.j, d.result)
  else if d.charCount ≠ 0 then d.terminate 0
  else (d.j, d.result)

end Decode

/-- The loop over the last `left` characters, from `i` on. -/
def decodeLoop (tables : Tables) : Nat → Nat → Decode → Nat × Decode
  | 0, i, d => (i, d)
  | left + 1, i, d =>
    if d.result i = 61 then (i, d)
    else if tables.inalphabet (d.result i) = 0 then
      decodeLoop tables left (i + 1) d
    else
      decodeLoop tables left (i + 1)
        (d.take (signedChar (tables.decoder (d.result i))))

/-- `b64decode` of a string of `len` characters, with what the tables hold
before; the result and the memory. -/
def b64decode (tables : Tables) (result : Memory) (len : Nat) : Nat × Memory :=
  let (i, d) := decodeLoop tables.fill len 0 ⟨result, 0, 0, 0⟩
  d.finish (i != len)

/-! ## The standard text -/

/-- The numbers of six bits for some bytes. -/
def sextets : List UInt8 → List Nat
  | a :: b :: c :: rest =>
    a.toNat / 4 :: (a.toNat % 4 * 16 + b.toNat / 16) ::
      (b.toNat % 16 * 4 + c.toNat / 64) :: c.toNat % 64 :: sextets rest
  | [a, b] =>
    [a.toNat / 4, a.toNat % 4 * 16 + b.toNat / 16, b.toNat % 16 * 4]
  | [a] => [a.toNat / 4, a.toNat % 4 * 16]
  | [] => []

/-- The equals signs behind the characters. -/
def padding (bytes : List UInt8) : List UInt8 :=
  match bytes.length % 3 with
  | 1 => [61, 61]
  | 2 => [61]
  | _ => []

/-- The character for a number of six bits. -/
def letter (sextet : Nat) : UInt8 := alphabet.getD sextet 0

/-- The base64 text of some bytes. -/
def b64encode (bytes : List UInt8) : List UInt8 :=
  (sextets bytes).map letter ++ padding bytes

theorem sextets_lt (bytes : List UInt8) :
    ∀ sextet ∈ sextets bytes, sextet < 64 := by
  induction bytes using sextets.induct with
  | case1 a b c rest induction =>
      have := a.toNat_lt
      have := b.toNat_lt
      have := c.toNat_lt
      simp only [sextets, List.forall_mem_cons]
      exact ⟨by omega, by omega, by omega, by omega, induction⟩
  | case2 a b =>
      have := a.toNat_lt
      have := b.toNat_lt
      simp only [sextets, List.forall_mem_cons]
      exact ⟨by omega, by omega, by omega, by simp⟩
  | case3 a =>
      have := a.toNat_lt
      simp only [sextets, List.forall_mem_cons]
      exact ⟨by omega, by omega, by simp⟩
  | case4 => simp [sextets]

/-! ## The tables -/

theorem alphabet_nodup : alphabet.Nodup := by decide +kernel

theorem length_alphabet : alphabet.length = 64 := rfl

theorem letter_mem {sextet : Nat} (small : sextet < 64) :
    letter sextet ∈ alphabet := by
  unfold letter
  rw [List.getD_eq_getElem _ _ (by rwa [length_alphabet])]
  exact List.getElem_mem _

theorem letter_inj {first second : Nat} (small : first < 64)
    (bound : second < 64) : letter first = letter second ↔ first = second := by
  unfold letter
  rw [List.getD_eq_getElem _ _ (by rwa [length_alphabet]),
    List.getD_eq_getElem _ _ (by rwa [length_alphabet])]
  exact alphabet_nodup.getElem_inj_iff

/-- After some characters were entered, the tables hold them and otherwise
what they held before. -/
theorem enter_foldl (tables : Tables) (indices : List Nat)
    (inside : ∀ i ∈ indices, i < 64) :
    (∀ c, (∀ i ∈ indices, letter i ≠ c) →
        (indices.foldl Tables.enter tables).inalphabet c =
          tables.inalphabet c) ∧
      ∀ i ∈ indices,
        (indices.foldl Tables.enter tables).inalphabet (letter i) = 1 ∧
        (indices.foldl Tables.enter tables).decoder (letter i) =
          UInt8.ofNat i := by
  induction indices using List.reverseRecOn with
  | nil => simp
  | append_singleton indices last induction =>
      have before := induction fun i member =>
        inside i (List.mem_append_left _ member)
      have here := inside last (by simp)
      simp only [List.foldl_append, List.foldl_cons, List.foldl_nil]
      constructor
      · intro c other
        have new : c ≠ letter last := (other last (by simp)).symm
        exact (Function.update_of_ne new _ _).trans (before.1 c fun i member =>
          other i (List.mem_append_left _ member))
      · intro i member
        by_cases same : i = last
        · subst same
          exact ⟨Function.update_self _ _ _, Function.update_self _ _ _⟩
        · have old : i ∈ indices := by simpa [same] using member
          have new : letter i ≠ letter last := fun equal =>
            same ((letter_inj (inside i member) here).mp equal)
          exact ⟨(Function.update_of_ne new _ _).trans (before.2 i old).1,
            (Function.update_of_ne new _ _).trans (before.2 i old).2⟩

theorem fill_letter (tables : Tables) {sextet : Nat} (small : sextet < 64) :
    tables.fill.inalphabet (letter sextet) ≠ 0 ∧
      signedChar (tables.fill.decoder (letter sextet)) = sextet := by
  obtain ⟨mark, value⟩ := (enter_foldl tables (List.range 64).reverse
    (by simp)).2 sextet (by simpa using small)
  refine ⟨?_, ?_⟩
  · exact mark ▸ by decide
  · change signedChar (((List.range 64).reverse.foldl Tables.enter
      tables).decoder (letter sextet)) = _
    rw [value]
    have byte : (UInt8.ofNat sextet).toNat = sextet := by
      rw [UInt8.toNat_ofNat']
      omega
    unfold signedChar
    rw [byte, if_pos (by omega)]

theorem mem_alphabet {c : UInt8} :
    c ∈ alphabet ↔ ∃ sextet < 64, letter sextet = c := by
  constructor
  · intro member
    obtain ⟨i, inside, rfl⟩ := List.getElem_of_mem member
    exact ⟨i, inside, List.getD_eq_getElem _ _ inside⟩
  · rintro ⟨sextet, small, rfl⟩
    exact letter_mem small

/-- A character that is not in the alphabet is taken for one if the stack
says so. -/
theorem fill_inalphabet (tables : Tables) (c : UInt8) :
    tables.fill.inalphabet c ≠ 0 ↔
      c ∈ alphabet ∨ tables.inalphabet c ≠ 0 := by
  by_cases member : c ∈ alphabet
  · obtain ⟨sextet, small, rfl⟩ := mem_alphabet.mp member
    exact iff_of_true (fill_letter tables small).1 (.inl member)
  · have same : tables.fill.inalphabet c = tables.inalphabet c :=
      (enter_foldl tables (List.range 64).reverse (by simp)).1 c
        fun i inside equal =>
          member (equal ▸ letter_mem (by simpa using inside))
    rw [same]
    simp [member]

/-! ## The loop -/

/-- The values of the characters in front of an equals sign that pass the
test. -/
def taken (tables : Tables) (text : List UInt8) : List Int :=
  ((text.takeWhile (· != 61)).filter fun c => tables.inalphabet c != 0).map
    fun c => signedChar (tables.decoder c)

/-- What is written stays behind what is read: four characters make three
bytes. -/
theorem take_behind {d : Decode} {i : Nat} (value : Int)
    (behind : 4 * d.j + 3 * d.charCount ≤ 3 * i) (few : d.charCount < 4) :
    4 * (d.take value).j + 3 * (d.take value).charCount ≤ 3 * (i + 1) ∧
      (d.take value).charCount < 4 ∧
      ∀ k, i < k → (d.take value).result k = d.result k := by
  unfold Decode.take
  dsimp only
  by_cases full : d.charCount + 1 = 4
  · rw [if_pos full]
    refine ⟨?_, Nat.zero_lt_succ 3, ?_⟩
    · change 4 * (d.j + 1 + 1 + 1) + 3 * 0 ≤ 3 * (i + 1)
      omega
    · intro k after
      dsimp only [Decode.put]
      rw [Memory.write_of_le (by simp; omega),
        Memory.write_of_le (by simp; omega),
        Memory.write_of_le (by simp; omega)]
  · rw [if_neg full]
    refine ⟨?_, ?_, fun _ _ => rfl⟩
    · change 4 * d.j + 3 * (d.charCount + 1) ≤ 3 * (i + 1)
      omega
    · change d.charCount + 1 < 4
      omega

theorem decodeLoop_eq (tables : Tables) {text : List UInt8} {i : Nat}
    {d : Decode} (here : d.result.read i text.length = text)
    (behind : 4 * d.j + 3 * d.charCount ≤ 3 * i) (few : d.charCount < 4) :
    decodeLoop tables text.length i d =
      (i + (text.takeWhile (· != 61)).length,
        (taken tables text).foldl Decode.take d) := by
  induction text generalizing i d with
  | nil => rfl
  | cons c text induction =>
      have parts : d.result i :: d.result.read (i + 1) text.length =
          c :: text := by
        rw [List.length_cons, Nat.add_comm, Memory.read_add] at here
        exact here
      obtain ⟨first, rest⟩ := List.cons.inj parts
      rw [List.length_cons, decodeLoop, first]
      by_cases equals : c = 61
      · rw [if_pos equals, taken, equals]
        rfl
      · have more : (c :: text).takeWhile (· != 61) =
            c :: text.takeWhile (· != 61) :=
          List.takeWhile_cons_of_pos (by simpa using equals)
        rw [if_neg equals, taken, more, List.length_cons, ← Nat.add_assoc,
          Nat.add_right_comm]
        by_cases skipped : tables.inalphabet c = 0
        · rw [if_pos skipped, induction rest (by omega) few,
            List.filter_cons_of_neg (by simpa using skipped)]
          rfl
        · obtain ⟨still, less, same⟩ :=
            take_behind (signedChar (tables.decoder c)) behind few
          have unread : (d.take (signedChar (tables.decoder c))).result.read
              (i + 1) text.length = text := by
            rw [Memory.read_congr fun k after _ => same k after]
            exact rest
          rw [if_neg skipped, induction unread still less,
            List.filter_cons_of_pos (by simpa using skipped)]
          rfl

/-! ## The length -/

/-- The length that is returned for some number of values. -/
def decodedLength (values : Nat) (padded : Bool) : Nat :=
  if values % 4 = 0 then values / 4 * 3
  else if padded ∧ values % 4 ≠ 1 then values / 4 * 3 + values % 4 - 1
  else 0

theorem take_count (d : Decode) (value : Int) (few : d.charCount < 4) :
    4 * (d.take value).j + 3 * (d.take value).charCount =
        4 * d.j + 3 * d.charCount + 3 ∧
      (d.take value).charCount < 4 := by
  unfold Decode.take
  dsimp only
  by_cases full : d.charCount + 1 = 4
  · rw [if_pos full]
    dsimp only [Decode.put]
    omega
  · rw [if_neg full]
    dsimp only
    omega

theorem foldl_take_count (d : Decode) (values : List Int)
    (few : d.charCount < 4) :
    4 * (values.foldl Decode.take d).j +
          3 * (values.foldl Decode.take d).charCount =
        4 * d.j + 3 * d.charCount + 3 * values.length ∧
      (values.foldl Decode.take d).charCount < 4 := by
  induction values generalizing d with
  | nil => exact ⟨rfl, few⟩
  | cons value values induction =>
      obtain ⟨one, still⟩ := take_count d value few
      obtain ⟨more, last⟩ := induction (d.take value) still
      rw [List.foldl_cons, List.length_cons]
      exact ⟨by omega, last⟩

theorem finish_length (result : Memory) (values : List Int) (padded : Bool) :
    ((values.foldl Decode.take ⟨result, 0, 0, 0⟩).finish padded).1 =
      decodedLength values.length padded := by
  obtain ⟨count, few⟩ := foldl_take_count ⟨result, 0, 0, 0⟩ values
    (Nat.zero_lt_succ 3)
  generalize values.foldl Decode.take ⟨result, 0, 0, 0⟩ = d at count few ⊢
  have rest : values.length % 4 = d.charCount := by
    simp only at count
    omega
  have whole : values.length / 4 * 3 = d.j := by
    simp only at count
    omega
  unfold Decode.finish decodedLength Decode.terminate Decode.put
  rw [rest, whole]
  obtain zero | one | two | three : d.charCount = 0 ∨ d.charCount = 1 ∨
      d.charCount = 2 ∨ d.charCount = 3 := by omega
  · rw [zero]
    split <;> rfl
  · rw [one]
    cases padded <;> rfl
  · rw [two]
    cases padded <;> rfl
  · rw [three]
    cases padded <;> rfl

/-! ## The bytes -/

theorem ofInt_of_emod {value : Int} {byte : UInt8}
    (same : value % 256 = byte.toNat) : UInt8.ofInt value = byte := by
  change UInt8.ofNat (value % 256).toNat = byte
  rw [same, Int.toNat_natCast, UInt8.ofNat_toNat]

theorem shiftRight_eq (value : Int) (places : Nat) :
    value >>> places = value / (2 ^ places : Nat) :=
  Int.shiftRight_eq_div_pow value places

/-- The decoder between two groups of characters. -/
def between (result : Memory) (j : Nat) : Decode := ⟨result, j, 0, 0⟩

section

variable (result : Memory) (j : Nat)

theorem take_two (x y : Int) : ((between result j).take x).take y =
    ⟨result, j, ((0 + x) * 64 + y) * 64, 2⟩ := rfl

theorem take_three (x y z : Int) :
    (((between result j).take x).take y).take z =
      ⟨result, j, (((0 + x) * 64 + y) * 64 + z) * 64, 3⟩ := rfl

theorem take_four (x y z last : Int) :
    ((((between result j).take x).take y).take z).take last =
      between
        (((((between result j).take x).take y).take z).take last).result
        (j + 3) := rfl

/-- Four numbers of six bits make three bytes. -/
theorem take_group (a b c : UInt8) :
    ((((between result j).take (a.toNat / 4 : Nat)).take
        (a.toNat % 4 * 16 + b.toNat / 16 : Nat)).take
        (b.toNat % 16 * 4 + c.toNat / 64 : Nat)).take (c.toNat % 64 : Nat) =
      between (result.write j [a, b, c]) (j + 3) := by
  have := a.toNat_lt
  have := b.toNat_lt
  have := c.toNat_lt
  rw [take_four, take_three]
  unfold Decode.take Decode.put
  simp only [shiftRight_eq, if_true]
  rw [ofInt_of_emod (show _ = (a.toNat : Int) by omega),
    ofInt_of_emod (show _ = (b.toNat : Int) by omega),
    ofInt_of_emod (show _ = (c.toNat : Int) by omega)]
  have second := Memory.write_write result j [a] [b]
  have third := Memory.write_write result j [a, b] [c]
  exact congrArg (between · (j + 3))
    ((congrArg (·.write (j + 2) [c]) second).trans third)

end

/-- The zero behind the bytes of a group that is not complete. -/
def terminator (bytes : List UInt8) : List UInt8 :=
  if bytes.length % 3 = 0 then [] else [0]

/-- The numbers of six bits are decoded to the bytes. -/
theorem finish_sextets (result : Memory) (j : Nat) (bytes : List UInt8) :
    ((sextets bytes).foldl (fun d (sextet : Nat) => d.take sextet)
        (between result j)).finish (bytes.length % 3 != 0) =
      (j + bytes.length, result.write j (bytes ++ terminator bytes)) := by
  induction bytes using sextets.induct generalizing result j with
  | case1 a b c rest induction =>
      have length : (a :: b :: c :: rest).length % 3 = rest.length % 3 :=
        Nat.add_mod_right rest.length 3
      have same : terminator (a :: b :: c :: rest) = terminator rest := by
        simp only [terminator, length]
      simp only [sextets, List.foldl_cons]
      rw [take_group, length, induction, same]
      refine Prod.ext ?_ (Memory.write_write result j [a, b, c] _)
      simp only [List.length_cons]
      omega
  | case2 a b =>
      have := a.toNat_lt
      have := b.toNat_lt
      simp only [sextets, List.foldl_cons, List.foldl_nil]
      rw [take_three]
      simp only [Decode.finish, Decode.put, Decode.terminate, shiftRight_eq]
      rw [ofInt_of_emod (show _ = (a.toNat : Int) by omega),
        ofInt_of_emod (show _ = (b.toNat : Int) by omega)]
      have second := Memory.write_write result j [a] [b]
      have third := Memory.write_write result j [a, b] [0]
      exact Prod.ext rfl
        ((congrArg (·.write (j + 2) [0]) second).trans third)
  | case3 a =>
      have := a.toNat_lt
      simp only [sextets, List.foldl_cons, List.foldl_nil]
      rw [take_two]
      simp only [Decode.finish, Decode.put, Decode.terminate, shiftRight_eq]
      rw [ofInt_of_emod (show _ = (a.toNat : Int) by omega)]
      exact Prod.ext rfl (Memory.write_write result j [a] [0])
  | case4 => exact Prod.ext rfl (Memory.write_nil result j).symm

/-! ## The whole text -/

/-- The memory holds the text and the zero behind it. -/
structure Holds (memory : Memory) (text : List UInt8) : Prop where
  read : memory.read 0 text.length = text
  zero : memory text.length = 0
  plain : 0 ∉ text

/-- The text without the characters that are neither in the alphabet nor the
equals sign. -/
def standardOf (text : List UInt8) : List UInt8 :=
  text.filter fun c => c ∈ alphabet ∨ c = 61

/-- The number of characters in front of the first equals sign that are taken
for characters of the alphabet, because the stack held something there. -/
def strangers (tables : Tables) (text : List UInt8) : Nat :=
  (text.takeWhile (· != 61)).countP fun c =>
    c ∉ alphabet ∧ tables.inalphabet c ≠ 0

theorem b64decode_eq (tables : Tables) {memory : Memory} {text : List UInt8}
    (holds : Holds memory text) :
    b64decode tables memory text.length =
      ((taken tables.fill text).foldl Decode.take ⟨memory, 0, 0, 0⟩).finish
        ((text.takeWhile (· != 61)).length != text.length) := by
  unfold b64decode
  rw [decodeLoop_eq tables.fill holds.read (Nat.zero_le _)
    (Nat.zero_lt_succ 3), Nat.zero_add]

theorem equals_not_mem_alphabet : (61 : UInt8) ∉ alphabet := by decide +kernel

theorem padding_all (bytes : List UInt8) : ∀ c ∈ padding bytes, c = 61 := by
  unfold padding
  split <;> simp

theorem equals_mem_b64encode (bytes : List UInt8) :
    61 ∈ b64encode bytes ↔ bytes.length % 3 ≠ 0 := by
  have letters : 61 ∉ (sextets bytes).map letter := by
    intro member
    obtain ⟨sextet, inside, equals⟩ := List.mem_map.mp member
    exact equals_not_mem_alphabet
      (equals ▸ letter_mem (sextets_lt bytes sextet inside))
  rw [b64encode, List.mem_append, or_iff_right letters]
  obtain zero | one | two : bytes.length % 3 = 0 ∨ bytes.length % 3 = 1 ∨
      bytes.length % 3 = 2 := by omega
  · simp [padding, zero]
  · simp [padding, one]
  · simp [padding, two]

section

variable {text bytes : List UInt8}

/-- The characters of the standard text stand in front of the equals signs. -/
theorem standard_front (standard : standardOf text = b64encode bytes) :
    ((text.takeWhile (· != 61)).filter fun c => c ∈ alphabet) =
      (sextets bytes).map letter := by
  have front : ((text.takeWhile (· != 61)).filter fun c => c ∈ alphabet) =
      (standardOf text).takeWhile (· != 61) := by
    have ends : (fun c : UInt8 =>
        !decide (c ∈ alphabet ∨ c = 61) || c != 61) = fun c => c != 61 := by
      funext c
      by_cases equals : c = 61 <;> simp [equals]
    rw [standardOf, List.takeWhile_filter, ends]
    apply List.filter_congr
    intro c member
    have other := List.mem_takeWhile_imp member
    simp only [bne_iff_ne] at other
    simp [other]
  rw [front, standard, b64encode, List.takeWhile_append_of_pos]
  · cases back : padding bytes with
    | nil => simp
    | cons c rest =>
        have equals := padding_all bytes c (back ▸ List.mem_cons_self)
        simp [equals]
  · intro c member
    obtain ⟨sextet, inside, rfl⟩ := List.mem_map.mp member
    have here := letter_mem (sextets_lt bytes sextet inside)
    simp only [bne_iff_ne]
    intro equals
    exact equals_not_mem_alphabet (equals ▸ here)

theorem padded_eq (standard : standardOf text = b64encode bytes) :
    ((text.takeWhile (· != 61)).length != text.length) =
      (bytes.length % 3 != 0) := by
  have member : 61 ∈ text ↔ 61 ∈ standardOf text := by simp [standardOf]
  rw [standard, equals_mem_b64encode] at member
  have front : text.takeWhile (· != 61) <+: text := List.takeWhile_prefix _
  have whole : (text.takeWhile (· != 61)).length = text.length ↔
      bytes.length % 3 = 0 := by
    constructor
    · intro same
      by_contra rest
      have all := List.takeWhile_eq_self_iff.mp (front.eq_of_length same)
      simpa using all 61 (member.mpr rest)
    · intro none
      have absent : 61 ∉ text := fun inside => member.mp inside none
      rw [List.takeWhile_eq_self_iff.mpr]
      intro c inside
      simp only [bne_iff_ne]
      rintro rfl
      exact absent inside
  rw [Bool.eq_iff_iff, bne_iff_ne, bne_iff_ne]
  exact not_congr whole

variable (tables : Tables)

/-- The characters that pass the test are those of the alphabet and those for
which the stack holds something. -/
theorem length_taken (standard : standardOf text = b64encode bytes) :
    (taken tables.fill text).length =
      (sextets bytes).length + strangers tables text := by
  have letters := congrArg List.length (standard_front standard)
  rw [List.length_map, ← List.countP_eq_length_filter] at letters
  unfold taken strangers
  rw [List.length_map, ← List.countP_eq_length_filter, ← letters]
  generalize text.takeWhile (· != 61) = front
  induction front with
  | nil => rfl
  | cons c front induction =>
      have test := fill_inalphabet tables c
      simp only [List.countP_cons, induction, bne_iff_ne, test]
      by_cases member : c ∈ alphabet
      · simp only [member, true_or, if_true, decide_true, not_true, false_and,
          decide_false, Bool.false_eq_true, if_false]
        omega
      · simp only [member, false_or, not_false_iff, true_and, decide_eq_true_eq,
          decide_false, Bool.false_eq_true, if_false]
        omega

theorem taken_of_no_strangers (standard : standardOf text = b64encode bytes)
    (none : strangers tables text = 0) :
    taken tables.fill text =
      (sextets bytes).map fun (sextet : Nat) => (sextet : Int) := by
  have same : ((text.takeWhile (· != 61)).filter fun c =>
      tables.fill.inalphabet c != 0) =
        (text.takeWhile (· != 61)).filter fun c => c ∈ alphabet := by
    apply List.filter_congr
    intro c inside
    have known := List.countP_eq_zero.mp none c inside
    have test := fill_inalphabet tables c
    simp only [decide_eq_true_eq, not_and_or, not_not] at known
    rw [Bool.eq_iff_iff, bne_iff_ne, test, decide_eq_true_eq]
    tauto
  unfold taken
  rw [same, standard_front standard, List.map_map]
  apply List.map_congr_left
  intro sextet inside
  exact (fill_letter tables (sextets_lt bytes sextet inside)).2

theorem length_sextets (bytes : List UInt8) :
    (sextets bytes).length =
      bytes.length / 3 * 4 +
        if bytes.length % 3 = 0 then 0 else bytes.length % 3 + 1 := by
  induction bytes using sextets.induct with
  | case1 a b c rest induction =>
      simp only [sextets, List.length_cons, induction, Nat.add_assoc,
        Nat.reduceAdd, Nat.add_mod_right]
      split <;> omega
  | case2 a b => simp [sextets]
  | case3 a => simp [sextets]
  | case4 => simp [sextets]

/-- With characters that are wrongly taken, the length is another one, unless
nothing is encoded and a group stays incomplete. -/
theorem decodedLength_eq_iff (bytes : List UInt8) (wrong : Nat) :
    decodedLength ((sextets bytes).length + wrong) (bytes.length % 3 != 0) =
        bytes.length ↔
      wrong = 0 ∨ bytes = [] ∧ wrong % 4 ≠ 0 := by
  rw [length_sextets, ← List.length_eq_zero_iff]
  generalize bytes.length = length
  unfold decodedLength
  obtain zero | one | two : length % 3 = 0 ∨ length % 3 = 1 ∨
      length % 3 = 2 := by omega
  · simp only [zero, if_true, bne_self_eq_false, Bool.false_eq_true,
      false_and, if_false]
    split <;> omega
  · simp only [one, Nat.one_ne_zero, if_false, bne_iff_ne, ne_eq,
      not_false_eq_true, true_and]
    split
    · omega
    · split <;> omega
  · simp only [two, Nat.succ_ne_zero, if_false, bne_iff_ne, ne_eq,
      not_false_eq_true, true_and]
    split
    · omega
    · split <;> omega

end

/-- The text is decoded to the bytes, in place and with their number as
result. -/
structure DecodesTo (tables : Tables) (memory : Memory)
    (text bytes : List UInt8) : Prop where
  length : (b64decode tables memory text.length).1 = bytes.length
  bytes : (b64decode tables memory text.length).2.read 0 bytes.length = bytes

/-- A text is decoded exactly if none of the characters outside the alphabet
in front of the equals signs has something on the stack, or there is nothing
to decode and their number is no multiple of four. -/
theorem b64decode_iff (tables : Tables) {memory : Memory}
    {text bytes : List UInt8} (holds : Holds memory text)
    (standard : standardOf text = b64encode bytes) :
    DecodesTo tables memory text bytes ↔
      strangers tables text = 0 ∨
        bytes = [] ∧ strangers tables text % 4 ≠ 0 := by
  have result := b64decode_eq tables holds
  rw [padded_eq standard] at result
  have length : (b64decode tables memory text.length).1 =
      decodedLength ((sextets bytes).length + strangers tables text)
        (bytes.length % 3 != 0) := by
    rw [result, finish_length, length_taken tables standard]
  have exact := decodedLength_eq_iff bytes (strangers tables text)
  constructor
  · intro decodes
    exact exact.mp (length.symm.trans decodes.length)
  · intro right
    refine ⟨length.trans (exact.mpr right), ?_⟩
    rcases right with none | ⟨rfl, -⟩
    · rw [result, taken_of_no_strangers tables standard none, List.foldl_map]
      change ((((sextets bytes).foldl (fun d (sextet : Nat) => d.take sextet)
        (between memory 0)).finish _).2).read 0 bytes.length = bytes
      rw [finish_sextets, ← Memory.write_write]
      have kept := Memory.read_front (Memory.read_write memory 0 bytes)
        (terminator bytes)
      rwa [Nat.zero_add]
    · rfl

/-- A line break and the text of the byte 65. -/
def brokenText : List UInt8 := [10, 81, 81, 61, 61]

theorem holds_write {text : List UInt8} (plain : 0 ∉ text) :
    Holds (Memory.zero.write 0 text) text where
  read := Memory.read_write _ 0 text
  zero := Memory.write_of_le (by omega)
  plain := plain

theorem brokenText_decoded :
    DecodesTo ⟨fun _ => 0, fun _ => 0⟩ (Memory.zero.write 0 brokenText)
      brokenText [65] :=
  (b64decode_iff ⟨fun _ => 0, fun _ => 0⟩
    (holds_write (show 0 ∉ brokenText by decide))
    (show standardOf brokenText = b64encode [65] by decide +kernel)).mpr
    (.inl rfl)

/-- With ones on the stack, the line break is decoded too. -/
theorem brokenText_not_decoded : ¬ ∀ (tables : Tables) (memory : Memory)
    (text bytes : List UInt8), Holds memory text →
    standardOf text = b64encode bytes →
    DecodesTo tables memory text bytes := by
  intro always
  have decodes := always ⟨fun _ => 1, fun _ => 1⟩ _ brokenText [65]
    (holds_write (by decide)) (by decide +kernel)
  have wrong : (b64decode ⟨fun _ => 1, fun _ => 1⟩
      (Memory.zero.write 0 brokenText) 5).1 = 2 := by decide +kernel
  have length : 2 = 1 := wrong.symm.trans decodes.length
  contradiction

end Oscam.Http
