import Oscam.Http.XmlEncode

/-!
# Parameters of requests

`urlencode` writes a text into a link.  `parseParams` takes a query apart where
it stands in the memory: it puts a zero in the place of each separator, and
`urldecode` writes each part to the place where it was read.
-/

namespace Oscam.Http

open Monitor (cstr)

/-! ## Encoding -/

/-- `isalnum` of the C locale. -/
def isAlnum (c : UInt8) : Bool :=
  48 ≤ c && c ≤ 57 || 65 ≤ c && c ≤ 90 || 97 ≤ c && c ≤ 122

/-- `to_hex`; of a negative `char` that was shifted the lower bits are the same
as of an unsigned one. -/
def toHex (code : UInt8) : UInt8 :=
  let digit := code &&& 15
  if digit < 10 then 48 + digit else 87 + digit

/-- What `urlencode` writes for a character. -/
def urlencodeChar (c : UInt8) : List UInt8 :=
  if isAlnum c ∨ c = 45 ∨ c = 95 ∨ c = 46 ∨ c = 126 then [c]
  else if c = 32 then [43]
  else [37, toHex (c >>> 4), toHex (c &&& 15)]

/-- `urlencode`. -/
def urlencode (str : List UInt8) : List UInt8 := str.flatMap urlencodeChar

/-! ## Decoding -/

/-- `toupper` of the C locale. -/
def toupper (c : UInt8) : UInt8 := if 97 ≤ c ∧ c ≤ 122 then c - 32 else c

/-- `x2i`. -/
def x2i (i : UInt8) : Int :=
  let i := signedChar (toupper i) - 48
  if 9 < i then i - 65 + 57 + 1 else i

/-- The byte of two digits. -/
def hexByte (c1 c : UInt8) : UInt8 :=
  UInt8.ofNat ((16 * x2i c1 + x2i c) % 256).toNat

/-- The loop of `urldecode` from `s` to `t`; there are `n` characters left. -/
def urldecodeFrom (m : Memory) (s t : Nat) : Nat → Memory
  | 0 => m.write t [0]
  | 1 => urldecodeFrom (m.write t [if m s = 43 then 32 else m s]) (s + 1)
      (t + 1) 0
  | 2 => urldecodeFrom (m.write t [if m s = 43 then 32 else m s]) (s + 1)
      (t + 1) 1
  | n + 3 =>
      if m s = 37 then
        urldecodeFrom (m.write t [hexByte (m (s + 1)) (m (s + 2))]) (s + 3)
          (t + 1) n
      else
        urldecodeFrom (m.write t [if m s = 43 then 32 else m s]) (s + 1)
          (t + 1) (n + 2)

/-- The string at a place of a memory of `size` bytes. -/
def stringAt (size : Nat) (m : Memory) (p : Nat) : List UInt8 :=
  cstr (m.read p size)

/-- `urldecode`. -/
def urldecode (size : Nat) (m : Memory) (s : Nat) : Memory :=
  urldecodeFrom m s s (stringAt size m s).length

/-! ## Parsing -/

/-- `MAXGETPARAMS`. -/
abbrev maxgetparams : Nat := 100

/-- `struct uriparams` with places in the memory as pointers; `top` is behind
the last element that was written. -/
structure UriParams where
  paramcount : Nat
  params : Nat → Nat
  values : Nat → Nat
  top : Nat

def UriParams.empty : UriParams :=
  { paramcount := 0, params := fun _ => 0, values := fun _ => 0, top := 0 }

/-- `++paramcount` and the new parameter. -/
def UriParams.addParam (u : UriParams) (pch2 : Nat) : UriParams :=
  { u with
    paramcount := u.paramcount + 1
    params := Function.update u.params u.paramcount pch2
    top := max u.top (u.paramcount + 1) }

/-- The value of the last parameter. -/
def UriParams.setValue (u : UriParams) (pch2 : Nat) : UriParams :=
  { u with
    values := Function.update u.values (u.paramcount - 1) pch2
    top := max u.top u.paramcount }

/-- The state of the loop; `parsemode` is true in front of a name. -/
structure Parsing where
  memory : Memory
  parsemode : Bool
  pch2 : Nat
  pch : Nat
  params : UriParams

/-- The loop of `parseParams`, with the number of characters that are left. -/
def parseLoop (size : Nat) : Nat → Parsing → Parsing
  | 0, st => st
  | n + 1, st =>
      let c := st.memory st.pch
      if c = 0 then st
      else if (st.parsemode ∧ c = 61) ∨ (¬ st.parsemode ∧ c = 38) then
        let memory := urldecode size (st.memory.write st.pch [0]) st.pch2
        if st.parsemode then
          if maxgetparams ≤ st.params.paramcount then
            { st with memory := memory }
          else
            parseLoop size n
              { memory := memory, parsemode := false, pch2 := st.pch + 1
                pch := st.pch + 1, params := st.params.addParam st.pch2 }
        else
          parseLoop size n
            { memory := memory, parsemode := true, pch2 := st.pch + 1
              pch := st.pch + 1, params := st.params.setValue st.pch2 }
      else parseLoop size n { st with pch := st.pch + 1 }

/-- The part of `parseParams` behind the loop. -/
def Parsing.finish (size : Nat) (st : Parsing) : Parsing :=
  if st.parsemode = false ∧ st.params.paramcount ≤ maxgetparams then
    { st with
      memory := urldecode size st.memory st.pch2
      params := st.params.setValue st.pch2 }
  else st

/-- `parseParams`. -/
def parseParams (size : Nat) (m : Memory) (params : UriParams) (pch : Nat) :
    Parsing :=
  (parseLoop size (stringAt size m pch).length
    { memory := m, parsemode := true, pch2 := pch, pch := pch
      params := params }).finish size

/-- `getParam`. -/
def getParam (size : Nat) (m : Memory) (u : UriParams) (name : List UInt8) :
    List UInt8 :=
  match (List.range u.paramcount).reverse.find? fun i =>
      stringAt size m (u.params i) = name with
  | some i => stringAt size m (u.values i)
  | none => []

/-! ## Queries -/

/-- The query of some names with their values. -/
def query (pairs : List (List UInt8 × List UInt8)) : List UInt8 :=
  [38].intercalate
    (pairs.map fun pair => urlencode pair.1 ++ 61 :: urlencode pair.2)

/-- The value of the last pair with the name. -/
def lastValue (pairs : List (List UInt8 × List UInt8)) (name : List UInt8) :
    List UInt8 :=
  match pairs.reverse.find? fun pair => pair.1 = name with
  | some pair => pair.2
  | none => []

/-! ## Strings in the memory -/

/-- A string with its zero. -/
structure StringAt (m : Memory) (p : Nat) (txt : List UInt8) : Prop where
  bytes : m.read p txt.length = txt
  ended : m (p + txt.length) = 0
  plain : 0 ∉ txt

variable {m : Memory} {p size : Nat} {txt front back : List UInt8}

theorem StringAt.stringAt (there : StringAt m p txt)
    (fits : txt.length < size) : stringAt size m p = txt := by
  obtain ⟨rest, rfl⟩ := Nat.exists_eq_add_of_lt fits
  have last : m.read (p + txt.length) (rest + 1) =
      0 :: m.read (p + txt.length + 1) rest := by
    have first : m.read (p + txt.length) 1 = [0] := by
      simp [Memory.read, there.ended]
    rw [Nat.add_comm rest 1, Memory.read_add, first]
    rfl
  unfold Http.stringAt
  rw [Nat.add_assoc, Memory.read_add, there.bytes, last, cstr,
    List.takeWhile_append_of_pos]
  · simp
  · intro c member
    simp only [bne_iff_ne]
    rintro rfl
    exact there.plain member

theorem StringAt.congr (there : StringAt m p txt) {other : Memory}
    (same : ∀ i, p ≤ i → i ≤ p + txt.length → other i = m i) :
    StringAt other p txt where
  bytes := by
    rw [Memory.read_congr fun i first last => same i first (by omega)]
    exact there.bytes
  ended := by rw [same _ (by omega) (le_refl _), there.ended]
  plain := there.plain

theorem StringAt.behind (there : StringAt m p (front ++ back)) :
    StringAt m (p + front.length) back where
  bytes := by
    have bytes := there.bytes
    rw [List.length_append, Memory.read_add] at bytes
    exact List.append_inj_right bytes (Memory.length_read _ _ _)
  ended := by
    have ended := there.ended
    rwa [List.length_append, ← Nat.add_assoc] at ended
  plain member := there.plain (List.mem_append_right _ member)

theorem StringAt.first (there : StringAt m p (front ++ back)) :
    m.read p front.length = front := by
  have bytes := there.bytes
  rw [List.length_append, Memory.read_add] at bytes
  exact List.append_inj_left bytes (Memory.length_read _ _ _)

theorem StringAt.head {c : UInt8} (there : StringAt m p (c :: txt)) :
    m p = c := by
  have bytes := there.bytes
  rw [List.length_cons, Nat.add_comm, Memory.read_add] at bytes
  exact (List.cons.inj bytes).1

/-! ## Decoding in place -/

theorem and_fifteen (code : UInt8) :
    code &&& 15 = UInt8.ofNat (code.toNat % 16) := by
  apply UInt8.toNat_inj.mp
  rw [UInt8.toNat_and, UInt8.toNat_ofNat']
  show code.toNat &&& (2 ^ 4 - 1) = _
  rw [Nat.and_two_pow_sub_one_eq_mod]
  omega

theorem x2i_toHex (code : UInt8) :
    x2i (toHex code) = (code.toNat % 16 : Nat) := by
  have low : code.toNat % 16 < 16 := Nat.mod_lt _ (by decide)
  unfold toHex
  rw [and_fifteen]
  generalize code.toNat % 16 = d at low
  interval_cases d <;> rfl

theorem hexByte_toHex (c : UInt8) :
    hexByte (toHex (c >>> 4)) (toHex (c &&& 15)) = c := by
  have small := c.toNat_lt
  have high : (c >>> 4).toNat = c.toNat / 16 := by
    rw [UInt8.toNat_shiftRight]
    show c.toNat >>> 4 = _
    rw [Nat.shiftRight_eq_div_pow]
  have low : (c &&& 15).toNat = c.toNat % 16 := by
    rw [and_fifteen, UInt8.toNat_ofNat']
    omega
  have value : (16 * ((c.toNat / 16 % 16 : Nat) : Int) +
      ((c.toNat % 16 % 16 : Nat) : Int)) % 256 = (c.toNat : Int) := by
    omega
  unfold hexByte
  rw [x2i_toHex, x2i_toHex, high, low, value, Int.toNat_natCast,
    UInt8.ofNat_toNat]

theorem urlencodeChar_cases (c : UInt8) :
    (urlencodeChar c = [c] ∧ c ≠ 43 ∧ c ≠ 37) ∨
      (urlencodeChar c = [43] ∧ c = 32) ∨
        ∃ high low, urlencodeChar c = [37, high, low] ∧
          hexByte high low = c := by
  unfold urlencodeChar
  split
  · rename_i kept
    refine .inl ⟨rfl, ?_, ?_⟩
    · rintro rfl
      exact absurd kept (by decide)
    · rintro rfl
      exact absurd kept (by decide)
  · split
    · rename_i blank
      exact .inr (.inl ⟨rfl, blank⟩)
    · exact .inr (.inr ⟨_, _, rfl, hexByte_toHex c⟩)

/-- Any character but `%` is read alone. -/
theorem urldecodeFrom_succ (s t n : Nat) (other : m s ≠ 37) :
    urldecodeFrom m s t (n + 1) =
      urldecodeFrom (m.write t [if m s = 43 then 32 else m s]) (s + 1) (t + 1)
        n := by
  rcases n with _ | _ | n
  · rfl
  · rfl
  · rw [urldecodeFrom, if_neg other]

/-- What is read of a text that was encoded is written to the place in front of
what is still to be read. -/
theorem urldecodeFrom_urlencode (s t : Nat) (behind : t ≤ s)
    (there : m.read s (urlencode txt).length = urlencode txt) :
    urldecodeFrom m s t (urlencode txt).length = m.write t (txt ++ [0]) := by
  induction txt generalizing m s t with
  | nil => rfl
  | cons c txt induction =>
      have encoded : urlencode (c :: txt) = urlencodeChar c ++ urlencode txt :=
        List.flatMap_cons
      rw [encoded, List.length_append, Memory.read_add] at there
      obtain ⟨first, rest⟩ :=
        List.append_inj there (Memory.length_read _ _ _)
      -- Writing one byte to `t` leaves what is read later.
      have step (n : Nat) (some : 0 < n)
          (rest : m.read (s + n) (urlencode txt).length = urlencode txt) :
          urldecodeFrom (m.write t [c]) (s + n) (t + 1)
            (urlencode txt).length = m.write t (c :: txt ++ [0]) := by
        have later : (m.write t [c]).read (s + n) (urlencode txt).length =
            urlencode txt := by
          rw [← rest, Memory.length_read]
          apply Memory.read_congr
          intro i before _
          exact Memory.write_of_le (by rw [List.length_singleton]; omega)
        rw [induction (s + n) (t + 1) (by omega) later]
        exact Memory.write_write m t [c] (txt ++ [0])
      rw [encoded, List.length_append]
      rcases urlencodeChar_cases c with ⟨same, plus, percent⟩ |
        ⟨same, rfl⟩ | ⟨high, low, same, byte⟩
      · rw [same] at first rest ⊢
        have char : m s = c := by simpa [Memory.read] using first
        rw [List.length_singleton, Nat.add_comm, urldecodeFrom_succ _ _ _ (by
          rwa [char]), char, if_neg plus]
        exact step 1 (by decide) rest
      · rw [same] at first rest ⊢
        have char : m s = 43 := by simpa [Memory.read] using first
        rw [List.length_singleton, Nat.add_comm, urldecodeFrom_succ _ _ _ (by
          rw [char]; decide), char, if_pos rfl]
        exact step 1 (by decide) rest
      · rw [same] at first rest ⊢
        have chars : m s = 37 ∧ m (s + 1) = high ∧ m (s + 2) = low := by
          simpa [Memory.read, List.range_succ] using first
        have count : [37, high, low].length + (urlencode txt).length =
            (urlencode txt).length + 3 := Nat.add_comm _ _
        rw [count, urldecodeFrom, if_pos chars.1, chars.2.1, chars.2.2, byte]
        exact step 3 (by decide) rest

/-! ## Parts of the query -/

/-- The character is neither a zero nor a separator. -/
def isPart (c : UInt8) : Bool := c ≠ 0 ∧ c ≠ 61 ∧ c ≠ 38

theorem isPart_toHex (code : UInt8) : isPart (toHex code) = true := by
  have low : code.toNat % 16 < 16 := Nat.mod_lt _ (by decide)
  unfold toHex
  rw [and_fifteen]
  generalize code.toNat % 16 = d at low
  interval_cases d <;> rfl

theorem isPart_urlencodeChar {c d : UInt8} (member : d ∈ urlencodeChar c) :
    isPart d = true := by
  unfold urlencodeChar at member
  split at member
  · rename_i kept
    rw [List.mem_singleton.mp member]
    have other (x : UInt8) (no : isAlnum x = false ∧ x ≠ 45 ∧ x ≠ 95 ∧
        x ≠ 46 ∧ x ≠ 126) : c ≠ x := by
      rintro rfl
      simp [no] at kept
    have zero := other 0 (by decide)
    have equals := other 61 (by decide)
    have amp := other 38 (by decide)
    simp [isPart, zero, equals, amp]
  · split at member
    · rw [List.mem_singleton.mp member]
      rfl
    · rcases List.mem_cons.mp member with rfl | digits
      · rfl
      · rcases List.mem_cons.mp digits with rfl | last
        · exact isPart_toHex _
        · rw [List.mem_singleton.mp last]
          exact isPart_toHex _

theorem isPart_urlencode : ∀ c ∈ urlencode txt, isPart c = true := by
  intro c member
  obtain ⟨d, _, inside⟩ := List.mem_flatMap.mp member
  exact isPart_urlencodeChar inside

theorem length_le_urlencode (txt : List UInt8) :
    txt.length ≤ (urlencode txt).length := by
  induction txt with
  | nil => exact le_refl 0
  | cons c txt induction =>
      have some : 1 ≤ (urlencodeChar c).length := by
        rcases urlencodeChar_cases c with ⟨same, _⟩ | ⟨same, _⟩ |
          ⟨_, _, same, _⟩
        · rw [same, List.length_singleton]
        · rw [same, List.length_singleton]
        · rw [same]
          simp
      unfold urlencode at induction ⊢
      rw [List.flatMap_cons, List.length_append, List.length_cons]
      omega

/-- A part with its zero is decoded where it stands. -/
theorem urldecode_part (there : StringAt m p (urlencode txt))
    (plain : 0 ∉ txt) (fits : (urlencode txt).length < size) :
    StringAt (urldecode size m p) p txt ∧
      ∀ i, i < p ∨ p + (urlencode txt).length < i →
        urldecode size m p i = m i := by
  have short := length_le_urlencode txt
  have done : urldecode size m p = m.write p (txt ++ [0]) := by
    rw [urldecode, there.stringAt fits]
    exact urldecodeFrom_urlencode p p (le_refl p) there.bytes
  have length : (txt ++ [0]).length = txt.length + 1 := by simp
  rw [done]
  refine ⟨⟨?_, ?_, plain⟩, ?_⟩
  · have written := Memory.read_write m p (txt ++ [0])
    rw [length, Memory.read_add] at written
    exact List.append_inj_left written (Memory.length_read _ _ _)
  · rw [Memory.write_inside (by omega)]
    simp
  · rintro i (before | behind)
    · exact Memory.write_of_lt before
    · exact Memory.write_of_le (by omega)

/-- The loop goes on over characters that are no separators. -/
theorem parseLoop_part {n : Nat} {st : Parsing}
    (there : st.memory.read st.pch front.length = front)
    (plain : ∀ c ∈ front, isPart c = true) :
    parseLoop size (front.length + n) st =
      parseLoop size n { st with pch := st.pch + front.length } := by
  induction front generalizing st with
  | nil => rw [List.length_nil, Nat.zero_add, Nat.add_zero]
  | cons c front induction =>
      rw [List.length_cons, Nat.add_comm _ 1, Memory.read_add] at there
      have split : st.memory.read st.pch 1 ++
          st.memory.read (st.pch + 1) front.length = [c] ++ front := there
      obtain ⟨first, rest⟩ := List.append_inj split (Memory.length_read _ _ _)
      have char : st.memory st.pch = c := by simpa [Memory.read] using first
      have part : c ≠ 0 ∧ c ≠ 61 ∧ c ≠ 38 :=
        of_decide_eq_true (plain c List.mem_cons_self)
      have inside : ¬ ((st.parsemode ∧ c = 61) ∨
          (¬ st.parsemode ∧ c = 38)) := by
        rintro (⟨_, equals⟩ | ⟨_, amp⟩)
        · exact part.2.1 equals
        · exact part.2.2 amp
      have count : front.length + 1 + n = front.length + n + 1 := by omega
      have place : st.pch + 1 + front.length = st.pch + (front.length + 1) := by
        omega
      rw [List.length_cons, count, parseLoop]
      dsimp only
      rw [char, if_neg part.1, if_neg inside,
        @induction { st with pch := st.pch + 1 } rest fun d member =>
          plain d (List.mem_cons_of_mem _ member)]
      dsimp only
      rw [place]

/-! ## Parameters in the memory -/

/-- The parameters and values, as `getParam` finds them. -/
def entries (size : Nat) (m : Memory) (u : UriParams) :
    List (List UInt8 × List UInt8) :=
  (List.range u.paramcount).map fun i =>
    (stringAt size m (u.params i), stringAt size m (u.values i))

theorem getParam_eq (size : Nat) (m : Memory) (u : UriParams)
    (name : List UInt8) :
    getParam size m u name = lastValue (entries size m u) name := by
  unfold getParam lastValue entries
  have test : ((fun pair : List UInt8 × List UInt8 => decide (pair.1 = name)) ∘
      fun i => (stringAt size m (u.params i), stringAt size m (u.values i))) =
        fun i => decide (stringAt size m (u.params i) = name) := rfl
  rw [← List.map_reverse, List.find?_map, test]
  cases (List.range u.paramcount).reverse.find? _ <;> rfl

/-- A string that ends in front of a place. -/
structure Below (m : Memory) (a : Nat) (txt : List UInt8) (p : Nat) : Prop
    extends StringAt m a txt where
  below : a + txt.length < p

theorem Below.congr {a : Nat} (below : Below m a txt p) {other : Memory}
    (same : ∀ i, i < p → other i = m i) : Below other a txt p :=
  ⟨below.toStringAt.congr fun i _ last =>
    same i (lt_of_le_of_lt last below.below), below.below⟩

theorem Below.mono {a q : Nat} (below : Below m a txt p) (later : p ≤ q) :
    Below m a txt q := ⟨below.toStringAt, lt_of_lt_of_le below.below later⟩

/-- These pairs have been read from what is in front of a place. -/
structure Held (m : Memory) (u : UriParams) (p : Nat)
    (done : List (List UInt8 × List UInt8)) : Prop where
  count : u.paramcount = done.length
  params : ∀ i pair, done[i]? = some pair → Below m (u.params i) pair.1 p
  values : ∀ i pair, done[i]? = some pair → Below m (u.values i) pair.2 p
  top : u.top ≤ done.length

variable {u : UriParams} {done pairs : List (List UInt8 × List UInt8)}

theorem held_empty (m : Memory) (p : Nat) : Held m .empty p [] where
  count := rfl
  params i pair there := by simp at there
  values i pair there := by simp at there
  top := le_refl 0

theorem Held.congr (held : Held m u p done) {other : Memory}
    (same : ∀ i, i < p → other i = m i) : Held other u p done where
  count := held.count
  params i pair there := (held.params i pair there).congr same
  values i pair there := (held.values i pair there).congr same
  top := held.top

/-- One more pair. -/
theorem Held.push (held : Held m u p done) {a b q : Nat}
    {name value : List UInt8} (first : Below m a name q)
    (second : Below m b value q) (later : p ≤ q) :
    Held m ((u.addParam a).setValue b) q (done ++ [(name, value)]) where
  count := by
    show u.paramcount + 1 = _
    rw [held.count, List.length_append, List.length_singleton]
  params i pair there := by
    show Below m (Function.update u.params u.paramcount a i) _ q
    rw [held.count]
    by_cases old : i < done.length
    · rw [List.getElem?_append_left old] at there
      rw [Function.update_of_ne (by omega)]
      exact (held.params i pair there).mono later
    · have bound := (List.getElem?_eq_some_iff.mp there).1
      rw [List.length_append, List.length_singleton] at bound
      obtain rfl : i = done.length := by omega
      rw [List.getElem?_concat_length] at there
      obtain rfl := Option.some.inj there
      rw [Function.update_self]
      exact first
  values i pair there := by
    show Below m (Function.update u.values (u.paramcount + 1 - 1) b i) _ q
    rw [held.count, Nat.add_sub_cancel]
    by_cases old : i < done.length
    · rw [List.getElem?_append_left old] at there
      rw [Function.update_of_ne (by omega)]
      exact (held.values i pair there).mono later
    · have bound := (List.getElem?_eq_some_iff.mp there).1
      rw [List.length_append, List.length_singleton] at bound
      obtain rfl : i = done.length := by omega
      rw [List.getElem?_concat_length] at there
      obtain rfl := Option.some.inj there
      rw [Function.update_self]
      exact second
  top := by
    have top := held.top
    have count := held.count
    show max (max u.top (u.paramcount + 1)) (u.paramcount + 1) ≤ _
    rw [List.length_append, List.length_singleton]
    omega

theorem Below.stringAt {a : Nat} (below : Below m a txt p) (fits : p ≤ size) :
    Http.stringAt size m a = txt := by
  have inside := below.below
  exact below.toStringAt.stringAt (by omega)

theorem Held.entries (held : Held m u p done) (fits : p ≤ size) :
    entries size m u = done := by
  apply List.ext_getElem?
  intro i
  unfold Http.entries
  rw [List.getElem?_map, held.count]
  cases there : done[i]? with
  | none =>
      have outside := List.getElem?_eq_none_iff.mp there
      rw [List.getElem?_eq_none (by rw [List.length_range]; exact outside)]
      rfl
  | some pair =>
      have inside := (List.getElem?_eq_some_iff.mp there).1
      rw [List.getElem?_range inside, Option.map_some,
        (held.params i pair there).stringAt fits,
        (held.values i pair there).stringAt fits]

/-! ## Reading a query -/

theorem query_cons (pair : List UInt8 × List UInt8)
    (pairs : List (List UInt8 × List UInt8)) :
    query (pair :: pairs) = urlencode pair.1 ++ 61 :: (urlencode pair.2 ++
      if pairs = [] then [] else 38 :: query pairs) := by
  unfold query
  by_cases last : pairs = []
  · subst last
    simp
  · rw [List.map_cons, List.intercalate_cons_of_ne_nil (by simpa using last),
      if_neg last]
    simp

/-- What one separator does: the part in front of it is decoded, and all else
stays. -/
theorem urldecode_front {part rest : List UInt8} {separator : UInt8}
    (there : StringAt m p (urlencode part ++ separator :: rest))
    (plain : 0 ∉ part) (fits : (urlencode part).length < size) :
    let q := p + (urlencode part).length
    let done := urldecode size (m.write q [0]) p
    Below done p part (q + 1) ∧ StringAt done (q + 1) rest ∧
      ∀ i, i < p → done i = m i := by
  dsimp only
  have same (i : Nat) (other : i ≠ p + (urlencode part).length) :
      (m.write (p + (urlencode part).length) [0]) i = m i := by
    rcases Nat.lt_or_gt_of_ne other with before | behind
    · exact Memory.write_of_lt before
    · exact Memory.write_of_le (by rw [List.length_singleton]; omega)
  have ended : StringAt (m.write (p + (urlencode part).length) [0]) p
      (urlencode part) := by
    refine ⟨?_, Memory.write_head _ _ _ _, ?_⟩
    · rw [Memory.read_congr fun i _ last => same i (by omega)]
      exact there.first
    · exact fun member => there.plain (List.mem_append_left _ member)
  obtain ⟨first, kept⟩ := urldecode_part ended plain fits
  have short := length_le_urlencode part
  refine ⟨⟨first, by omega⟩, ?_, ?_⟩
  · have behind : StringAt m (p + (urlencode part).length + 1) rest := by
      have split : urlencode part ++ separator :: rest =
          (urlencode part ++ [separator]) ++ rest := by simp
      rw [split] at there
      have later := there.behind
      rwa [List.length_append, List.length_singleton, ← Nat.add_assoc] at later
    apply behind.congr
    intro i after _
    rw [kept i (.inr (by omega)), same i (by omega)]
  · intro i before
    rw [kept i (.inl before), same i (by omega)]

/-- A name and its `=`. -/
theorem parseLoop_name {n : Nat} {name rest : List UInt8}
    (there : StringAt m p (urlencode name ++ 61 :: rest)) :
    parseLoop size ((urlencode name).length + (n + 1))
        { memory := m, parsemode := true, pch2 := p, pch := p, params := u } =
      let q := p + (urlencode name).length
      let memory := urldecode size (m.write q [0]) p
      if maxgetparams ≤ u.paramcount then
        { memory := memory, parsemode := true, pch2 := p, pch := q
          params := u }
      else
        parseLoop size n
          { memory := memory, parsemode := false, pch2 := q + 1, pch := q + 1
            params := u.addParam p } := by
  have char : m (p + (urlencode name).length) = 61 := there.behind.head
  rw [parseLoop_part there.first isPart_urlencode, parseLoop]
  dsimp only
  have some : m (p + (urlencode name).length) ≠ 0 := by
    rw [char]
    decide
  rw [if_neg some, if_pos (by simp [char]), if_pos rfl]

/-- A value and its `&`. -/
theorem parseLoop_value {n : Nat} {value rest : List UInt8}
    (there : StringAt m p (urlencode value ++ 38 :: rest)) :
    parseLoop size ((urlencode value).length + (n + 1))
        { memory := m, parsemode := false, pch2 := p, pch := p, params := u } =
      let q := p + (urlencode value).length
      parseLoop size n
        { memory := urldecode size (m.write q [0]) p, parsemode := true
          pch2 := q + 1, pch := q + 1, params := u.setValue p } := by
  have char : m (p + (urlencode value).length) = 38 := there.behind.head
  rw [parseLoop_part there.first isPart_urlencode, parseLoop]
  dsimp only
  have some : m (p + (urlencode value).length) ≠ 0 := by
    rw [char]
    decide
  rw [if_neg some, if_pos (by simp [char]), if_neg (by simp)]

/-- The last value ends with the query. -/
theorem parseLoop_last {value : List UInt8}
    (there : StringAt m p (urlencode value))
    (few : u.paramcount ≤ maxgetparams) :
    (parseLoop size (urlencode value).length
        { memory := m, parsemode := false, pch2 := p, pch := p
          params := u }).finish size =
      { memory := urldecode size m p, parsemode := false, pch2 := p
        pch := p + (urlencode value).length, params := u.setValue p } := by
  have part := @parseLoop_part size (urlencode value) 0
    { memory := m, parsemode := false, pch2 := p, pch := p, params := u }
    there.bytes isPart_urlencode
  rw [Nat.add_zero] at part
  rw [part, parseLoop, Parsing.finish, if_pos ⟨rfl, few⟩]

/-- The pairs of a query are read until there is no more room. -/
theorem held_parse (plain : ∀ pair ∈ pairs, 0 ∉ pair.1 ∧ 0 ∉ pair.2)
    (held : Held m u p done) (few : done.length ≤ maxgetparams)
    (there : StringAt m p (query pairs))
    (fits : p + (query pairs).length < size) :
    ∃ q ≤ size,
      let st := (parseLoop size (query pairs).length
        { memory := m, parsemode := true, pch2 := p, pch := p
          params := u }).finish size
      Held st.memory st.params q
        (done ++ pairs.take (maxgetparams - done.length)) := by
  induction pairs generalizing m u p done with
  | nil =>
      refine ⟨p, by omega, ?_⟩
      show Held m u p (done ++ [].take _)
      rw [List.take_nil, List.append_nil]
      exact held
  | cons pair pairs induction =>
      obtain ⟨plainName, plainValue⟩ := plain pair List.mem_cons_self
      have later := fun other member =>
        plain other (List.mem_cons_of_mem _ member)
      have count := held.count
      rw [query_cons] at there fits ⊢
      rw [List.length_append, List.length_cons] at fits ⊢
      have nameFits : (urlencode pair.1).length < size := by omega
      obtain ⟨name, rest, kept⟩ := urldecode_front there plainName nameFits
      rw [parseLoop_name there]
      dsimp only
      by_cases full : maxgetparams ≤ u.paramcount
      · -- No room for a name: the loop is left, and the tail is not a value.
        rw [if_pos full]
        refine ⟨p, by omega, ?_⟩
        have none : maxgetparams - done.length = 0 := by omega
        rw [none, List.take_zero, List.append_nil]
        exact held.congr kept
      · rw [if_neg full]
        obtain ⟨room, more⟩ : ∃ room,
            maxgetparams - done.length = room + 1 :=
          ⟨maxgetparams - done.length - 1, by omega⟩
        have before := held.congr kept
        rw [more, List.take_succ_cons]
        by_cases last : pairs = []
        · rw [if_pos last, List.append_nil] at rest fits ⊢
          have addFew : (u.addParam p).paramcount ≤ maxgetparams := by
            show u.paramcount + 1 ≤ _
            omega
          have valueFits : (urlencode pair.2).length < size := by omega
          obtain ⟨value, old⟩ := urldecode_part rest plainValue valueFits
          have short := length_le_urlencode pair.2
          rw [parseLoop_last rest addFew, last, List.take_nil]
          refine ⟨size, le_refl _, ?_⟩
          exact (before.congr fun i below => old i (.inl (by omega))).push
            ((name.congr fun i below => old i (.inl below)).mono (by omega))
            ⟨value, by omega⟩ (by omega)
        · rw [if_neg last] at rest fits ⊢
          rw [List.length_append, List.length_cons] at fits ⊢
          have valueFits : (urlencode pair.2).length < size := by omega
          obtain ⟨value, behind, old⟩ :=
            urldecode_front rest plainValue valueFits
          rw [parseLoop_value rest]
          dsimp only
          have pushed := (before.congr fun i below => old i (by omega)).push
            ((name.congr old).mono (by omega)) value (by omega)
          obtain ⟨q, bound, final⟩ := induction later pushed
            (by rw [List.length_append, List.length_singleton]; omega) behind
            (by omega)
          refine ⟨q, bound, ?_⟩
          have left : maxgetparams - (done ++ [pair]).length = room := by
            rw [List.length_append, List.length_singleton]
            omega
          rw [left, List.append_assoc] at final
          exact final

/-- Behind `parseParams` every name has the value of its last pair, as far as
there is room for the pairs. -/
theorem getParam_parseParams (plain : ∀ pair ∈ pairs, 0 ∉ pair.1 ∧ 0 ∉ pair.2)
    (there : StringAt m p (query pairs))
    (fits : p + (query pairs).length < size) :
    let st := parseParams size m .empty p
    st.params.top ≤ maxgetparams ∧ ∀ name,
      getParam size st.memory st.params name =
        lastValue (pairs.take maxgetparams) name := by
  obtain ⟨q, bound, held⟩ :=
    held_parse plain (held_empty m p) (Nat.zero_le _) there fits
  unfold parseParams
  rw [there.stringAt (by omega)]
  refine ⟨?_, fun name => ?_⟩
  · refine held.top.trans ?_
    rw [List.nil_append]
    exact List.length_take_le _ _
  · rw [getParam_eq, held.entries bound]
    rfl

/-- A parameter and its value, with a blank in it. -/
theorem getParam_parseParams_one :
    let m := Memory.zero.write 0 (query [([97], [98, 32])])
    let st := parseParams 6 m .empty 0
    st.params.top ≤ maxgetparams ∧ ∀ name,
      getParam 6 st.memory st.params name =
        lastValue [([97], [98, 32])] name := by
  have plain : ∀ pair ∈ [(([97] : List UInt8), ([98, 32] : List UInt8))],
      0 ∉ pair.1 ∧ 0 ∉ pair.2 := by decide
  exact getParam_parseParams plain ⟨rfl, rfl, by decide⟩ (by decide)

end Oscam.Http
