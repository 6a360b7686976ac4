import Oscam.Lib.Holds

/-!
# The AlphaStar wire form

`oscam_ser_alpha_convert` turns a message into its wire form in place, and a
wire form back into the message.  A conversion keeps up to where it has read or
written the buffer: the block moves of an escape are as long as the whole text.
-/

namespace Oscam.Serial

open Memory (Holds)

/-! ## The conversion -/

/-- A number of bytes, as a `size_t`. -/
def sizeT (n : Int) : Nat := (if 0 ≤ n then n else n + 2 ^ 64).toNat

/-- A conversion underway; `reach` is the end of the bytes accessed. -/
structure Conversion where
  buf : Memory
  l : Int
  reach : Nat

/-- A character that is escaped on the wire. -/
abbrev IsSpecial (byte : UInt8) : Prop :=
  byte = 0x20 ∨ byte = 0x7E ∨ byte = 0x7F

namespace Conversion

def look (c : Conversion) (i : Nat) : Conversion :=
  { c with reach := max c.reach (i + 1) }

def put (c : Conversion) (i : Nat) (byte : UInt8) : Conversion :=
  { c with buf := c.buf.write i [byte], reach := max c.reach (i + 1) }

def memmove (c : Conversion) (dst src : Nat) (n : Int) : Conversion :=
  let size := sizeT n
  { c with
    buf := c.buf.move dst src size
    reach := if size = 0 then c.reach
      else max c.reach (max (dst + size) (src + size)) }

/-- The escape in front of a character is taken out. -/
def removeEscape (c : Conversion) (i : Nat) : Conversion :=
  let c := { c.memmove i (i + 1) (c.l - 1) with l := c.l - 1 }
  c.put i (c.buf i ^^^ 0x20)

/-- A character is escaped. -/
def insertEscape (c : Conversion) (i : Nat) : Conversion :=
  let c := c.put i (c.buf i ^^^ 0x20)
  let c := { c.memmove (i + 1) i c.l with l := c.l + 1 }
  c.put i 0x20

def normalizeFrom (i : Nat) (c : Conversion) : Conversion :=
  if i < c.l then
    let c := c.look i
    if c.buf i = 0x20 then normalizeFrom (i + 1) (c.removeEscape i)
    else normalizeFrom (i + 1) c
  else c
termination_by (c.l - i).toNat
decreasing_by all_goals simp only [look, put, removeEscape]; omega

def escapeFrom (i : Nat) (c : Conversion) : Conversion :=
  if i < c.l then
    let c := c.look i
    if IsSpecial (c.buf i) then escapeFrom (i + 2) (c.insertEscape i)
    else escapeFrom (i + 1) c
  else c
termination_by (c.l - i).toNat
decreasing_by all_goals simp only [look, put, memmove, insertEscape]; omega

end Conversion

open Conversion

/-- `oscam_ser_alpha_convert`. -/
def oscamSerAlphaConvert (buf : Memory) (l : Int) : Conversion :=
  let c : Conversion := { buf, l, reach := 1 }
  if buf 0 = 0x7E then
    normalizeFrom 0 ({ c with l := l - 2 }.memmove 0 1 (l - 2))
  else
    let c := { c.memmove 1 0 l with l := l + 1 }
    let c := escapeFrom 1 (c.put 0 0x7E)
    { c.put c.l.toNat 0x7F with l := c.l + 1 }

/-! ## The wire form -/

/-- A text with its escapes. -/
def withEscapes : List UInt8 → List UInt8
  | [] => []
  | byte :: rest =>
      if IsSpecial byte then 0x20 :: (byte ^^^ 0x20) :: withEscapes rest
      else byte :: withEscapes rest

theorem withEscapes_special {byte : UInt8} (special : IsSpecial byte)
    (rest : List UInt8) :
    withEscapes (byte :: rest) = 0x20 :: (byte ^^^ 0x20) :: withEscapes rest :=
  if_pos special

theorem withEscapes_plain {byte : UInt8} (plain : ¬ IsSpecial byte)
    (rest : List UInt8) : withEscapes (byte :: rest) = byte :: withEscapes rest :=
  if_neg plain

theorem withEscapes_of_plain {text : List UInt8}
    (plain : ∀ byte ∈ text, ¬ IsSpecial byte) : withEscapes text = text := by
  induction text with
  | nil => rfl
  | cons byte rest induction =>
      rw [List.forall_mem_cons] at plain
      rw [withEscapes_plain plain.1, induction plain.2]

theorem length_le_withEscapes (text : List UInt8) :
    text.length ≤ (withEscapes text).length := by
  induction text with
  | nil => exact Nat.le_refl 0
  | cons byte rest induction =>
      by_cases special : IsSpecial byte
      · rw [withEscapes_special special]
        simp only [List.length_cons]
        omega
      · rw [withEscapes_plain special]
        simp only [List.length_cons]
        omega

/-- An escaped character is not the end of the transmission. -/
theorem eot_not_mem_withEscapes (text : List UInt8) : 0x7F ∉ withEscapes text := by
  induction text with
  | nil => exact List.not_mem_nil
  | cons byte rest induction =>
      by_cases special : IsSpecial byte
      · rw [withEscapes_special special, List.mem_cons, List.mem_cons]
        rintro (blank | escaped | later)
        · exact absurd blank (by decide)
        · rcases special with rfl | rfl | rfl <;>
            exact absurd escaped (by decide)
        · exact induction later
      · rw [withEscapes_plain special, List.mem_cons]
        rintro (rfl | later)
        · exact special (.inr (.inr rfl))
        · exact induction later

namespace Conversion

variable {c : Conversion} {i n : Nat} {byte : UInt8} {rest : List UInt8}

theorem sizeT_natCast (n : Nat) : sizeT n = n := by
  rw [sizeT, if_pos (Int.natCast_nonneg n), Int.toNat_natCast]

/-! ### Escaping -/

/-- What an escape leaves of a text from there on. -/
structure Inserted (c after : Conversion) (i : Nat) (byte : UInt8)
    (rest : List UInt8) : Prop where
  text : Holds after.buf i (0x20 :: (byte ^^^ 0x20) :: rest)
  front : ∀ j < i, after.buf j = c.buf j
  length : after.l = ((i + 2 + rest.length : Nat) : Int)
  reach : after.reach = max c.reach (i + (i + 2 + rest.length))

theorem insertEscape_inserted (text : Holds c.buf i (byte :: rest))
    (length : c.l = ((i + 1 + rest.length : Nat) : Int)) :
    Inserted c (c.insertEscape i) i byte rest := by
  have buf (j : Nat) : (c.insertEscape i).buf j =
      if j = i then 0x20
      else if i + 1 ≤ j ∧ j < i + 1 + (i + 1 + rest.length) then
        if i + (j - (i + 1)) = i then c.buf i ^^^ 0x20
        else c.buf (i + (j - (i + 1)))
      else if j = i then c.buf i ^^^ 0x20 else c.buf j := by
    unfold insertEscape put memmove
    dsimp only
    rw [length, sizeT_natCast, Memory.write_byte_apply, Memory.move_apply,
      Memory.write_byte_apply, Memory.write_byte_apply]
  constructor
  · rw [Memory.holds_cons, Memory.holds_cons]
    refine ⟨?_, ?_, ?_⟩
    · rw [buf, if_pos rfl]
    · rw [buf, if_neg (by omega), if_pos (by omega), if_pos (by omega),
        text.head]
    · refine text.tail.copied ?_
      intro k inside
      rw [buf, if_neg (by omega), if_pos (by omega), if_neg (by omega)]
      congr 1
      omega
  · intro j front
    rw [buf, if_neg (by omega), if_neg (by omega), if_neg (by omega)]
  · unfold insertEscape put memmove
    dsimp only
    rw [length]
    push_cast
    ring
  · unfold insertEscape put memmove
    dsimp only
    rw [length, sizeT_natCast, if_neg (by omega)]
    omega

theorem escapeFrom_done (done : c.l ≤ i) : escapeFrom i c = c := by
  rw [escapeFrom, if_neg (by omega)]

theorem escapeFrom_plain (more : i < c.l) (plain : ¬ IsSpecial (c.buf i)) :
    escapeFrom i c = escapeFrom (i + 1) (c.look i) := by
  rw [escapeFrom, if_pos more]
  exact if_neg plain

theorem escapeFrom_special (more : i < c.l) (special : IsSpecial (c.buf i)) :
    escapeFrom i c = escapeFrom (i + 2) ((c.look i).insertEscape i) := by
  rw [escapeFrom, if_pos more]
  exact if_pos special

/-- What the loop makes of a text. -/
structure Escaped (c after : Conversion) (i : Nat) (rest : List UInt8) :
    Prop where
  text : Holds after.buf i (withEscapes rest)
  front : ∀ j < i, after.buf j = c.buf j
  length : after.l = ((i + (withEscapes rest).length : Nat) : Int)

theorem escapeFrom_escaped (text : Holds c.buf i rest)
    (length : c.l = ((i + rest.length : Nat) : Int)) :
    Escaped c (escapeFrom i c) i rest := by
  induction rest generalizing c i with
  | nil =>
      rw [escapeFrom_done (by rw [length, List.length_nil]; omega)]
      exact ⟨text, fun _ _ => rfl, length⟩
  | cons byte rest induction =>
      rw [List.length_cons] at length
      have more : i < c.l := by omega
      by_cases special : IsSpecial byte
      · have inserted := @insertEscape_inserted (c.look i) i byte rest text
          (by rw [look, length]; push_cast; ring)
        have tail := inserted.text.tail.tail
        have after := induction tail inserted.length
        rw [escapeFrom_special more (by rwa [text.head])]
        constructor
        · rw [withEscapes_special special, Memory.holds_cons, Memory.holds_cons]
          refine ⟨?_, ?_, after.text⟩
          · rw [after.front i (by omega), inserted.text.head]
          · rw [after.front (i + 1) (by omega), inserted.text.tail.head]
        · intro j front
          rw [after.front j (by omega), inserted.front j front]
          rfl
        · rw [after.length, withEscapes_special special]
          simp only [List.length_cons]
          push_cast
          ring
      · have after := @induction (c.look i) (i + 1) text.tail
          (by rw [look, length]; push_cast; ring)
        rw [escapeFrom_plain more (by rwa [text.head])]
        constructor
        · rw [withEscapes_plain special, Memory.holds_cons]
          exact ⟨(after.front i (by omega)).trans text.head, after.text⟩
        · intro j front
          exact after.front j (by omega)
        · rw [after.length, withEscapes_plain special, List.length_cons]
          push_cast
          ring

theorem reach_escapeFrom_plain (text : Holds c.buf i rest)
    (length : c.l = ((i + rest.length : Nat) : Int))
    (plain : ∀ byte ∈ rest, ¬ IsSpecial byte)
    (below : c.reach ≤ n) (inside : i + rest.length ≤ n) :
    (escapeFrom i c).reach ≤ n := by
  induction rest generalizing c i with
  | nil =>
      rw [escapeFrom_done (by rw [length, List.length_nil]; omega)]
      exact below
  | cons byte rest induction =>
      rw [List.forall_mem_cons] at plain
      rw [List.length_cons] at length inside
      rw [escapeFrom_plain (by omega) (by rw [text.head]; exact plain.1)]
      apply @induction (c.look i) (i + 1) text.tail
      · rw [look, length]
        push_cast
        ring
      · exact plain.2
      · exact max_le below (by omega)
      · omega

theorem le_reach_memmove (c : Conversion) (dst src : Nat) (n : Int) :
    c.reach ≤ (c.memmove dst src n).reach := by
  unfold memmove
  dsimp only
  split
  · exact Nat.le_refl _
  · exact Nat.le_max_left _ _

theorem le_reach_insertEscape (c : Conversion) (i : Nat) :
    c.reach ≤ (c.insertEscape i).reach := by
  have first : c.reach ≤ (c.put i (c.buf i ^^^ 0x20)).reach :=
    Nat.le_max_left _ _
  exact (first.trans (le_reach_memmove _ _ _ _)).trans (Nat.le_max_left _ _)

theorem le_reach_escapeFrom (i : Nat) (c : Conversion) :
    c.reach ≤ (escapeFrom i c).reach := by
  fun_induction escapeFrom i c with
  | case1 i c more look special induction =>
      have first : c.reach ≤ look.reach := Nat.le_max_left _ _
      exact (first.trans (le_reach_insertEscape look i)).trans induction
  | case2 i c more look plain induction =>
      exact Nat.le_trans (Nat.le_max_left _ _) induction
  | case3 i c done => exact Nat.le_refl _

/-- The block move of the last escape goes as far behind the text as the text
in front of it is long. -/
theorem reach_escapeFrom_special (text : Holds c.buf i rest)
    (length : c.l = ((i + rest.length : Nat) : Int))
    (special : ∃ byte ∈ rest, IsSpecial byte) :
    i + (i + (withEscapes rest).length) ≤ (escapeFrom i c).reach := by
  induction rest generalizing c i with
  | nil =>
      obtain ⟨_, none, _⟩ := special
      exact absurd none List.not_mem_nil
  | cons byte rest induction =>
      rw [List.length_cons] at length
      have more : i < c.l := by omega
      have looked : (c.look i).l = ((i + 1 + rest.length : Nat) : Int) := by
        rw [look, length]
        push_cast
        ring
      by_cases here : IsSpecial byte
      · have inserted := @insertEscape_inserted (c.look i) i byte rest text
          looked
        have tail : Holds _ (i + 2) rest := inserted.text.tail.tail
        rw [escapeFrom_special more (by rwa [text.head]), withEscapes_special here]
        simp only [List.length_cons]
        by_cases later : ∃ byte ∈ rest, IsSpecial byte
        · have after := induction tail inserted.length later
          omega
        · have same := @withEscapes_of_plain rest (by
            intro byte member special
            exact later ⟨byte, member, special⟩)
          have grows := le_reach_escapeFrom (i + 2)
            ((c.look i).insertEscape i)
          rw [inserted.reach] at grows
          rw [same]
          omega
      · have later : ∃ byte ∈ rest, IsSpecial byte := by
          obtain ⟨other, member, special⟩ := special
          rcases List.mem_cons.mp member with rfl | member
          · exact absurd special here
          · exact ⟨other, member, special⟩
        have after := @induction (c.look i) (i + 1) text.tail looked later
        rw [escapeFrom_plain more (by rwa [text.head]), withEscapes_plain here]
        simp only [List.length_cons]
        omega

/-! ### Taking the escapes out -/

/-- What is left when an escape is taken out. -/
structure Removed (c after : Conversion) (i : Nat) (byte : UInt8)
    (rest : List UInt8) : Prop where
  text : Holds after.buf i (byte :: rest)
  front : ∀ j < i, after.buf j = c.buf j
  length : after.l = ((i + 1 + rest.length : Nat) : Int)
  reach : after.reach = max c.reach (i + 1 + (i + 1 + rest.length))

theorem removeEscape_removed
    (text : Holds c.buf i (0x20 :: (byte ^^^ 0x20) :: rest))
    (length : c.l = ((i + 2 + rest.length : Nat) : Int)) :
    Removed c (c.removeEscape i) i byte rest := by
  have shorter : c.l - 1 = ((i + 1 + rest.length : Nat) : Int) := by
    rw [length]
    push_cast
    ring
  have moved (j : Nat) : (c.memmove i (i + 1) (c.l - 1)).buf j =
      if i ≤ j ∧ j < i + (i + 1 + rest.length) then c.buf (i + 1 + (j - i))
      else c.buf j := by
    unfold memmove
    dsimp only
    rw [shorter, sizeT_natCast, Memory.move_apply]
  have buf (j : Nat) : (c.removeEscape i).buf j =
      if j = i then byte
      else if i ≤ j ∧ j < i + (i + 1 + rest.length) then
        c.buf (i + 1 + (j - i))
      else c.buf j := by
    have escaped : (c.memmove i (i + 1) (c.l - 1)).buf i = byte ^^^ 0x20 := by
      rw [moved, if_pos (by omega), Nat.sub_self]
      exact text.tail.head
    unfold removeEscape put
    dsimp only
    rw [Memory.write_byte_apply, escaped, moved, UInt8.xor_assoc,
      UInt8.xor_self, UInt8.xor_zero]
  constructor
  · rw [Memory.holds_cons]
    refine ⟨by rw [buf, if_pos rfl], text.tail.tail.copied ?_⟩
    intro k inside
    rw [buf, if_neg (by omega), if_pos (by omega)]
    congr 1
    omega
  · intro j front
    rw [buf, if_neg (by omega), if_neg (by omega)]
  · exact shorter
  · unfold removeEscape put memmove
    dsimp only
    rw [shorter, sizeT_natCast, if_neg (by omega)]
    omega

theorem normalizeFrom_done (done : c.l ≤ i) : normalizeFrom i c = c := by
  rw [normalizeFrom, if_neg (by omega)]

theorem normalizeFrom_plain (more : i < c.l) (plain : c.buf i ≠ 0x20) :
    normalizeFrom i c = normalizeFrom (i + 1) (c.look i) := by
  rw [normalizeFrom, if_pos more]
  exact if_neg plain

theorem normalizeFrom_blank (more : i < c.l) (blank : c.buf i = 0x20) :
    normalizeFrom i c = normalizeFrom (i + 1) ((c.look i).removeEscape i) := by
  rw [normalizeFrom, if_pos more]
  exact if_pos blank

/-- What the loop makes of a text with escapes. -/
structure Normalized (c after : Conversion) (i : Nat) (rest : List UInt8) :
    Prop where
  text : Holds after.buf i rest
  front : ∀ j < i, after.buf j = c.buf j
  length : after.l = ((i + rest.length : Nat) : Int)

theorem normalizeFrom_normalized (text : Holds c.buf i (withEscapes rest))
    (length : c.l = ((i + (withEscapes rest).length : Nat) : Int)) :
    Normalized c (normalizeFrom i c) i rest := by
  induction rest generalizing c i with
  | nil =>
      rw [normalizeFrom_done (by rw [length]; exact Int.le_refl _)]
      exact ⟨text, fun _ _ => rfl, length⟩
  | cons byte rest induction =>
      by_cases special : IsSpecial byte
      · rw [withEscapes_special special] at text length
        simp only [List.length_cons] at length
        have removed := @removeEscape_removed (c.look i) i byte (withEscapes rest)
          text (by rw [look, length]; push_cast; ring)
        have after := induction removed.text.tail removed.length
        rw [normalizeFrom_blank (by omega) text.head]
        constructor
        · rw [Memory.holds_cons]
          exact ⟨(after.front i (by omega)).trans removed.text.head, after.text⟩
        · intro j front
          rw [after.front j (by omega), removed.front j front]
          rfl
        · rw [after.length, List.length_cons]
          push_cast
          ring
      · rw [withEscapes_plain special] at text length
        rw [List.length_cons] at length
        have after := @induction (c.look i) (i + 1) text.tail
          (by rw [look, length]; push_cast; ring)
        have other : c.buf i ≠ 0x20 := by
          rw [text.head]
          exact fun blank => special (.inl blank)
        rw [normalizeFrom_plain (by omega) other]
        constructor
        · rw [Memory.holds_cons]
          exact ⟨(after.front i (by omega)).trans text.head, after.text⟩
        · intro j front
          exact after.front j (by omega)
        · rw [after.length, List.length_cons]
          push_cast
          ring

theorem reach_normalizeFrom_plain (text : Holds c.buf i rest)
    (length : c.l = ((i + rest.length : Nat) : Int))
    (plain : ∀ byte ∈ rest, ¬ IsSpecial byte)
    (below : c.reach ≤ n) (inside : i + rest.length ≤ n) :
    (normalizeFrom i c).reach ≤ n := by
  induction rest generalizing c i with
  | nil =>
      rw [normalizeFrom_done (by rw [length, List.length_nil]; omega)]
      exact below
  | cons byte rest induction =>
      rw [List.forall_mem_cons] at plain
      rw [List.length_cons] at length inside
      have other : c.buf i ≠ 0x20 := by
        rw [text.head]
        exact fun blank => plain.1 (.inl blank)
      rw [normalizeFrom_plain (by omega) other]
      apply @induction (c.look i) (i + 1) text.tail
      · rw [look, length]
        push_cast
        ring
      · exact plain.2
      · exact max_le below (by omega)
      · omega

end Conversion

/-! ## Both ways -/

section

variable {buf : Memory} {n : Nat} {byte : UInt8} {rest message : List UInt8}

/-- The buffer with the begin character in front of the message. -/
def begun (buf : Memory) (n : Nat) : Conversion :=
  let c : Conversion := { buf, l := n, reach := 1 }
  { c.memmove 1 0 n with l := n + 1 }.put 0 0x7E

theorem convert_toAlpha (other : buf 0 ≠ 0x7E) :
    oscamSerAlphaConvert buf n =
      { (escapeFrom 1 (begun buf n)).put (escapeFrom 1 (begun buf n)).l.toNat
          0x7F with
        l := (escapeFrom 1 (begun buf n)).l + 1 } :=
  if_neg other

theorem holds_begun (text : Holds buf 0 rest) :
    Holds (begun buf rest.length).buf 0 (0x7E :: rest) := by
  have moved (j : Nat) : (begun buf rest.length).buf j =
      if j = 0 then 0x7E
      else if 1 ≤ j ∧ j < 1 + rest.length then buf (0 + (j - 1))
      else buf j := by
    unfold begun put memmove
    dsimp only
    rw [sizeT_natCast, Memory.write_byte_apply, Memory.move_apply]
  rw [Memory.holds_cons]
  refine ⟨by rw [moved, if_pos rfl], text.copied ?_⟩
  intro i inside
  rw [moved, if_neg (by omega), if_pos (by omega)]
  congr 1
  omega

theorem reach_begun (buf : Memory) (n : Nat) : (begun buf n).reach = n + 1 := by
  unfold begun put memmove
  dsimp only
  rw [sizeT_natCast]
  split <;> omega

/-- The wire form of a message. -/
structure Wire (message : List UInt8) (wire : Conversion) : Prop where
  text : Holds wire.buf 0 (0x7E :: withEscapes message ++ [0x7F])
  length : wire.l = (((withEscapes message).length + 2 : Nat) : Int)

theorem convert_wire (text : Holds buf 0 rest) (other : buf 0 ≠ 0x7E) :
    Wire rest (oscamSerAlphaConvert buf rest.length) := by
  have begins := holds_begun text
  have escaped := escapeFrom_escaped begins.tail
    (by show ((rest.length : Nat) : Int) + 1 = _; push_cast; ring)
  rw [convert_toAlpha other]
  have place : (escapeFrom 1 (begun buf rest.length)).l.toNat =
      1 + (withEscapes rest).length := by
    rw [escaped.length, Int.toNat_natCast]
  have last (j : Nat) : ((escapeFrom 1 (begun buf rest.length)).put
      (1 + (withEscapes rest).length) 0x7F).buf j =
        if j = 1 + (withEscapes rest).length then 0x7F
        else (escapeFrom 1 (begun buf rest.length)).buf j :=
    Memory.write_byte_apply _ _ _ _
  constructor
  · dsimp only
    rw [place, List.cons_append, Memory.holds_cons, Memory.holds_append,
      Memory.holds_cons]
    refine ⟨?_, ?_, ?_, Memory.holds_nil⟩
    · rw [last, if_neg (by omega), escaped.front 0 (by omega), begins.head]
    · refine escaped.text.copied ?_
      intro i inside
      rw [last, if_neg (by omega), Nat.zero_add]
    · rw [last, if_pos (by omega)]
  · dsimp only
    rw [escaped.length]
    push_cast
    ring

theorem reach_convert (buf : Memory) (other : buf 0 ≠ 0x7E) :
    (escapeFrom 1 (begun buf n)).reach ≤
      (oscamSerAlphaConvert buf n).reach := by
  rw [convert_toAlpha other]
  exact Nat.le_max_left _ _

/-- The buffer without the begin character. -/
def ended (buf : Memory) (l : Int) : Conversion :=
  let c : Conversion := { buf, l := l - 2, reach := 1 }
  c.memmove 0 1 (l - 2)

theorem convert_fromAlpha {l : Int} (alpha : buf 0 = 0x7E) :
    oscamSerAlphaConvert buf l = normalizeFrom 0 (ended buf l) :=
  if_pos alpha

theorem holds_ended {last : UInt8}
    (text : Holds buf 0 (byte :: rest ++ [last])) :
    Holds (ended buf ((rest.length + 2 : Nat) : Int)).buf 0 rest := by
  have shorter : ((rest.length + 2 : Nat) : Int) - 2 =
      (rest.length : Int) := by
    push_cast
    ring
  refine (Memory.holds_append.mp text.tail).1.copied ?_
  intro i inside
  unfold ended memmove
  dsimp only
  rw [shorter, sizeT_natCast, Memory.move_apply, if_pos (by omega)]
  congr 1
  omega

theorem length_ended (buf : Memory) (n : Nat) :
    (ended buf ((n + 2 : Nat) : Int)).l = n := by
  show ((n + 2 : Nat) : Int) - 2 = n
  push_cast
  ring

theorem reach_ended (buf : Memory) (n : Nat) :
    (ended buf ((n + 2 : Nat) : Int)).reach = n + 1 := by
  have shorter : ((n + 2 : Nat) : Int) - 2 = (n : Int) := by
    push_cast
    ring
  unfold ended memmove
  dsimp only
  rw [shorter, sizeT_natCast]
  split <;> omega

/-- A wire form is turned back into its message. -/
theorem convert_back {wire : Conversion} (form : Wire message wire) :
    (oscamSerAlphaConvert wire.buf wire.l).l = message.length ∧
      Holds (oscamSerAlphaConvert wire.buf wire.l).buf 0 message := by
  have back := normalizeFrom_normalized (holds_ended form.text)
    (by rw [length_ended, Nat.zero_add])
  rw [convert_fromAlpha form.text.head, form.length]
  exact ⟨by rw [back.length, Nat.zero_add], back.text⟩

/-! ### How far the conversions reach -/

/-- An escape in front of a plain text, and the plain text alone. -/
theorem reach_convert_plain (other : buf 0 ≠ 0x7E)
    (text : Holds buf 0 message)
    (plain : ∀ byte ∈ message.tail, ¬ IsSpecial byte) :
    (oscamSerAlphaConvert buf message.length).reach ≤
      (withEscapes message).length + 2 := by
  have begins := holds_begun text
  have length : (begun buf message.length).l =
      ((1 + message.length : Nat) : Int) := by
    show ((message.length : Nat) : Int) + 1 = _
    push_cast
    ring
  have start := reach_begun buf message.length
  have escaped := escapeFrom_escaped begins.tail length
  have longer := length_le_withEscapes message
  rw [convert_toAlpha other]
  refine max_le ?_ (by rw [escaped.length, Int.toNat_natCast]; omega)
  cases message with
  | nil =>
      exact reach_escapeFrom_plain begins.tail length plain
        (by omega) (by simp)
  | cons byte rest =>
      by_cases special : IsSpecial byte
      · have inserted := @insertEscape_inserted
          ((begun buf (byte :: rest).length).look 1) 1 byte rest begins.tail
          (by rw [look, length, List.length_cons]; push_cast; ring)
        have looked : ((begun buf (byte :: rest).length).look 1).reach ≤
            rest.length + 2 := max_le (by rw [start]; simp) (by omega)
        have same := @withEscapes_of_plain rest plain
        rw [escapeFrom_special (by rw [length, List.length_cons]; omega)
          (by rwa [begins.tail.head]), withEscapes_special special, same]
        simp only [List.length_cons]
        apply reach_escapeFrom_plain (i := 3) inserted.text.tail.tail
          inserted.length plain
        · rw [inserted.reach]
          omega
        · omega
      · apply reach_escapeFrom_plain begins.tail length
        · exact List.forall_mem_cons.mpr ⟨special, plain⟩
        · omega
        · omega

theorem reach_back_plain {wire : Conversion} (form : Wire message wire)
    (plain : ∀ byte ∈ message.tail, ¬ IsSpecial byte) :
    (oscamSerAlphaConvert wire.buf wire.l).reach ≤
      (withEscapes message).length + 2 := by
  have text := holds_ended form.text
  have length := length_ended wire.buf (withEscapes message).length
  have start := reach_ended wire.buf (withEscapes message).length
  rw [convert_fromAlpha form.text.head, form.length]
  cases message with
  | nil =>
      rw [normalizeFrom_done (by rw [length]; exact Int.le_refl _), start]
      exact Nat.le_succ _
  | cons byte rest =>
      have same := @withEscapes_of_plain rest plain
      by_cases special : IsSpecial byte
      · rw [withEscapes_special special, same] at text length start ⊢
        simp only [List.length_cons] at text length start ⊢
        have removed := @removeEscape_removed
          ((ended wire.buf ((rest.length + 1 + 1 + 2 : Nat) : Int)).look 0) 0
          byte rest text (by rw [look, length]; push_cast; ring)
        rw [normalizeFrom_blank (by rw [length]; omega) text.head]
        apply reach_normalizeFrom_plain removed.text.tail removed.length plain
        · rw [removed.reach]
          have looked : ((ended wire.buf
              ((rest.length + 1 + 1 + 2 : Nat) : Int)).look 0).reach ≤
                rest.length + 1 + 1 + 1 := max_le (by rw [start]) (by omega)
          omega
        · omega
      · rw [withEscapes_plain special, same] at text length start ⊢
        apply reach_normalizeFrom_plain text
          (by rw [length, Nat.zero_add])
        · exact List.forall_mem_cons.mpr ⟨special, plain⟩
        · rw [start]
          omega
        · omega

/-! ### The claim of the two conversions -/

/-- A message of `n` bytes goes to the wire form and comes back, and nothing
behind the longer of the two is touched. -/
structure RoundTrip (buf : Memory) (n : Nat) : Prop where
  same : (oscamSerAlphaConvert (oscamSerAlphaConvert buf n).buf
    (oscamSerAlphaConvert buf n).l).buf.read 0 n = buf.read 0 n
  length : (oscamSerAlphaConvert (oscamSerAlphaConvert buf n).buf
    (oscamSerAlphaConvert buf n).l).l = n
  last : ∀ i : Nat, i < (oscamSerAlphaConvert buf n).l →
    ((oscamSerAlphaConvert buf n).buf i = 0x7F ↔
      (i + 1 : Int) = (oscamSerAlphaConvert buf n).l)
  outward : ((oscamSerAlphaConvert buf n).reach : Int) ≤
    max (n : Int) (oscamSerAlphaConvert buf n).l
  inward : ((oscamSerAlphaConvert (oscamSerAlphaConvert buf n).buf
      (oscamSerAlphaConvert buf n).l).reach : Int) ≤
    max (oscamSerAlphaConvert buf n).l
      (oscamSerAlphaConvert (oscamSerAlphaConvert buf n).buf
        (oscamSerAlphaConvert buf n).l).l

/-- The end character of a wire form is its only one. -/
theorem Wire.last {wire : Conversion} (form : Wire message wire) (i : Nat)
    (inside : i < wire.l) : wire.buf i = 0x7F ↔ (i + 1 : Int) = wire.l := by
  have length := form.length
  have text := Memory.holds_append.mp form.text
  have eot : wire.buf ((withEscapes message).length + 1) = 0x7F := by
    have last := text.2.head
    rwa [List.length_cons, Nat.zero_add] at last
  constructor
  · intro here
    by_contra early
    have place : i < (0x7E :: withEscapes message).length := by
      rw [List.length_cons]
      omega
    have member := List.getElem_mem place
    have entry : (0x7E :: withEscapes message).getD i 0 = 0x7F := by
      rw [← here, ← text.1, Memory.getD_read _ _ (by simpa using place),
        Nat.zero_add]
    rw [List.getD_eq_getElem _ _ place] at entry
    rw [entry, List.mem_cons] at member
    rcases member with begin | escaped
    · exact absurd begin (by decide)
    · exact eot_not_mem_withEscapes message escaped
  · intro atEnd
    have place : i = (withEscapes message).length + 1 := by omega
    rw [place, eot]

/-- A special character behind the first one makes the conversion reach past
the wire form. -/
theorem not_outward_of_special (other : buf 0 ≠ 0x7E)
    (text : Holds buf 0 (byte :: rest))
    (special : ∃ byte ∈ rest, IsSpecial byte) :
    ((withEscapes (byte :: rest)).length + 2) <
      (oscamSerAlphaConvert buf (byte :: rest).length).reach := by
  have begins := (holds_begun text).tail
  have length : (begun buf (byte :: rest).length).l =
      ((1 + 1 + rest.length : Nat) : Int) := by
    show (((byte :: rest).length : Nat) : Int) + 1 = _
    rw [List.length_cons]
    push_cast
    ring
  refine Nat.lt_of_lt_of_le ?_ (reach_convert buf other)
  by_cases here : IsSpecial byte
  · have inserted := @insertEscape_inserted
      ((begun buf (byte :: rest).length).look 1) 1 byte rest begins length
    have after := reach_escapeFrom_special (i := 3) inserted.text.tail.tail
      inserted.length special
    rw [escapeFrom_special (by rw [length]; omega) (by rwa [begins.head]),
      withEscapes_special here]
    refine Nat.lt_of_lt_of_le ?_ after
    simp only [List.length_cons]
    omega
  · have after := @reach_escapeFrom_special
      ((begun buf (byte :: rest).length).look 1) 2 rest begins.tail length
      special
    rw [escapeFrom_plain (by rw [length]; omega) (by rwa [begins.head]),
      withEscapes_plain here]
    refine Nat.lt_of_lt_of_le ?_ after
    simp only [List.length_cons]
    omega

/-- A message of one byte or more. -/
theorem holds_message (buf : Memory) (m : Nat) :
    Holds buf 0 (buf 0 :: buf.read 1 m) := by
  rw [Memory.holds_cons]
  refine ⟨rfl, ?_⟩
  unfold Holds
  rw [Memory.length_read, Nat.zero_add]

theorem mem_message {m : Nat} :
    byte ∈ buf.read 1 m ↔ ∃ i, 0 < i ∧ i < m + 1 ∧ buf i = byte := by
  unfold Memory.read
  rw [List.mem_map]
  constructor
  · rintro ⟨i, inside, rfl⟩
    rw [List.mem_range] at inside
    exact ⟨1 + i, by omega, by omega, rfl⟩
  · rintro ⟨i, behind, inside, rfl⟩
    refine ⟨i - 1, List.mem_range.mpr (by omega), ?_⟩
    congr 1
    omega

/-- All of the round trip holds for a message that is special in its first byte
at most. -/
theorem roundTrip_of_plain (other : buf 0 ≠ 0x7E) (text : Holds buf 0 message)
    (plain : ∀ byte ∈ message.tail, ¬ IsSpecial byte) :
    RoundTrip buf message.length := by
  have form := convert_wire text other
  have back := convert_back form
  have outward := reach_convert_plain other text plain
  have inward := reach_back_plain form plain
  refine
    { same := back.2.trans text.symm
      length := back.1
      last := form.last
      outward := ?_
      inward := ?_ }
  · rw [form.length]
    omega
  · refine le_max_of_le_left ?_
    rw [form.length] at inward ⊢
    omega

/-- The round trip succeeds inside the longer of the two forms exactly if the
message has no special character behind its first one. -/
theorem roundTrip_iff (buf : Memory) (n : Nat)
    (start : n ≠ 0 → buf 0 ≠ 0x7E) :
    RoundTrip buf n ↔
      buf 0 ≠ 0x7E ∧ ∀ i, 0 < i → i < n → ¬ IsSpecial (buf i) := by
  cases n with
  | zero =>
      constructor
      · intro round
        refine ⟨fun begin => ?_,
          fun i _ none => absurd none (Nat.not_lt_zero i)⟩
        have outward := round.outward
        -- the first byte is read although there is none
        have grows : 1 ≤ (ended buf ((0 : Nat) : Int)).reach :=
          le_reach_memmove
            { buf, l := ((0 : Nat) : Int) - 2, reach := 1 } 0 1 _
        have below : (ended buf ((0 : Nat) : Int)).l = -2 := rfl
        rw [convert_fromAlpha begin,
          normalizeFrom_done (by rw [below]; decide), below] at outward
        omega
      · rintro ⟨other, -⟩
        exact @roundTrip_of_plain _ [] other Memory.holds_nil
          fun _ none => absurd none List.not_mem_nil
  | succ m =>
      have text := holds_message buf m
      have size : (buf 0 :: buf.read 1 m).length = m + 1 := by
        rw [List.length_cons, Memory.length_read]
      have other := start (Nat.succ_ne_zero m)
      constructor
      · intro round
        refine ⟨other, fun i behind inside special => ?_⟩
        have far := not_outward_of_special other text
          ⟨buf i, mem_message.mpr ⟨i, behind, inside, rfl⟩, special⟩
        have outward := round.outward
        have form := convert_wire text other
        rw [size] at far form
        rw [form.length] at outward
        have longer := length_le_withEscapes (buf 0 :: buf.read 1 m)
        rw [size] at longer
        omega
      · rintro ⟨-, plain⟩
        have whole := roundTrip_of_plain other text fun byte member => by
          obtain ⟨i, behind, inside, rfl⟩ := mem_message.mp member
          exact plain i behind inside
        rwa [size] at whole

theorem roundTrip_iff_first :
    RoundTrip (Memory.zero.write 0 [0x80, 0x21]) 2 ↔
      Memory.zero.write 0 [0x80, 0x21] 0 ≠ 0x7E ∧ ∀ i, 0 < i → i < 2 →
        ¬ IsSpecial (Memory.zero.write 0 [0x80, 0x21] i) :=
  roundTrip_iff _ 2 fun _ => by decide

/-- A blank in the second byte. -/
theorem blank_not_roundTrip :
    ¬ RoundTrip (Memory.zero.write 0 [0x80, 0x20]) 2 := by
  intro round
  have text : Holds (Memory.zero.write 0 [0x80, 0x20]) 0 [0x80, 0x20] := rfl
  have other : Memory.zero.write 0 [0x80, 0x20] 0 ≠ 0x7E := by decide
  have far := not_outward_of_special other text ⟨0x20, by simp, .inl rfl⟩
  have outward := round.outward
  have form := convert_wire text other
  have size : (withEscapes [0x80, 0x20]).length = 3 := rfl
  have two : [(0x80 : UInt8), 0x20].length = 2 := rfl
  rw [two] at far form
  rw [form.length, size] at outward
  rw [size] at far
  omega

end

end Oscam.Serial
