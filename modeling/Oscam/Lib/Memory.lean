import Mathlib.Data.List.GetD
import Mathlib.Data.List.Range
import Mathlib.Tactic.Ring

/-!
# Byte memory

A buffer is seen as the memory from its first byte on, so that a write past
its end is a write like any other.  Reading and writing are in blocks of
bytes.
-/

/-- The bytes from some address on. -/
def Memory : Type := Nat → UInt8

namespace Memory

/-- Memory after `memset`. -/
def zero : Memory := fun _ => 0

variable {m : Memory} {off i n : Nat} {bytes : List UInt8}

def read (m : Memory) (off n : Nat) : List UInt8 :=
  (List.range n).map fun i => m (off + i)

def write (m : Memory) (off : Nat) (bytes : List UInt8) : Memory := fun i =>
  if off ≤ i ∧ i < off + bytes.length then bytes.getD (i - off) 0 else m i

/-- `memset` with zero over the first `n` bytes. -/
def clear (m : Memory) (n : Nat) : Memory := fun i => if i < n then 0 else m i

/-- A copy of `n` bytes; the two areas may overlap. -/
def move (m : Memory) (dst src n : Nat) : Memory := m.write dst (m.read src n)

/-- The memory from some place on. -/
def shift (m : Memory) (off : Nat) : Memory := fun i => m (off + i)

/-- A big-endian number of `n` bytes. -/
def number (m : Memory) (off n : Nat) : Nat :=
  (m.read off n).foldl (fun value byte => value * 256 + byte.toNat) 0

/-- The big-endian bytes of a number. -/
def digits : Nat → Nat → List UInt8
  | 0, _ => []
  | n + 1, value => UInt8.ofNat (value / 256 ^ n) :: digits n value

@[simp] theorem length_read (m : Memory) (off n : Nat) :
    (m.read off n).length = n := by
  simp [read]

theorem getD_read (m : Memory) (off : Nat) (inside : i < n) :
    (m.read off n).getD i 0 = m (off + i) := by
  rw [List.getD_eq_getElem _ _ (by simpa using inside)]
  simp [read]

theorem write_of_lt (before : i < off) : m.write off bytes i = m i := by
  apply if_neg
  intro inside
  omega

theorem write_of_le (after : off + bytes.length ≤ i) :
    m.write off bytes i = m i := by
  apply if_neg
  intro inside
  omega

@[simp] theorem write_nil (m : Memory) (off : Nat) : m.write off [] = m := by
  funext i
  apply if_neg
  rw [List.length_nil]
  omega

theorem write_inside (inside : i < bytes.length) :
    m.write off bytes (off + i) = bytes.getD i 0 := by
  unfold write
  rw [if_pos ⟨Nat.le_add_right off i, by omega⟩, Nat.add_sub_cancel_left]

theorem write_head (m : Memory) (off : Nat) (byte : UInt8)
    (bytes : List UInt8) : m.write off (byte :: bytes) off = byte := by
  unfold write
  rw [if_pos ⟨Nat.le_refl off, by simp⟩, Nat.sub_self]
  rfl

theorem read_write (m : Memory) (off : Nat) (bytes : List UInt8) :
    (m.write off bytes).read off bytes.length = bytes := by
  apply List.ext_getElem
  · simp
  · intro i short inside
    simp only [read, List.getElem_map, List.getElem_range]
    rw [write_inside inside, List.getD_eq_getElem]

@[simp] theorem length_digits (n value : Nat) : (digits n value).length = n := by
  induction n with
  | zero => rfl
  | succ n induction => simp [digits, induction]

theorem foldl_digits (n value start : Nat) :
    (digits n value).foldl (fun value byte => value * 256 + byte.toNat) start =
      start * 256 ^ n + value % 256 ^ n := by
  induction n generalizing start with
  | zero => simp [digits, Nat.mod_one]
  | succ n induction =>
      have step : value % (256 ^ n * 256) =
          value % 256 ^ n + 256 ^ n * (value / 256 ^ n % 256) := Nat.mod_mul
      have byte : (UInt8.ofNat (value / 256 ^ n)).toNat =
          value / 256 ^ n % 256 := UInt8.toNat_ofNat'
      rw [digits, List.foldl_cons, induction, byte, pow_succ, step]
      ring

/-- Two writes one behind the other. -/
theorem write_write (m : Memory) (off : Nat) (first second : List UInt8) :
    (m.write off first).write (off + first.length) second =
      m.write off (first ++ second) := by
  funext i
  simp only [write, List.length_append]
  by_cases inFirst : off ≤ i ∧ i < off + first.length
  · rw [if_neg (by omega), if_pos inFirst, if_pos (by omega),
      List.getD_append _ _ _ _ (by omega)]
  · rw [if_neg inFirst]
    split
    · rw [if_pos (by omega), List.getD_append_right _ _ _ _ (by omega),
        Nat.sub_sub]
    · rw [if_neg (by omega)]

/-- A number is read as it was written, as far as the bytes hold it. -/
theorem number_of_read {n value : Nat}
    (written : m.read off n = digits n value) :
    m.number off n = value % 256 ^ n := by
  rw [number, written, foldl_digits, Nat.zero_mul, Nat.zero_add]

theorem read_add (m : Memory) (off first second : Nat) :
    m.read off (first + second) =
      m.read off first ++ m.read (off + first) second := by
  simp only [read, List.range_add, List.map_append, List.map_map,
    Function.comp_def, Nat.add_assoc]

/-- A part of a block. -/
theorem read_part (m : Memory) (off : Nat) {start size whole : Nat}
    (inside : start + size ≤ whole) :
    m.read (off + start) size =
      ((m.read off whole).drop start).take size := by
  obtain ⟨rest, rfl⟩ := Nat.le.dest inside
  rw [Nat.add_assoc, read_add, read_add]
  simp

/-- A copy from another memory, byte by byte. -/
theorem write_read_apply (m other : Memory) (dst src n i : Nat) :
    m.write dst (other.read src n) i =
      if dst ≤ i ∧ i < dst + n then other (src + (i - dst)) else m i := by
  unfold write
  rw [length_read]
  by_cases inside : dst ≤ i ∧ i < dst + n
  · rw [if_pos inside, if_pos inside, getD_read other src (by omega)]
  · rw [if_neg inside, if_neg inside]

theorem move_apply (m : Memory) (dst src n i : Nat) :
    m.move dst src n i =
      if dst ≤ i ∧ i < dst + n then m (src + (i - dst)) else m i :=
  write_read_apply m m dst src n i

theorem write_byte_apply (m : Memory) (off : Nat) (byte : UInt8) (i : Nat) :
    m.write off [byte] i = if i = off then byte else m i := by
  by_cases here : i = off
  · rw [here, if_pos rfl, write_head]
  · rw [if_neg here]
    rcases Nat.lt_or_gt_of_ne here with before | after
    · exact write_of_lt before
    · exact write_of_le after

/-- What is there already, written again. -/
theorem write_read (m : Memory) (off n : Nat) :
    m.write off (m.read off n) = m := by
  funext i
  by_cases inside : off ≤ i ∧ i < off + n
  · obtain ⟨j, rfl⟩ := Nat.le.dest inside.1
    have short : j < (m.read off n).length := by
      rw [length_read]
      omega
    rw [write_inside short, getD_read m off (by omega)]
  · apply if_neg
    rwa [length_read]

/-- The later one of two writes to one place. -/
theorem write_again (m : Memory) (off : Nat) {first second : List UInt8}
    (same : first.length = second.length) :
    (m.write off first).write off second = m.write off second := by
  funext i
  simp only [write, same]
  split <;> rfl

theorem write_inj {first second : List UInt8}
    (length : first.length = second.length) :
    m.write off first = m.write off second ↔ first = second := by
  constructor
  · intro same
    have left := Memory.read_write m off first
    have right := Memory.read_write m off second
    rw [same, length] at left
    exact left.symm.trans right
  · rintro rfl
    rfl

/-- A longer write to the place of another one. -/
theorem write_longer (m : Memory) (off : Nat) {first second : List UInt8}
    (longer : first.length ≤ second.length) :
    (m.write off first).write off second = m.write off second := by
  funext i
  by_cases inside : off ≤ i ∧ i < off + second.length
  · simp only [write, if_pos inside]
  · have short : ¬ (off ≤ i ∧ i < off + first.length) := by omega
    simp only [write, if_neg inside, if_neg short]

/-- A write to a part of the bytes that were written before. -/
theorem write_part (m : Memory) (off : Nat)
    {front old new behind : List UInt8} (same : old.length = new.length) :
    (m.write off (front ++ old ++ behind)).write (off + front.length) new =
      m.write off (front ++ new ++ behind) := by
  rw [← write_write m off (front ++ old) behind,
    ← write_write m off (front ++ new) behind,
    ← write_write m off front old, ← write_write m off front new]
  funext i
  simp only [write, List.length_append, same]
  by_cases inside :
      off + front.length ≤ i ∧ i < off + front.length + new.length
  · have notBehind : ¬ (off + (front.length + new.length) ≤ i ∧
        i < off + (front.length + new.length) + behind.length) := by omega
    simp only [if_pos inside, if_neg notBehind]
  · simp only [if_neg inside]

theorem read_congr {other : Memory}
    (same : ∀ i, off ≤ i → i < off + n → other i = m i) :
    other.read off n = m.read off n := by
  apply List.map_congr_left
  intro i member
  exact same (off + i) (by omega) (by
    have below := List.mem_range.mp member
    omega)

/-- A text stays when something is written behind it. -/
theorem read_front {txt : List UInt8} (start : m.read 0 txt.length = txt)
    (more : List UInt8) :
    (m.write txt.length more).read 0 txt.length = txt := by
  conv_rhs => rw [← start]
  apply read_congr
  intro i _ inside
  exact write_of_lt (by omega)

/-- A text that goes on where it ended. -/
theorem read_write_behind {txt : List UInt8} (start : m.read 0 txt.length = txt)
    (more : List UInt8) :
    (m.write txt.length more).read 0 (txt ++ more).length = txt ++ more := by
  rw [List.length_append, read_add, read_front start, Nat.zero_add, read_write]

@[simp] theorem shift_zero (m : Memory) : m.shift 0 = m := by
  funext i
  exact congrArg m (Nat.zero_add i)

@[simp] theorem read_shift (m : Memory) (off i n : Nat) :
    (m.shift off).read i n = m.read (off + i) n := by
  apply List.map_congr_left
  intro j _
  show m (off + (i + j)) = m (off + i + j)
  rw [Nat.add_assoc]

/-- Blocks that are equal are equal byte by byte. -/
theorem apply_of_read {other : Memory} {start : Nat}
    (same : m.read off n = other.read start n) (inside : i < n) :
    m (off + i) = other (start + i) := by
  have entry := congrArg (fun bytes => bytes[i]?) same
  simpa [read, inside] using entry

theorem read_of_apply {other : Memory} {start : Nat}
    (same : ∀ i < n, m (off + i) = other (start + i)) :
    m.read off n = other.read start n := by
  apply List.map_congr_left
  intro i member
  exact same i (List.mem_range.mp member)

/-! ### Ciphers on blocks -/

/-- A cipher on `n` blocks of 16 bytes, in place. -/
def mapBlocks (cipher : List UInt8 → List UInt8) (m : Memory)
    (off n : Nat) : Memory :=
  (List.range n).foldl
    (fun m i => m.write (off + 16 * i) (cipher (m.read (off + 16 * i) 16))) m

theorem mapBlocks_succ (cipher : List UInt8 → List UInt8) (m : Memory)
    (off n : Nat) :
    m.mapBlocks cipher off (n + 1) =
      (m.mapBlocks cipher off n).write (off + 16 * n)
        (cipher ((m.mapBlocks cipher off n).read (off + 16 * n) 16)) := by
  simp [mapBlocks, List.range_succ]

/-- A cipher makes a block from a block. -/
def KeepsBlocks (cipher : List UInt8 → List UInt8) : Prop :=
  ∀ block, block.length = 16 → (cipher block).length = 16

theorem mapBlocks_outside {cipher : List UInt8 → List UInt8}
    (keeps : KeepsBlocks cipher) (outside : i < off ∨ off + 16 * n ≤ i) :
    m.mapBlocks cipher off n i = m i := by
  induction n with
  | zero => rfl
  | succ n induction =>
      have whole := keeps _ (length_read (m.mapBlocks cipher off n)
        (off + 16 * n) 16)
      rw [mapBlocks_succ]
      rcases outside with front | behind
      · rw [write_of_lt (by omega), induction (.inl front)]
      · rw [write_of_le (by omega), induction (.inr (by omega))]

/-- Every block is ciphered on its own. -/
theorem read_mapBlocks {cipher : List UInt8 → List UInt8}
    (keeps : KeepsBlocks cipher) (inside : i < n) :
    (m.mapBlocks cipher off n).read (off + 16 * i) 16 =
      cipher (m.read (off + 16 * i) 16) := by
  induction n with
  | zero => omega
  | succ n induction =>
      have untouched : (m.mapBlocks cipher off n).read (off + 16 * n) 16 =
          m.read (off + 16 * n) 16 := by
        apply read_congr
        intro j low high
        exact mapBlocks_outside keeps (.inr low)
      have whole := keeps _ (length_read m (off + 16 * n) 16)
      rw [mapBlocks_succ, untouched]
      by_cases last : i = n
      · subst last
        have written := read_write (m.mapBlocks cipher off i)
          (off + 16 * i) (cipher (m.read (off + 16 * i) 16))
        rwa [whole] at written
      · rw [← induction (by omega)]
        apply read_congr
        intro j low high
        exact write_of_lt (by omega)

/-- A memory that holds ciphered blocks of another one holds the blocks
themselves after it has been deciphered. -/
theorem mapBlocks_inverse {enc dec : List UInt8 → List UInt8}
    {plain : Memory} {first blocks : Nat} (keeps : KeepsBlocks enc)
    (inverse : ∀ block, block.length = 16 → dec (enc block) = block)
    (keepsDec : KeepsBlocks dec)
    (fits : first + n ≤ blocks)
    (ciphered : ∀ j, 16 * first ≤ j → j < 16 * first + 16 * n →
      m j = plain.mapBlocks enc 0 blocks j)
    (low : 16 * first ≤ i) (high : i < 16 * first + 16 * n) :
    m.mapBlocks dec (16 * first) n i = plain i := by
  obtain ⟨k, t, place, inside, small⟩ :
      ∃ k t, i = 16 * first + 16 * k + t ∧ k < n ∧ t < 16 :=
    ⟨(i - 16 * first) / 16, (i - 16 * first) % 16, by omega, by omega,
      by omega⟩
  have held : m.read (16 * first + 16 * k) 16 =
      (plain.mapBlocks enc 0 blocks).read (16 * first + 16 * k) 16 := by
    refine (read_congr fun j front behind => ?_).symm
    exact (ciphered j (by omega) (by omega)).symm
  have encrypted : (plain.mapBlocks enc 0 blocks).read
      (16 * first + 16 * k) 16 =
        enc (plain.read (16 * first + 16 * k) 16) := by
    have block : (plain.mapBlocks enc 0 blocks).read
        (0 + 16 * (first + k)) 16 =
          enc (plain.read (0 + 16 * (first + k)) 16) :=
      read_mapBlocks keeps (by omega)
    rwa [Nat.zero_add, Nat.mul_add] at block
  have decrypted : (m.mapBlocks dec (16 * first) n).read
      (16 * first + 16 * k) 16 = plain.read (16 * first + 16 * k) 16 := by
    rw [read_mapBlocks keepsDec inside, held, encrypted,
      inverse _ (length_read _ _ _)]
  rw [place]
  exact apply_of_read decrypted small

end Memory

/-- A buffer, and up to where it has been written. -/
structure Buffer where
  memory : Memory
  written : Nat

namespace Buffer

variable {b : Buffer} {off i n size : Nat} {bytes : List UInt8}

/-- A buffer that nothing was written to yet. -/
def fresh (memory : Memory) : Buffer := { memory := memory, written := 0 }

def write (b : Buffer) (off : Nat) (bytes : List UInt8) : Buffer :=
  if bytes.isEmpty then b
  else
    { memory := b.memory.write off bytes
      written := max b.written (off + bytes.length) }

theorem written_write_le (before : b.written ≤ size)
    (fits : off + bytes.length ≤ size) :
    (b.write off bytes).written ≤ size := by
  unfold write
  split
  · exact before
  · exact max_le before fits

theorem memory_write_of_lt (front : i < off) :
    (b.write off bytes).memory i = b.memory i := by
  unfold write
  split
  · rfl
  · exact Memory.write_of_lt front

/-- A cipher on blocks of 16 bytes, in place. -/
def mapBlocks (cipher : Vector UInt8 16 → Vector UInt8 16) (b : Buffer)
    (off : Nat) : Nat → Buffer
  | 0 => b
  | n + 1 =>
      let b := mapBlocks cipher b off n
      let block := Vector.ofFn fun j : Fin 16 => b.memory (off + 16 * n + j)
      b.write (off + 16 * n) (cipher block).toList

theorem written_mapBlocks_le (cipher : Vector UInt8 16 → Vector UInt8 16)
    (before : b.written ≤ size) (fits : n = 0 ∨ off + 16 * n ≤ size) :
    (b.mapBlocks cipher off n).written ≤ size := by
  induction n with
  | zero => exact before
  | succ n induction =>
      have block (bytes : Vector UInt8 16) : bytes.toList.length = 16 := by simp
      apply written_write_le (induction (by omega))
      rw [block]
      omega

theorem memory_mapBlocks_of_lt (cipher : Vector UInt8 16 → Vector UInt8 16)
    (front : i < off) : (b.mapBlocks cipher off n).memory i = b.memory i := by
  induction n with
  | zero => rfl
  | succ n induction =>
      rw [mapBlocks, memory_write_of_lt (by omega), induction]

end Buffer
