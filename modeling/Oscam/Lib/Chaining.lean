import Oscam.Lib.Memory

/-!
# Cipher block chaining

A cipher on blocks is run over memory in place; each block is mixed with the
ciphered block in front of it, the first one with an initial vector.  Loops
that write records of one size are here as well.
-/

namespace Memory

variable {m : Memory} {off size n i : Nat}

/-! ## Records of one size -/

/-- A loop that writes `n` records, each behind the one before it. -/
def writeRecords (record : Nat → List UInt8) (m : Memory)
    (off size n : Nat) : Memory :=
  (List.range n).foldl (fun m j => m.write (off + size * j) (record j)) m

theorem writeRecords_succ (record : Nat → List UInt8) (m : Memory)
    (off size n : Nat) :
    m.writeRecords record off size (n + 1) =
      (m.writeRecords record off size n).write (off + size * n)
        (record n) := by
  simp [writeRecords, List.range_succ]

theorem writeRecords_of_lt {record : Nat → List UInt8} (front : i < off) :
    m.writeRecords record off size n i = m i := by
  induction n with
  | zero => rfl
  | succ n induction =>
      rw [writeRecords_succ, write_of_lt (by omega), induction]

/-- A record is not touched by a write in a later place. -/
theorem read_write_later (m : Memory) (off size : Nat)
    (bytes : List UInt8) (later : i < n) :
    (m.write (off + size * n) bytes).read (off + size * i) size =
      m.read (off + size * i) size := by
  have below : size * (i + 1) ≤ size * n := Nat.mul_le_mul_left size later
  rw [Nat.mul_succ] at below
  apply read_congr
  intro j _low high
  exact write_of_lt (by omega)

/-- Every record is there after the loop. -/
theorem read_writeRecords {record : Nat → List UInt8}
    (whole : ∀ j, (record j).length = size) (inside : i < n) :
    (m.writeRecords record off size n).read (off + size * i) size =
      record i := by
  induction n with
  | zero => omega
  | succ n induction =>
      rw [writeRecords_succ]
      by_cases last : i = n
      · subst last
        have written := read_write (m.writeRecords record off size i)
          (off + size * i) (record i)
        rwa [whole] at written
      · rw [read_write_later _ _ _ _ (by omega), induction (by omega)]

/-- Memories with equal blocks are equal byte by byte. -/
theorem apply_of_blocks {other : Memory}
    (blocks : ∀ i < n, m.read (off + size * i) size =
      other.read (off + size * i) size)
    (low : off ≤ i) (high : i < off + size * n) : m i = other i := by
  have filled : 0 < size := by
    rcases Nat.eq_zero_or_pos size with none | some
    · subst none
      omega
    · exact some
  have inside : (i - off) / size < n := by
    apply Nat.div_lt_of_lt_mul
    omega
  have whole := Nat.div_add_mod (i - off) size
  have place : off + size * ((i - off) / size) + (i - off) % size = i := by
    omega
  have same := apply_of_read (blocks _ inside) (Nat.mod_lt (i - off) filled)
  rwa [place] at same

/-! ## Chains of blocks -/

/-- The bytes of two blocks mixed. -/
def mix (left right : List UInt8) : List UInt8 :=
  List.zipWith (· ^^^ ·) left right

@[simp] theorem length_mix (left right : List UInt8) :
    (mix left right).length = min left.length right.length := by
  simp [mix]

theorem mix_mix {left right : List UInt8}
    (same : left.length = right.length) :
    mix (mix left right) right = left := by
  induction left generalizing right with
  | nil => rfl
  | cons head left induction =>
      cases right with
      | nil => simp at same
      | cons other right =>
          have rest : left.length = right.length := by simpa using same
          have first : head ^^^ other ^^^ other = head := by
            rw [UInt8.xor_assoc, UInt8.xor_self, UInt8.xor_zero]
          show (head ^^^ other ^^^ other) :: mix (mix left right) right = _
          rw [first, induction rest]

/-- A turn of the encryption: the memory and the last ciphered block. -/
def chainStep (encrypt : List UInt8 → List UInt8) (off size : Nat)
    (state : Memory × List UInt8) (i : Nat) : Memory × List UInt8 :=
  let block := encrypt (mix (state.1.read (off + size * i) size) state.2)
  (state.1.write (off + size * i) block, block)

/-- Encryption of `n` blocks. -/
def chain (encrypt : List UInt8 → List UInt8) (m : Memory)
    (off size n : Nat) (ivec : List UInt8) : Memory × List UInt8 :=
  (List.range n).foldl (chainStep encrypt off size) (m, ivec)

/-- A turn of the decryption. -/
def unchainStep (decrypt : List UInt8 → List UInt8) (off size : Nat)
    (state : Memory × List UInt8) (i : Nat) : Memory × List UInt8 :=
  let block := state.1.read (off + size * i) size
  (state.1.write (off + size * i) (mix (decrypt block) state.2), block)

/-- Decryption of `n` blocks. -/
def unchain (decrypt : List UInt8 → List UInt8) (m : Memory)
    (off size n : Nat) (ivec : List UInt8) : Memory × List UInt8 :=
  (List.range n).foldl (unchainStep decrypt off size) (m, ivec)

theorem chain_succ (encrypt : List UInt8 → List UInt8) (m : Memory)
    (off size n : Nat) (ivec : List UInt8) :
    m.chain encrypt off size (n + 1) ivec =
      chainStep encrypt off size (m.chain encrypt off size n ivec) n := by
  simp [chain, List.range_succ]

theorem unchain_succ (decrypt : List UInt8 → List UInt8) (m : Memory)
    (off size n : Nat) (ivec : List UInt8) :
    m.unchain decrypt off size (n + 1) ivec =
      unchainStep decrypt off size (m.unchain decrypt off size n ivec) n := by
  simp [unchain, List.range_succ]

/-- The `i`th block that goes into the chain: the initial vector, and behind it
the ciphered blocks. -/
def chained (encrypt : List UInt8 → List UInt8) (m : Memory)
    (off size : Nat) (ivec : List UInt8) : Nat → List UInt8
  | 0 => ivec
  | i + 1 =>
      encrypt (mix (m.read (off + size * i) size)
        (chained encrypt m off size ivec i))

/-- A cipher and its inverse on blocks of one size. -/
structure BlockCipher (size : Nat) (encrypt decrypt : List UInt8 → List UInt8) :
    Prop where
  length : ∀ block, block.length = size → (encrypt block).length = size
  inverse : ∀ block, block.length = size → decrypt (encrypt block) = block

section Cipher

variable {encrypt decrypt : List UInt8 → List UInt8} {ivec : List UInt8}

theorem length_chained (cipher : BlockCipher size encrypt decrypt)
    (vector : ivec.length = size) (i : Nat) :
    (chained encrypt m off size ivec i).length = size := by
  induction i with
  | zero => exact vector
  | succ i induction =>
      apply cipher.length
      rw [length_mix, length_read, induction, Nat.min_self]

/-- What `n` turns of the encryption have done. -/
structure Chained (encrypt : List UInt8 → List UInt8) (m : Memory)
    (off size : Nat) (ivec : List UInt8) (n : Nat)
    (state : Memory × List UInt8) : Prop where
  last : state.2 = chained encrypt m off size ivec n
  block : ∀ i < n, state.1.read (off + size * i) size =
    chained encrypt m off size ivec (i + 1)
  outside : ∀ i, i < off ∨ off + size * n ≤ i → state.1 i = m i

theorem Chained.step (cipher : BlockCipher size encrypt decrypt)
    (vector : ivec.length = size) {state : Memory × List UInt8}
    (before : Chained encrypt m off size ivec n state) :
    Chained encrypt m off size ivec (n + 1)
      (chainStep encrypt off size state n) := by
  have plain : state.1.read (off + size * n) size =
      m.read (off + size * n) size := by
    apply read_congr
    intro j low _high
    exact before.outside j (.inr low)
  have next : encrypt (mix (state.1.read (off + size * n) size) state.2) =
      chained encrypt m off size ivec (n + 1) := by
    rw [plain, before.last, chained]
  have whole : (chained encrypt m off size ivec (n + 1)).length = size :=
    length_chained cipher vector (n + 1)
  have grown : size * (n + 1) = size * n + size := Nat.mul_succ size n
  constructor
  · exact next
  · intro i inside
    show (state.1.write (off + size * n) _).read (off + size * i) size = _
    rw [next]
    by_cases current : i = n
    · subst current
      have written := read_write state.1 (off + size * i)
        (chained encrypt m off size ivec (i + 1))
      rwa [whole] at written
    · rw [read_write_later _ _ _ _ (by omega), before.block i (by omega)]
  · intro i outside
    show state.1.write (off + size * n) _ i = m i
    rw [next]
    rcases outside with front | behind
    · rw [write_of_lt (by omega), before.outside i (.inl front)]
    · rw [write_of_le (by omega), before.outside i (.inr (by omega))]

theorem chained_chain (cipher : BlockCipher size encrypt decrypt)
    (vector : ivec.length = size) (m : Memory) (off n : Nat) :
    Chained encrypt m off size ivec n (m.chain encrypt off size n ivec) := by
  induction n with
  | zero =>
      constructor
      · rfl
      · intro i inside
        omega
      · intro i _outside
        rfl
  | succ n induction =>
      rw [chain_succ]
      exact induction.step cipher vector

/-- What `n` turns of the decryption have done to a memory with a chain. -/
structure Unchained (encrypt : List UInt8 → List UInt8) (m ciphered : Memory)
    (off size : Nat) (ivec : List UInt8) (n : Nat)
    (state : Memory × List UInt8) : Prop where
  last : state.2 = chained encrypt m off size ivec n
  block : ∀ i < n, state.1.read (off + size * i) size =
    m.read (off + size * i) size
  outside : ∀ i, i < off ∨ off + size * n ≤ i → state.1 i = ciphered i

theorem Unchained.step (cipher : BlockCipher size encrypt decrypt)
    (vector : ivec.length = size) {ciphered : Memory}
    {state : Memory × List UInt8}
    (held : ciphered.read (off + size * n) size =
      chained encrypt m off size ivec (n + 1))
    (before : Unchained encrypt m ciphered off size ivec n state) :
    Unchained encrypt m ciphered off size ivec (n + 1)
      (unchainStep decrypt off size state n) := by
  have block : state.1.read (off + size * n) size =
      chained encrypt m off size ivec (n + 1) := by
    rw [← held]
    apply read_congr
    intro j low _high
    exact before.outside j (.inr low)
  have vectors : (chained encrypt m off size ivec n).length = size :=
    length_chained cipher vector n
  have plain : mix (decrypt (state.1.read (off + size * n) size)) state.2 =
      m.read (off + size * n) size := by
    rw [block, before.last, chained, cipher.inverse, mix_mix]
    · rw [length_read, vectors]
    · rw [length_mix, length_read, vectors, Nat.min_self]
  have grown : size * (n + 1) = size * n + size := Nat.mul_succ size n
  constructor
  · exact block
  · intro i inside
    show (state.1.write (off + size * n) _).read (off + size * i) size = _
    rw [plain]
    by_cases current : i = n
    · subst current
      have written := read_write state.1 (off + size * i)
        (m.read (off + size * i) size)
      rwa [length_read] at written
    · rw [read_write_later _ _ _ _ (by omega), before.block i (by omega)]
  · intro i outside
    show state.1.write (off + size * n) _ i = ciphered i
    rw [plain]
    rcases outside with front | behind
    · rw [write_of_lt (by omega), before.outside i (.inl front)]
    · rw [write_of_le (by rw [length_read]; omega),
        before.outside i (.inr (by omega))]

/-- A memory that holds the chain of another one holds its blocks after the
decryption, and is as before around them. -/
theorem unchained_unchain (cipher : BlockCipher size encrypt decrypt)
    (vector : ivec.length = size) {ciphered : Memory}
    (held : ∀ i < n, ciphered.read (off + size * i) size =
      chained encrypt m off size ivec (i + 1)) :
    Unchained encrypt m ciphered off size ivec n
      (ciphered.unchain decrypt off size n ivec) := by
  induction n with
  | zero =>
      constructor
      · rfl
      · intro i inside
        omega
      · intro i _outside
        rfl
  | succ n induction =>
      rw [unchain_succ]
      exact (induction fun i inside => held i (by omega)).step cipher vector
        (held n (by omega))

/-- The decryption keeps to its blocks, whatever it makes of them. -/
theorem unchain_outside (decrypt : List UInt8 → List UInt8) (m : Memory)
    {ivec : List UInt8} (vector : ivec.length = size) :
    (m.unchain decrypt off size n ivec).2.length = size ∧
      ∀ i, i < off ∨ off + size * n ≤ i →
        (m.unchain decrypt off size n ivec).1 i = m i := by
  induction n with
  | zero => exact ⟨vector, fun _i _outside => rfl⟩
  | succ n induction =>
      obtain ⟨length, before⟩ := induction
      have grown : size * (n + 1) = size * n + size := Nat.mul_succ size n
      rw [unchain_succ]
      refine ⟨length_read .., ?_⟩
      intro i outside
      show Memory.write _ (off + size * n) (mix _ _) i = m i
      rcases outside with front | behind
      · rw [write_of_lt (by omega), before i (.inl front)]
      · rw [write_of_le (by rw [length_mix, length]; omega),
          before i (.inr (by omega))]

end Cipher

end Memory
