import Oscam.Lib.Memory

/-!
# Buffers filled from the front

A message is written entry by entry at a growing offset, while a byte further
in front counts the entries.  What a stage has written stays, because later
stages only write behind it and to their own counters.
-/

/-- A buffer and the offset of the next write. -/
structure Walk where
  m : Memory
  ofs : Nat

namespace Walk

/-- One more entry. -/
def put (w : Walk) (entry : List UInt8) : Walk :=
  { m := w.m.write w.ofs entry, ofs := w.ofs + entry.length }

/-- One more is counted. -/
def count (w : Walk) (counter : Nat) : Walk :=
  { w with m := w.m.write counter [w.m counter + 1] }

/-- A list of entries, each counted. -/
def putAll (counter : Nat) (w : Walk) (entries : List (List UInt8)) : Walk :=
  entries.foldl (fun w entry => (w.put entry).count counter) w

/-- What a stage does that writes some bytes and counts its entries. -/
structure Filled (before after : Walk) (counter n : Nat)
    (written : List UInt8) : Prop where
  ofs : after.ofs = before.ofs + written.length
  body : after.m.read before.ofs written.length = written
  counted : after.m counter = before.m counter + UInt8.ofNat n
  frame : ∀ i < before.ofs, i ≠ counter → after.m i = before.m i
  behind : ∀ i ≥ after.ofs, i ≠ counter → after.m i = before.m i

variable {w middle after : Walk} {counter i n : Nat} {entry : List UInt8}

theorem m_count (w : Walk) (counter : Nat) :
    (w.count counter).m counter = w.m counter + 1 := by
  exact @Memory.write_inside w.m counter 0 [w.m counter + 1] Nat.zero_lt_one

theorem m_count_of_ne (w : Walk) (other : i ≠ counter) :
    (w.count counter).m i = w.m i := by
  apply if_neg
  simp only [List.length_singleton]
  omega

theorem read_count (w : Walk) {off size : Nat}
    (outside : counter < off ∨ off + size ≤ counter) :
    (w.count counter).m.read off size = w.m.read off size := by
  apply Memory.read_congr
  intro i low high
  apply m_count_of_ne
  omega

/-- The offset never goes back in a loop whose turns do not move it back. -/
theorem ofs_le_foldl {Item : Type} {turn : Walk → Item → Walk}
    (grows : ∀ w item, w.ofs ≤ (turn w item).ofs) (w : Walk)
    (items : List Item) : w.ofs ≤ (items.foldl turn w).ofs := by
  induction items generalizing w with
  | nil => exact Nat.le_refl _
  | cons item items induction =>
      rw [List.foldl_cons]
      exact Nat.le_trans (grows w item) (induction _)

namespace Filled

theorem nil (w : Walk) (counter : Nat) : Filled w w counter 0 [] :=
  { ofs := rfl
    body := rfl
    counted := by simp
    frame := fun _ _ _ => rfl
    behind := fun _ _ _ => rfl }

theorem one (before : counter < w.ofs) (entry : List UInt8) :
    Filled w ((w.put entry).count counter) counter 1 entry :=
  { ofs := rfl
    body := by
      rw [read_count _ (Or.inl before)]
      exact Memory.read_write w.m w.ofs entry
    counted := by
      rw [m_count]
      congr 1
      exact Memory.write_of_lt before
    frame := by
      intro i below other
      rw [m_count_of_ne _ other]
      exact Memory.write_of_lt below
    behind := by
      intro i above other
      rw [m_count_of_ne _ other]
      exact Memory.write_of_le above }

/-- A stage behind another one with the same counter. -/
theorem trans {first second : List UInt8} {a b : Nat}
    (before : counter < w.ofs) (head : Filled w middle counter a first)
    (rest : Filled middle after counter b second) :
    Filled w after counter (a + b) (first ++ second) := by
  have reached : w.ofs ≤ middle.ofs := by
    rw [head.ofs]
    omega
  constructor
  · rw [rest.ofs, head.ofs, List.length_append, Nat.add_assoc]
  · have kept : after.m.read w.ofs first.length =
        middle.m.read w.ofs first.length := by
      apply Memory.read_congr
      intro i low high
      apply rest.frame
      · rw [head.ofs]
        exact high
      · omega
    rw [List.length_append, Memory.read_add, kept, head.body, ← head.ofs,
      rest.body]
  · rw [rest.counted, head.counted, UInt8.ofNat_add, UInt8.add_assoc]
  · intro i below other
    rw [rest.frame i (by omega) other, head.frame i below other]
  · intro i above other
    have further : middle.ofs ≤ after.ofs := by
      rw [rest.ofs]
      omega
    rw [rest.behind i above other, head.behind i (by omega) other]

end Filled

/-- All entries are there, one behind the other. -/
theorem putAll_filled (before : counter < w.ofs)
    (entries : List (List UInt8)) :
    Filled w (putAll counter w entries) counter entries.length
      entries.flatten := by
  induction entries generalizing w with
  | nil => exact Filled.nil w counter
  | cons entry entries induction =>
      have head := Filled.one before entry
      have further : counter < ((w.put entry).count counter).ofs := by
        rw [head.ofs]
        omega
      have whole := head.trans before (induction further)
      rw [Nat.add_comm] at whole
      exact whole

/-- Entry `i` of a body of entries of one size. -/
theorem read_entry {m : Memory} {off size : Nat}
    {entries : List (List UInt8)}
    (body : m.read off entries.flatten.length = entries.flatten)
    (sizes : ∀ entry ∈ entries, entry.length = size) {i : Nat}
    (inside : i < entries.length) :
    m.read (off + size * i) size = entries[i] := by
  induction entries generalizing off i with
  | nil => cases inside
  | cons entry entries induction =>
      have first : entry.length = size := sizes entry (by simp)
      rw [List.flatten_cons, List.length_append, Memory.read_add] at body
      obtain ⟨here, later⟩ := List.append_inj body (by simp)
      cases i with
      | zero =>
          rw [first] at here
          exact here
      | succ i =>
          rw [first] at later
          have rest := induction later
            (fun other member => sizes other (by simp [member]))
            (Nat.lt_of_succ_lt_succ inside)
          rw [List.getElem_cons_succ, ← rest]
          congr 1
          ring

end Walk
