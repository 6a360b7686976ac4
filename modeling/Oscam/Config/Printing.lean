import Oscam.Lib.Memory
import Oscam.Numerals

/-!
# Texts of settings

The functions `mk_t_...` allocate a buffer by an estimate and print a setting
to it piece by piece.  `Holds` says what a print has come to.
-/

namespace Oscam

open Monitor (cstr)

/-- The buffer and the position of a function that prints to it. -/
structure Print where
  buf : Buffer
  pos : Nat

/-- The text that a function returns, in a buffer of `needed` bytes. -/
structure Text where
  needed : Nat
  buf : Buffer

namespace Print

/-- An array of the stack, with what is in the memory. -/
def startIn (memory : Memory) : Print := { buf := .fresh memory, pos := 0 }

/-- A buffer from `cs_malloc`, which clears it. -/
def start : Print := startIn .zero

/-- `snprintf` of a text at the position; `size` is the bound it is given. -/
def snprintf (size : Nat) (txt : List UInt8) (p : Print) : Print :=
  if size = 0 then p
  else { p with buf := p.buf.write p.pos (txt.take (size - 1) ++ [0]) }

def advance (n : Nat) (p : Print) : Print := { p with pos := p.pos + n }

/-- A text printed at the position, which then moves on by its length. -/
def print (size : Nat) (txt : List UInt8) (p : Print) : Print :=
  (p.snprintf size txt).advance txt.length

/-- What is left of `needed` bytes; the bound is a `size_t`, to which a negative
number is a large one. -/
def left (needed : Nat) (p : Print) : Nat :=
  if p.pos ≤ needed then needed - p.pos else 2 ^ 64 - (p.pos - needed)

/-- A text printed up to the end of the buffer. -/
def printLeft (needed : Nat) (txt : List UInt8) (p : Print) : Print :=
  p.print (p.left needed) txt

/-- `value[pos] = c`. -/
def store (c : UInt8) (p : Print) : Print :=
  { p with buf := p.buf.write p.pos [c] }

end Print

namespace Text

/-- The constant that stands for no text. -/
def empty : Text := { needed := 1, buf := (Buffer.fresh .zero).write 0 [0] }

/-- Nothing was written behind the buffer. -/
def Inside (t : Text) : Prop := t.buf.written ≤ t.needed

instance (t : Text) : Decidable t.Inside :=
  inferInstanceAs (Decidable (_ ≤ _))

/-- The string in the buffer. -/
def string (t : Text) : List UInt8 := cstr (t.buf.memory.read 0 t.needed)

theorem inside_empty : Text.empty.Inside := le_refl 1

theorem string_empty : Text.empty.string = [] := rfl

end Text

namespace Print

/-- So far this text has been printed, all of it at its place. -/
structure Holds (p : Print) (txt : List UInt8) : Prop where
  pos : p.pos = txt.length
  bytes : p.buf.memory.read 0 txt.length = txt
  written : p.buf.written ≤ txt.length + 1
  ended : p.buf.memory txt.length = 0

/-- The text in front of the position; something may be written behind it. -/
structure Shows (p : Print) (txt : List UInt8) : Prop where
  pos : p.pos = txt.length
  bytes : p.buf.memory.read 0 txt.length = txt

variable {p : Print} {txt : List UInt8}

theorem Holds.shows (holds : p.Holds txt) : p.Shows txt :=
  ⟨holds.pos, holds.bytes⟩

theorem holds_start : start.Holds [] where
  pos := rfl
  bytes := rfl
  written := Nat.zero_le _
  ended := rfl

/-- The position moves on by less than what was printed. -/
theorem Shows.cut (shows : p.Shows txt) (size : Nat) (more : List UInt8)
    (n : Nat) (room : more.length < size) (part : n ≤ more.length) :
    ((p.snprintf size more).advance n).Shows (txt ++ more.take n) := by
  have some : size ≠ 0 := by omega
  have whole : more.take (size - 1) = more :=
    List.take_of_length_le (by omega)
  have filled : (more ++ [0]).isEmpty = false := by simp
  have memory : ((p.snprintf size more).advance n).buf.memory =
      p.buf.memory.write txt.length (more ++ [0]) := by
    simp only [snprintf, advance, if_neg some, whole, shows.pos, Buffer.write,
      filled]
    rfl
  have total : (txt ++ more.take n).length = txt.length + n := by
    rw [List.length_append, List.length_take, Nat.min_eq_left part]
  constructor
  · have position : ((p.snprintf size more).advance n).pos = p.pos + n := by
      simp only [snprintf, advance, if_neg some]
    rw [position, shows.pos, total]
  · have front := Memory.read_front shows.bytes (more ++ [0])
    have back : (p.buf.memory.write txt.length (more ++ [0])).read txt.length
        n = more.take n := by
      have inside : 0 + n ≤ (more ++ [0]).length := by
        rw [List.length_append]
        omega
      have read := Memory.read_part
        (p.buf.memory.write txt.length (more ++ [0])) txt.length inside
      rw [Nat.add_zero, Memory.read_write, List.drop_zero] at read
      rw [read, List.take_append_of_le_length part]
    rw [memory, total, Memory.read_add, front, Nat.zero_add, back]

theorem Shows.print (shows : p.Shows txt) (size : Nat) (more : List UInt8)
    (room : more.length < size) :
    (p.print size more).Shows (txt ++ more) := by
  have step := shows.cut size more more.length room (le_refl more.length)
  rwa [List.take_length] at step

theorem Shows.holds_print (shows : p.Shows txt)
    (before : p.buf.written ≤ txt.length + 1) (size : Nat) (more : List UInt8)
    (room : more.length < size) :
    (p.print size more).Holds (txt ++ more) := by
  have some : size ≠ 0 := by omega
  have whole : more.take (size - 1) = more :=
    List.take_of_length_le (by omega)
  have buffer : (p.print size more).buf =
      p.buf.write txt.length (more ++ [0]) := by
    simp only [Print.print, snprintf, advance, if_neg some, whole, shows.pos]
  have filled : (more ++ [0]).isEmpty = false := by simp
  have memory : (p.print size more).buf.memory =
      p.buf.memory.write txt.length (more ++ [0]) := by
    rw [buffer, Buffer.write, filled]
    rfl
  have total : (txt ++ more).length = txt.length + more.length :=
    List.length_append
  have shown := shows.print size more room
  refine ⟨shown.pos, shown.bytes, ?_, ?_⟩
  · rw [buffer, Buffer.write, filled]
    have length : (more ++ [0]).length = more.length + 1 := by simp
    simp only [Bool.false_eq_true, if_false, length, total]
    omega
  · rw [memory, total, Memory.write_inside (by simp)]
    simp

theorem Holds.print (holds : p.Holds txt) (size : Nat) (more : List UInt8)
    (room : more.length < size) : (p.print size more).Holds (txt ++ more) :=
  holds.shows.holds_print holds.written size more room

theorem Holds.store_zero (holds : p.Holds txt) : (p.store 0).Holds txt := by
  have memory : (p.store 0).buf.memory = p.buf.memory.write txt.length [0] := by
    rw [store, holds.pos]
    rfl
  refine ⟨holds.pos, ?_, ?_, ?_⟩
  · rw [memory]
    exact Memory.read_front holds.bytes [0]
  · have last : (p.store 0).buf.written =
        max p.buf.written (txt.length + 1) := by
      rw [store, holds.pos]
      rfl
    have before := holds.written
    omega
  · rw [memory, Memory.write_head]

/-- A text without zeros, with a zero behind it, is the string of a buffer. -/
theorem string_of_read {needed : Nat} {b : Buffer}
    (bytes : b.memory.read 0 txt.length = txt) (ended : b.memory txt.length = 0)
    (plain : 0 ∉ txt) (fits : txt.length < needed) :
    ({ needed := needed, buf := b } : Text).string = txt := by
  obtain ⟨rest, rfl⟩ := Nat.exists_eq_add_of_lt fits
  have last : b.memory.read (0 + txt.length) (rest + 1) =
      0 :: b.memory.read (txt.length + 1) rest := by
    have first : b.memory.read txt.length 1 = [0] := by
      simp [Memory.read, ended]
    rw [Nat.add_comm rest 1, Memory.read_add, Nat.zero_add, first]
    rfl
  unfold Text.string
  rw [Nat.add_assoc, Memory.read_add, bytes, last, cstr_append_zero plain]

theorem Holds.string {needed : Nat} (holds : p.Holds txt) (plain : 0 ∉ txt)
    (fits : txt.length < needed) :
    ({ needed := needed, buf := p.buf } : Text).Inside ∧
      ({ needed := needed, buf := p.buf } : Text).string = txt := by
  have written := holds.written
  refine ⟨?_, string_of_read holds.bytes holds.ended plain fits⟩
  show p.buf.written ≤ needed
  omega

/-- Items that are printed one after the other, the first one behind `lead`
and the others behind a separator. -/
theorem foldl_items {α : Type} {R : Print → List UInt8 → Prop}
    (lead : List UInt8) (separator : UInt8) (put : Print → α × Nat → Print)
    (item : α → List UInt8) (begun : R p txt) (xs : List α)
    (step : ∀ p txt, ∀ i < xs.length, ∀ x ∈ xs, R p txt →
      R (put p (x, i))
        (txt ++ (if i = 0 then lead else [separator]) ++ item x)) :
    R (xs.zipIdx.foldl put p)
      (txt ++ (if xs = [] then [] else lead) ++
        [separator].intercalate (xs.map item)) := by
  induction xs using List.reverseRecOn with
  | nil => simpa using begun
  | append_singleton xs x induction =>
      have before := induction fun p txt i inside x member =>
        step p txt i (by
          rw [List.length_append]
          omega) x (List.mem_append_left _ member)
      have last := step _ _ xs.length (by simp) x (by simp) before
      have first : xs.map item = [] ↔ xs = [] := List.map_eq_nil_iff
      rw [List.zipIdx_append, List.foldl_append, List.map_append,
        List.map_singleton, Separated.intercalate_append_singleton]
      simp only [first]
      by_cases none : xs = []
      · subst none
        simpa using last
      · have some : xs.length ≠ 0 := by simpa using none
        simpa [none, some] using last

/-! ### Pieces that are cut by the next one -/

/-- The zero at the end makes the text the string of its buffer. -/
theorem Shows.string {needed : Nat} (shows : p.Shows txt) (plain : 0 ∉ txt)
    (fits : txt.length < needed) :
    ({ needed := needed, buf := (p.store 0).buf } : Text).string = txt := by
  have memory : (p.store 0).buf.memory = p.buf.memory.write txt.length [0] := by
    rw [store, shows.pos]
    rfl
  exact string_of_read (by rw [memory, Memory.read_front shows.bytes])
    (by rw [memory, Memory.write_head]) plain fits

/-! ### Pieces that are printed up to the end of the buffer -/

/-- The position moves on by all of the text; as long as it has room, the text
stands at its place. -/
structure Placed (needed : Nat) (p : Print) (txt : List UInt8) : Prop where
  pos : p.pos = txt.length
  shows : txt.length < needed → p.Shows txt
  written : txt.length < needed → p.buf.written ≤ txt.length + 1

/-- The text has its zero behind it. -/
structure Fills (needed : Nat) (p : Print) (txt : List UInt8) : Prop
    extends p.Placed needed txt where
  ended : txt.length < needed → txt ≠ [] → p.buf.memory txt.length = 0

variable {needed : Nat}

theorem fills_startIn (needed : Nat) (memory : Memory) :
    (startIn memory).Fills needed [] where
  pos := rfl
  shows _ := ⟨rfl, rfl⟩
  written _ := Nat.zero_le _
  ended _ some := absurd rfl some

theorem pos_print (p : Print) (size : Nat) (more : List UInt8) :
    (p.print size more).pos = p.pos + more.length := by
  unfold Print.print snprintf
  split <;> rfl

theorem Placed.holds_printLeft (placed : p.Placed needed txt)
    {more : List UInt8} (inside : (txt ++ more).length < needed) :
    (p.printLeft needed more).Holds (txt ++ more) := by
  have total : (txt ++ more).length = txt.length + more.length :=
    List.length_append
  have before : txt.length < needed := by omega
  have left : more.length < p.left needed := by
    rw [left, placed.pos, if_pos (by omega)]
    omega
  exact (placed.shows before).holds_print (placed.written before) _ more left

theorem Placed.printLeft (placed : p.Placed needed txt) (more : List UInt8) :
    (p.printLeft needed more).Fills needed (txt ++ more) := by
  refine ⟨⟨?_, fun inside => (placed.holds_printLeft inside).shows,
    fun inside => (placed.holds_printLeft inside).written⟩,
    fun inside _ => (placed.holds_printLeft inside).ended⟩
  rw [Print.printLeft, pos_print, placed.pos, List.length_append]

theorem Fills.printLeft (fills : p.Fills needed txt) (more : List UInt8) :
    (p.printLeft needed more).Fills needed (txt ++ more) :=
  fills.toPlaced.printLeft more

/-- A single character is stored, without a zero behind it. -/
theorem Placed.store (placed : p.Placed needed txt) (c : UInt8) :
    ((p.store c).advance 1).Placed needed (txt ++ [c]) := by
  have memory : (p.store c).buf.memory =
      p.buf.memory.write txt.length [c] := by
    rw [Print.store, placed.pos]
    rfl
  have total : (txt ++ [c]).length = txt.length + 1 := by simp
  have position : ((p.store c).advance 1).pos = (txt ++ [c]).length := by
    show p.pos + 1 = _
    rw [placed.pos, total]
  refine ⟨position, fun inside => ⟨position, ?_⟩, fun inside => ?_⟩
  · have before := (placed.shows (by omega)).bytes
    show (p.store c).buf.memory.read 0 _ = _
    rw [memory]
    exact Memory.read_write_behind before [c]
  · have before := placed.written (by omega)
    have last : (p.store c).buf.written =
        max p.buf.written (txt.length + 1) := by
      rw [Print.store, placed.pos]
      rfl
    show (p.store c).buf.written ≤ _
    omega

/-! ### Items with a separator -/

/-- An item is printed behind `dot`, which is a comma from the second one on. -/
def putItem (print : List UInt8 → Print → Print) (s : Print × List UInt8)
    (item : List UInt8) : Print × List UInt8 :=
  (print (s.2 ++ item) s.1, [44])

/-- What every print keeps holds when all items are printed. -/
theorem foldl_putItem {R : Print → List UInt8 → Prop}
    (print : List UInt8 → Print → Print) {items : List (List UInt8)}
    (begun : R p [])
    (step : ∀ p txt dot, dot.length ≤ 1 → ∀ item ∈ items, R p txt →
      R (print (dot ++ item) p) (txt ++ (dot ++ item))) :
    R (items.foldl (putItem print) (p, [])).1 ([44].intercalate items) := by
  suffices both : (items.foldl (putItem print) (p, [])).2 =
      (if items = [] then [] else [44]) ∧
        R (items.foldl (putItem print) (p, [])).1 ([44].intercalate items) from
    both.2
  induction items using List.reverseRecOn with
  | nil => exact ⟨rfl, begun⟩
  | append_singleton items item induction =>
      obtain ⟨dot, printed⟩ := induction fun p txt dot short item member =>
        step p txt dot short item (List.mem_append_left _ member)
      have short : (items.foldl (putItem print) (p, [])).2.length ≤ 1 := by
        rw [dot]
        split <;> decide
      have last := step _ _ _ short item (by simp) printed
      rw [List.foldl_append, Separated.intercalate_append_singleton]
      refine ⟨by simp [putItem], ?_⟩
      rw [List.append_assoc, ← dot]
      exact last

end Print

/-! ## Copies of a text -/

/-- An array of `needed` bytes that was printed to; the text that is returned
is a copy of it up to the position. -/
structure Copied where
  needed : Nat
  print : Print

namespace Copied

/-- Neither the prints nor the copy went behind the array. -/
def Inside (c : Copied) : Prop :=
  c.print.buf.written ≤ c.needed ∧ c.print.pos + 1 ≤ c.needed

instance (c : Copied) : Decidable c.Inside :=
  inferInstanceAs (Decidable (_ ∧ _))

/-- The constant without a text, or the copy. -/
def string (c : Copied) : List UInt8 :=
  if c.print.pos = 0 then []
  else cstr (c.print.buf.memory.read 0 (c.print.pos + 1))

variable {c : Copied} {txt : List UInt8}

theorem inside_iff (fills : c.print.Fills c.needed txt) :
    c.Inside ↔ txt.length < c.needed := by
  rw [Inside, fills.pos]
  constructor
  · exact And.right
  · intro fits
    exact ⟨(fills.written fits).trans fits, fits⟩

theorem string_of_fills (fills : c.print.Fills c.needed txt) (plain : 0 ∉ txt)
    (fits : txt.length < c.needed) : c.string = txt := by
  unfold string
  rw [fills.pos]
  by_cases none : txt = []
  · rw [none]
    rfl
  · rw [if_neg (by simpa using none)]
    exact Print.string_of_read (fills.shows fits).bytes (fills.ended fits none)
      plain (Nat.lt_succ_self _)

end Copied

end Oscam
