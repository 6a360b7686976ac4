import Oscam.Config.Printing
import Oscam.Config.Services
import Oscam.Stat.StatLines

/-!
# Lists in buffers of a fixed size

`mk_t_service`, `mk_t_aureader` and `mk_t_emmbylen` print lists whose length
they do not count.  The position moves on by what a print would have written.
-/

namespace Oscam.ListTexts

open Monitor (cstr ascii)
open Services (Sidtab sidtabBit)
open Stat (atoi int16)
open Print (putItem printLeft)

/-! ## Services -/

/-- The body of the loop of `mk_t_service`. -/
def putService (sidtabok sidtabno : UInt64) (s : Print × List UInt8)
    (entry : Sidtab × Nat) : Print × List UInt8 :=
  let s :=
    if sidtabok &&& sidtabBit entry.2 ≠ 0 then
      putItem (printLeft 1024) s entry.1.label
    else s
  if sidtabno &&& sidtabBit entry.2 ≠ 0 then
    putItem (printLeft 1024) s (33 :: entry.1.label)
  else s

/-- `mk_t_service` with `cfg.sidtab`. -/
def mkTService (table : List Sidtab) (sidtabok sidtabno : UInt64) : Text :=
  if table = [] ∨ sidtabok = 0 ∧ sidtabno = 0 then .empty
  else
    { needed := 1024
      buf := (table.zipIdx.foldl (putService sidtabok sidtabno)
        (Print.start.store 0, [])).1.buf }

/-- The services of both masks. -/
def services (table : List Sidtab) (sidtabok sidtabno : UInt64) :
    List (List UInt8) :=
  table.zipIdx.flatMap fun entry =>
    (if sidtabok &&& sidtabBit entry.2 ≠ 0 then [entry.1.label] else []) ++
      (if sidtabno &&& sidtabBit entry.2 ≠ 0 then [33 :: entry.1.label] else [])

/-! ## Readers -/

/-- `mk_t_aureader`; the labels are those of the readers in `aureader_list`. -/
def mkTAureader (labels : List (List UInt8)) : Text :=
  if labels = [] then .empty
  else
    { needed := 256
      buf := (labels.foldl (putItem (printLeft 256))
        (Print.start.store 0, [])).1.buf }

/-! ## Lengths of EMMs -/

/-- `CS_MAXEMMBLOCKBYLEN`. -/
abbrev csMaxemmblockbylen : Nat := 10

/-- The part of `chk_reader` for `blockemm-bylen`. -/
def blockemmBylen (value : List UInt8) : List Int :=
  let given := ((strtok 44 value).take csMaxemmblockbylen).map fun ptr =>
    int16 (atoi ptr)
  given ++ List.replicate (csMaxemmblockbylen - given.length) 0

/-- The body of the loop of `mk_t_emmbylen`, which gives every print the size
of the whole buffer. -/
def putBylen (needed : Nat) (s : Print × List UInt8) (len : Int) :
    Print × List UInt8 :=
  if len ≠ 0 then putItem (Print.print needed) s (decimal len) else s

/-- `mk_t_emmbylen`. -/
def mkTEmmbylen (blockemmbylen : List Int) : Text :=
  let needed := csMaxemmblockbylen * 4 + 1
  { needed := needed
    buf := (blockemmbylen.foldl (putBylen needed) (.start, [])).1.buf }

/-- The lengths that are set. -/
def lengths (blockemmbylen : List Int) : List (List UInt8) :=
  (blockemmbylen.filter (· ≠ 0)).map decimal

/-! ## What is asked -/

/-- The text has all entries, and nothing was written behind its buffer. -/
structure Complete (t : Text) (entries : List (List UInt8)) : Prop where
  inside : t.Inside
  string : t.string = [44].intercalate entries

/-! ## Prints up to the end of a buffer -/

/-- As long as it has room, the text stands in the buffer as a string; in any
case there is a zero in the buffer. -/
structure Runs (needed : Nat) (p : Print) (txt : List UInt8) : Prop where
  pos : p.pos = txt.length
  holds : txt.length < needed → p.Holds txt
  stop : ∃ i < needed, p.buf.memory i = 0

variable {needed : Nat} {p : Print} {txt : List UInt8}
  {entries : List (List UInt8)}

theorem runs_start (some : 0 < needed) :
    Runs needed (Print.start.store 0) [] where
  pos := rfl
  holds _ := Print.holds_start.store_zero
  stop := ⟨0, some, rfl⟩

/-- A print leaves a zero at its end, or does not come near the buffer. -/
theorem stop_printLeft (stop : ∃ i < needed, p.buf.memory i = 0)
    (more : List UInt8) :
    ∃ i < needed, (p.printLeft needed more).buf.memory i = 0 := by
  unfold printLeft Print.print Print.snprintf
  by_cases none : p.left needed = 0
  · rw [if_pos none]
    exact stop
  rw [if_neg none]
  have filled (block : List UInt8) : (block ++ [0]).isEmpty = false := by simp
  show ∃ i < needed, (p.buf.write p.pos
    (more.take (p.left needed - 1) ++ [0])).memory i = 0
  simp only [Buffer.write, filled, Bool.false_eq_true, if_false]
  by_cases inside : p.pos < needed
  · have left : p.left needed = needed - p.pos := if_pos inside.le
    have few := List.length_take_le (p.left needed - 1) more
    refine ⟨p.pos + (more.take (p.left needed - 1)).length, by omega, ?_⟩
    rw [Memory.write_inside (by simp)]
    simp
  · obtain ⟨i, place, zero⟩ := stop
    exact ⟨i, place, (Memory.write_of_lt (by omega)).trans zero⟩

theorem Runs.printLeft (runs : Runs needed p txt) (more : List UInt8) :
    Runs needed (p.printLeft needed more) (txt ++ more) := by
  refine ⟨?_, fun inside => ?_, stop_printLeft runs.stop more⟩
  · rw [Print.printLeft, Print.pos_print, runs.pos, List.length_append]
  · have placed : p.Placed needed txt :=
      ⟨runs.pos, fun room => (runs.holds room).shows,
        fun room => (runs.holds room).written⟩
    exact placed.holds_printLeft inside

/-- With a zero in the buffer its string is shorter. -/
theorem length_string_lt {b : Buffer} (stop : ∃ i < needed, b.memory i = 0) :
    ({ needed := needed, buf := b } : Text).string.length < needed := by
  obtain ⟨i, place, zero⟩ := stop
  have front : cstr (b.memory.read 0 needed) <+: b.memory.read 0 needed :=
    List.takeWhile_prefix _
  have length := Memory.length_read b.memory 0 needed
  have most := front.length_le
  by_contra long
  have whole : cstr (b.memory.read 0 needed) = b.memory.read 0 needed := by
    apply front.eq_of_length
    have least : needed ≤ (cstr (b.memory.read 0 needed)).length :=
      not_lt.mp long
    omega
  have member : (0 : UInt8) ∈ b.memory.read 0 needed := by
    rw [← zero]
    exact List.mem_map.mpr ⟨i, List.mem_range.mpr place, by rw [Nat.zero_add]⟩
  rw [← whole] at member
  have nonzero := List.mem_takeWhile_imp member
  cases nonzero

/-- All is there if and only if there is room for it. -/
theorem Runs.complete_iff (runs : Runs needed p ([44].intercalate entries))
    (plain : ∀ entry ∈ entries, 0 ∉ entry) :
    Complete { needed := needed, buf := p.buf } entries ↔
      ([44].intercalate entries).length < needed := by
  constructor
  · intro complete
    rw [← complete.string]
    exact length_string_lt runs.stop
  · intro room
    have nonzero : 0 ∉ [44].intercalate entries :=
      Separated.not_mem_intercalate (by decide) plain
    have whole := (runs.holds room).string nonzero room
    exact ⟨whole.1, whole.2⟩

/-! ## The three texts -/

theorem complete_empty : Complete .empty [] :=
  ⟨Text.inside_empty, Text.string_empty⟩

theorem foldl_putService (sidtabok sidtabno : UInt64)
    (entries : List (Sidtab × Nat)) (s : Print × List UInt8) :
    entries.foldl (putService sidtabok sidtabno) s =
      (entries.flatMap fun entry =>
        (if sidtabok &&& sidtabBit entry.2 ≠ 0 then [entry.1.label] else []) ++
          (if sidtabno &&& sidtabBit entry.2 ≠ 0 then [33 :: entry.1.label]
            else [])).foldl (putItem (printLeft 1024)) s := by
  induction entries generalizing s with
  | nil => rfl
  | cons entry entries induction =>
      rw [List.foldl_cons, induction, List.flatMap_cons, List.foldl_append]
      congr 1
      unfold putService
      split_ifs <;> rfl

theorem runs_items (some : 0 < needed) (items : List (List UInt8)) :
    Runs needed (items.foldl (putItem (printLeft needed))
      (Print.start.store 0, [])).1 ([44].intercalate items) :=
  Print.foldl_putItem _ (runs_start some)
    fun _ _ dot _ item _ runs => runs.printLeft (dot ++ item)

/-- A label that is printed is that of a service. -/
theorem mem_services {table : List Sidtab} {sidtabok sidtabno : UInt64}
    {entry : List UInt8} (listed : entry ∈ services table sidtabok sidtabno) :
    ∃ sidtab ∈ table, entry = sidtab.label ∨ entry = 33 :: sidtab.label := by
  obtain ⟨⟨sidtab, i⟩, place, inside⟩ := List.mem_flatMap.mp listed
  refine ⟨sidtab, List.fst_mem_of_mem_zipIdx place, ?_⟩
  rcases List.mem_append.mp inside with ok | no
  · split at ok
    · exact .inl (List.mem_singleton.mp ok)
    · cases ok
  · split at no
    · exact .inr (List.mem_singleton.mp no)
    · cases no

theorem services_of_zero (table : List Sidtab) : services table 0 0 = [] := by
  simp [services]

theorem mkTService_complete_iff {table : List Sidtab}
    (plain : ∀ sidtab ∈ table, 0 ∉ sidtab.label)
    (sidtabok sidtabno : UInt64) :
    Complete (mkTService table sidtabok sidtabno)
        (services table sidtabok sidtabno) ↔
      ([44].intercalate (services table sidtabok sidtabno)).length < 1024 := by
  unfold mkTService
  by_cases none : table = [] ∨ sidtabok = 0 ∧ sidtabno = 0
  · have empty : services table sidtabok sidtabno = [] := by
      rcases none with rfl | ⟨rfl, rfl⟩
      · rfl
      · exact services_of_zero table
    rw [if_pos none, empty]
    exact iff_of_true complete_empty (by decide)
  · rw [if_neg none]
    have some : 0 < 1024 := by decide
    have runs := runs_items some (services table sidtabok sidtabno)
    unfold services at runs
    rw [← foldl_putService] at runs
    refine runs.complete_iff fun entry listed => ?_
    obtain ⟨sidtab, member, rfl | rfl⟩ := mem_services listed
    · exact plain sidtab member
    · rw [List.mem_cons, not_or]
      exact ⟨by decide, plain sidtab member⟩

theorem mkTAureader_complete_iff {labels : List (List UInt8)}
    (plain : ∀ label ∈ labels, 0 ∉ label) :
    Complete (mkTAureader labels) labels ↔
      ([44].intercalate labels).length < 256 := by
  unfold mkTAureader
  by_cases none : labels = []
  · subst none
    rw [if_pos rfl]
    exact iff_of_true complete_empty (by decide)
  · rw [if_neg none]
    exact (runs_items (by decide) labels).complete_iff plain

/-- A length is printed with at most six characters. -/
theorem length_decimal_le {n : Int} (small : n.natAbs < 10 ^ 5) :
    (decimal n).length ≤ 6 := by
  have digits : (padded 10 1 n.natAbs).length ≤ 5 :=
    length_padded_le (by decide) small (by decide)
  unfold decimal
  split
  · rw [List.length_cons]
    omega
  · omega

theorem natAbs_int16 (n : Int) : (int16 n).natAbs < 10 ^ 5 := by
  unfold int16
  have most := Int.bmod_lt (x := n) (m := 2 ^ 16) (by decide)
  have least := Int.le_bmod (x := n) (m := 2 ^ 16) (by decide)
  omega

theorem mem_blockemmBylen {value : List UInt8} {len : Int}
    (listed : len ∈ blockemmBylen value) : len.natAbs < 10 ^ 5 := by
  unfold blockemmBylen at listed
  dsimp only at listed
  rcases List.mem_append.mp listed with given | rest
  · obtain ⟨ptr, _, rfl⟩ := List.mem_map.mp given
    exact natAbs_int16 _
  · rw [List.eq_of_mem_replicate rest]
    decide

theorem foldl_putBylen (needed : Nat) (lens : List Int)
    (s : Print × List UInt8) :
    lens.foldl (putBylen needed) s =
      (lengths lens).foldl (putItem (Print.print needed)) s := by
  unfold lengths
  induction lens generalizing s with
  | nil => rfl
  | cons len lens induction =>
      rw [List.foldl_cons, induction, putBylen]
      by_cases set : len ≠ 0
      · simp [set]
      · simp [set]

/-- What was printed is written with its zero. -/
theorem written_print (p : Print) {size : Nat} {more : List UInt8}
    (room : more.length < size) :
    p.pos + more.length < (p.print size more).buf.written := by
  have some : size ≠ 0 := by omega
  have filled : (more ++ [0]).isEmpty = false := by simp
  unfold Print.print Print.snprintf
  rw [if_neg some, List.take_of_length_le (by omega)]
  show _ < (p.buf.write p.pos (more ++ [0])).written
  simp only [Buffer.write, filled, Bool.false_eq_true, if_false,
    List.length_append, List.length_singleton]
  omega

/-- The lengths are printed whole, wherever the buffer ends. -/
theorem holds_putBylen {lens : List Int}
    (small : ∀ len ∈ lens, len.natAbs < 10 ^ 5) (needed : Nat)
    (room : 7 < needed) :
    (lens.foldl (putBylen needed) (.start, [])).1.Holds
        ([44].intercalate (lengths lens)) ∧
      ([44].intercalate (lengths lens) ≠ [] →
        ([44].intercalate (lengths lens)).length <
          (lens.foldl (putBylen needed) (.start, [])).1.buf.written) := by
  rw [foldl_putBylen]
  refine Print.foldl_putItem
    (R := fun p txt => p.Holds txt ∧ (txt ≠ [] → txt.length < p.buf.written))
    _ ⟨Print.holds_start, fun some => absurd rfl some⟩ ?_
  rintro p txt dot short item listed ⟨holds, -⟩
  obtain ⟨len, member, rfl⟩ := List.mem_map.mp listed
  have few := length_decimal_le (small len (List.mem_filter.mp member).1)
  have fits : (dot ++ decimal len).length < needed := by
    rw [List.length_append]
    omega
  refine ⟨holds.print needed _ fits, fun _ => ?_⟩
  have written := written_print p fits
  rwa [holds.pos, ← List.length_append] at written

theorem mkTEmmbylen_complete_iff (value : List UInt8) :
    Complete (mkTEmmbylen (blockemmBylen value))
        (lengths (blockemmBylen value)) ↔
      ([44].intercalate (lengths (blockemmBylen value))).length < 41 := by
  obtain ⟨holds, written⟩ := holds_putBylen
    (fun len (listed : len ∈ blockemmBylen value) => mem_blockemmBylen listed)
    41 (by decide)
  constructor
  · intro complete
    by_cases none : [44].intercalate (lengths (blockemmBylen value)) = []
    · rw [none]
      decide
    · exact (written none).trans_le complete.inside
  · intro room
    have nonzero : 0 ∉ [44].intercalate (lengths (blockemmBylen value)) := by
      apply Separated.not_mem_intercalate (by decide)
      intro entry listed zero
      obtain ⟨len, member, rfl⟩ := List.mem_map.mp listed
      have small := mem_blockemmBylen (List.mem_filter.mp member).1
      have number := (Stat.isField_decimal (by omega)).number 0 zero
      cases number
    have whole := holds.string nonzero room
    exact ⟨whole.1, whole.2⟩

/-- Each of the three texts is complete if and only if its entries with their
commas are shorter than the buffer that is allocated for them. -/
theorem listTexts_complete_iff {table : List Sidtab}
    (plain : ∀ sidtab ∈ table, 0 ∉ sidtab.label) (sidtabok sidtabno : UInt64)
    {labels : List (List UInt8)} (plain' : ∀ label ∈ labels, 0 ∉ label)
    (value : List UInt8) :
    (Complete (mkTService table sidtabok sidtabno)
        (services table sidtabok sidtabno) ↔
      ([44].intercalate (services table sidtabok sidtabno)).length < 1024) ∧
    (Complete (mkTAureader labels) labels ↔
      ([44].intercalate labels).length < 256) ∧
    (Complete (mkTEmmbylen (blockemmBylen value))
        (lengths (blockemmBylen value)) ↔
      ([44].intercalate (lengths (blockemmBylen value))).length < 41) :=
  ⟨mkTService_complete_iff plain sidtabok sidtabno,
    mkTAureader_complete_iff plain', mkTEmmbylen_complete_iff value⟩

/-- A service. -/
def movies : Sidtab :=
  { label := ascii "movies", caid := [0x1702], provid := [], srvid := [1] }

theorem listTexts_complete_iff_one :
    (∀ sidtab ∈ [movies], 0 ∉ sidtab.label) ∧
      (∀ label ∈ [ascii "local"], 0 ∉ label) ∧
      (Complete (mkTAureader [ascii "local"]) [ascii "local"] ↔
        ([44].intercalate [ascii "local"]).length < 256) := by
  have plain : ∀ sidtab ∈ [movies], 0 ∉ sidtab.label := by
    rw [List.forall_mem_singleton]
    decide
  have plain' : ∀ label ∈ [ascii "local"], 0 ∉ label := by
    rw [List.forall_mem_singleton]
    decide
  exact ⟨plain, plain', (listTexts_complete_iff plain 1 0 plain' []).2.1⟩

/-- Ten lengths of five digits take more than the four characters for each that
are counted. -/
theorem long_lengths_overflow :
    ¬ (mkTEmmbylen (blockemmBylen ([44].intercalate
      (List.replicate 10 (ascii "10000"))))).Inside := by
  decide

end Oscam.ListTexts
