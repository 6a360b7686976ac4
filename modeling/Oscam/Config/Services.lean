import Oscam.Simples

/-!
# The services of a configuration

`init_sidtab` reads oscam.services: a line in brackets begins a section, and
the lines behind it fill its entry.  A service is known by its place in
`cfg.sidtab`, which is its bit in masks of 64 bits.
-/

namespace Oscam.Services

open Monitor (cstr trim splitAt ascii)

/-! ## Reading the file -/

/-- `MAX_SIDBITS`. -/
abbrev maxSidbits : Nat := 64

/-- `MAXLINESIZE`. -/
abbrev maxLineSize : Nat := 1024

/-- `struct s_sidtab`. -/
structure Sidtab where
  label : List UInt8
  caid : List Nat
  provid : List Nat
  srvid : List Nat
  deriving DecidableEq, Repr

/-- `chk_entry4sidtab`: the valid numbers of a list. -/
def chkEntry4sidtab (value : List UInt8) (b : Nat) : List Nat :=
  (strtok 44 value).filterMap fun ptr => a2i ptr b

/-- `chk_sidtab`. -/
def chkSidtab (token value : List UInt8) (sidtab : Sidtab) : Sidtab :=
  if token = ascii "caid" then
    { sidtab with caid := chkEntry4sidtab value 2 }
  else if token = ascii "provid" then
    { sidtab with provid := chkEntry4sidtab value 4 }
  else if token = ascii "ident" then
    { sidtab with provid := chkEntry4sidtab value 4 }
  else if token = ascii "srvid" then
    { sidtab with srvid := chkEntry4sidtab value 2 }
  else sidtab

/-- The part of `init_sidtab` for a line that is not the begin of a section. -/
def setting (token : List UInt8) (sidtab : Sidtab) : Sidtab :=
  match splitAt 61 token with
  | none => sidtab
  | some (key, value) =>
      chkSidtab (trim (strtolower key)) (trim (strtolower value)) sidtab

/-- A new entry; `token` is the line without the closing bracket. -/
def newSidtab (token : List UInt8) : Sidtab :=
  { label := csStrncpy 64 (strtolower (token.drop 1))
    caid := [], provid := [], srvid := [] }

/-- The state of the loop: the number of the section, the entries before the
current one, and the current one. -/
structure Loading where
  nr : Nat
  front : List Sidtab
  sidtab : Option Sidtab

/-- A line as `trim` leaves it. -/
def token (line : List UInt8) : List UInt8 := trim (cstr line)

/-- The line begins a section. -/
def isHeader (line : List UInt8) : Bool :=
  3 ≤ (token line).length && (token line).head? == some 91 &&
    (token line).getLast? == some 93

/-- A turn of the loop of `init_sidtab`. -/
def readLine (s : Loading) (line : List UInt8) : Loading :=
  if (token line).length < 3 then s
  else if isHeader line then
    let token := (token line).dropLast
    if s.nr > maxSidbits then
      -- rejected, but the current entry stays and the line is read on
      { s with nr := s.nr + 1, sidtab := s.sidtab.map (setting token) }
    else
      { nr := s.nr + 1
        front := s.front ++ s.sidtab.toList
        sidtab := some (newSidtab token) }
  else { s with sidtab := s.sidtab.map (setting (token line)) }

def start : Loading := { nr := 0, front := [], sidtab := none }

def Loading.entries (s : Loading) : List Sidtab := s.front ++ s.sidtab.toList

/-- `cfg.sidtab` after `init_sidtab`.  The old table is freed, but without a
section it stays where it was. -/
def initSidtab (old : List Sidtab) (file : List UInt8) : List Sidtab :=
  let loaded := (fgetsLines maxLineSize file).foldl readLine start
  if loaded.entries = [] then old else loaded.entries

/-! ## The masks -/

/-- `(SIDTABBITS)1<<i`; a shift uses the lower six bits of the count. -/
def sidtabBit (i : Nat) : UInt64 := 1 <<< UInt64.ofNat i

/-- A mask that `chk_services` fills: the bits of the services that one of the
labels names. -/
def serviceMask (named : List UInt8 → Sidtab → Bool) (labels : List UInt8)
    (table : List Sidtab) : UInt64 :=
  ((strtok 44 labels).map trim).foldl
    (fun mask ptr =>
      table.zipIdx.foldl
        (fun mask entry =>
          if named ptr entry.1 then mask ||| sidtabBit entry.2 else mask)
        mask)
    0

/-- A label names the service, or excludes it with an exclamation mark. -/
def named (ptr : List UInt8) (sidtab : Sidtab) : Bool := sidtab.label == ptr

def excluded (ptr : List UInt8) (sidtab : Sidtab) : Bool :=
  ptr.head? == some 33 && sidtab.label == ptr.drop 1

/-- `chk_services`: `sidok` and `sidno`. -/
def chkServices (labels : List UInt8) (table : List Sidtab) :
    UInt64 × UInt64 :=
  (serviceMask named labels table, serviceMask excluded labels table)

/-! ## The sections of a file -/

/-- The lines in front of the first section, and the sections with their
lines. -/
def sections : List (List UInt8) →
    List (List UInt8) × List (List UInt8 × List (List UInt8))
  | [] => ([], [])
  | line :: lines =>
      let rest := sections lines
      if isHeader line then ([], (line, rest.1) :: rest.2)
      else (line :: rest.1, rest.2)

def fileSections (file : List UInt8) :
    List (List UInt8 × List (List UInt8)) :=
  (sections (fgetsLines maxLineSize file)).2

/-- What a line of a section sets in its entry. -/
def applyLine (sidtab : Sidtab) (line : List UInt8) : Sidtab :=
  if (token line).length < 3 then sidtab else setting (token line) sidtab

/-- The entry that a section describes. -/
def entryOf (part : List UInt8 × List (List UInt8)) : Sidtab :=
  part.2.foldl applyLine (newSidtab (token part.1).dropLast)

/-- The bit of an entry is set if and only if a label says so. -/
def OwnBits (table : List Sidtab) (names : List UInt8 → Sidtab → Bool)
    (mask : List UInt8 → UInt64) : Prop :=
  ∀ (labels : List UInt8) (i : Nat) (entry : Sidtab),
    table[i]? = some entry →
      ((mask labels).toNat.testBit i = true ↔
        ∃ ptr ∈ (strtok 44 labels).map trim, names ptr entry = true)

/-- The table is that of the file: there are not too many entries, each is that
of its own section, and each has its own bit in the masks of every list of
labels. -/
structure OfFile (table : List Sidtab) (file : List UInt8) : Prop where
  limit : table.length ≤ maxSidbits
  own : ∀ (i : Nat) (entry : Sidtab), table[i]? = some entry →
    (fileSections file)[i]?.map entryOf = some entry
  sidok : OwnBits table named fun labels => (chkServices labels table).1
  sidno : OwnBits table excluded fun labels => (chkServices labels table).2

/-! ## Bits -/

theorem toNat_sidtabBit {i : Nat} (small : i < maxSidbits) :
    (sidtabBit i).toNat = 2 ^ i := by
  have count : i % 2 ^ 64 % 64 = i := by
    have low : i < 64 := small
    omega
  have room : 2 ^ i < 2 ^ 64 := Nat.pow_lt_pow_right (by decide) small
  unfold sidtabBit
  rw [UInt64.toNat_shiftLeft, UInt64.toNat_ofNat', count]
  show 1 <<< i % 2 ^ 64 = 2 ^ i
  rw [Nat.one_shiftLeft, Nat.mod_eq_of_lt room]

theorem testBit_or_sidtabBit (mask : UInt64) {i : Nat} (small : i < maxSidbits)
    (j : Nat) :
    (mask ||| sidtabBit i).toNat.testBit j = true ↔
      mask.toNat.testBit j = true ∨ i = j := by
  rw [UInt64.toNat_or, Nat.testBit_or, toNat_sidtabBit small,
    Nat.testBit_two_pow, Bool.or_eq_true, decide_eq_true_eq]

/-- One label sets the bits of the entries that it names. -/
theorem testBit_label (names : Sidtab → Bool) (j : Nat)
    (entries : List (Sidtab × Nat))
    (small : ∀ entry ∈ entries, entry.2 < maxSidbits) (mask : UInt64) :
    (entries.foldl
        (fun mask entry =>
          if names entry.1 then mask ||| sidtabBit entry.2 else mask)
        mask).toNat.testBit j = true ↔
      mask.toNat.testBit j = true ∨
        ∃ entry ∈ entries, names entry.1 = true ∧ entry.2 = j := by
  induction entries generalizing mask with
  | nil => simp
  | cons entry entries induction =>
      have rest := induction fun other member =>
        small other (List.mem_cons_of_mem _ member)
      rw [List.foldl_cons, rest]
      by_cases said : names entry.1 = true
      · rw [if_pos said,
          testBit_or_sidtabBit mask (small entry List.mem_cons_self)]
        simp only [List.exists_mem_cons_iff, said, true_and]
        exact or_assoc
      · rw [if_neg said]
        simp only [List.exists_mem_cons_iff, said, false_and, false_or,
          Bool.false_eq_true]

/-- All labels together set the bits of the entries that one of them names. -/
theorem testBit_labels (names : List UInt8 → Sidtab → Bool) {j : Nat}
    {entry : Sidtab} {table : List Sidtab} (few : table.length ≤ maxSidbits)
    (there : table[j]? = some entry) (ptrs : List (List UInt8))
    (mask : UInt64) :
    (ptrs.foldl
        (fun mask ptr =>
          table.zipIdx.foldl
            (fun mask entry =>
              if names ptr entry.1 then mask ||| sidtabBit entry.2 else mask)
            mask)
        mask).toNat.testBit j = true ↔
      mask.toNat.testBit j = true ∨ ∃ ptr ∈ ptrs, names ptr entry = true := by
  have small : ∀ other ∈ table.zipIdx, other.2 < maxSidbits := by
    intro other member
    have inside := (List.mem_zipIdx' member).1
    omega
  induction ptrs generalizing mask with
  | nil => simp
  | cons ptr ptrs induction =>
      have first : (∃ other ∈ table.zipIdx,
          names ptr other.1 = true ∧ other.2 = j) ↔ names ptr entry = true := by
        constructor
        · rintro ⟨⟨other, i⟩, member, said, rfl⟩
          have same := List.mem_zipIdx_iff_getElem?.mp member
          rw [there] at same
          cases Option.some.inj same
          exact said
        · intro said
          exact ⟨(entry, j), List.mem_zipIdx_iff_getElem?.mpr there, said,
            rfl⟩
      refine (induction _).trans ?_
      rw [testBit_label _ j _ small, first, List.exists_mem_cons_iff]
      exact or_assoc

/-- With at most 64 entries every entry has its own bit. -/
theorem ownBits {table : List Sidtab} (few : table.length ≤ maxSidbits)
    (names : List UInt8 → Sidtab → Bool) :
    OwnBits table names fun labels => serviceMask names labels table := by
  intro labels i entry there
  unfold serviceMask
  rw [testBit_labels names few there]
  simp

/-! ## The loop over the lines -/

/-- A text that begins with a bracket or is empty. -/
def Bracket (txt : List UInt8) : Prop := txt = [] ∨ txt.head? = some 91

theorem Bracket.of_prefix {first txt : List UInt8} (bracket : Bracket txt)
    (front : first <+: txt) : Bracket first := by
  obtain ⟨rest, rfl⟩ := front
  cases first with
  | nil => exact .inl rfl
  | cons c first =>
      right
      rcases bracket with empty | head
      · cases empty
      · exact head

theorem Bracket.strtolower {txt : List UInt8} (bracket : Bracket txt) :
    Bracket (strtolower txt) := by
  cases txt with
  | nil => exact .inl rfl
  | cons c txt =>
      rcases bracket with empty | head
      · cases empty
      · cases Option.some.inj head
        exact .inr rfl

theorem Bracket.trim {txt : List UInt8} (bracket : Bracket txt) :
    Bracket (trim txt) := by
  have front : (if txt.head? = some 32 then
      txt.dropWhile Monitor.isBlank else txt) = txt := by
    apply if_neg
    rcases bracket with rfl | head
    · simp
    · rw [head]
      decide
  unfold Monitor.trim
  rw [front]
  exact bracket.of_prefix (List.rdropWhile_prefix _ _)

/-- No keyword begins with a bracket. -/
theorem chkSidtab_of_bracket {key : List UInt8} (bracket : Bracket key)
    (value : List UInt8) (sidtab : Sidtab) :
    chkSidtab key value sidtab = sidtab := by
  have other (word : String) (letter : (ascii word).head? ≠ some 91)
      (some : ascii word ≠ []) : key ≠ ascii word := by
    rintro rfl
    rcases bracket with empty | head
    · exact some empty
    · exact letter head
  unfold chkSidtab
  rw [if_neg (other "caid" (by decide) (by decide)),
    if_neg (other "provid" (by decide) (by decide)),
    if_neg (other "ident" (by decide) (by decide)),
    if_neg (other "srvid" (by decide) (by decide))]

/-- The header of a rejected section sets nothing. -/
theorem setting_of_bracket {token : List UInt8} (bracket : Bracket token)
    (sidtab : Sidtab) : setting token sidtab = sidtab := by
  unfold setting
  split
  · rfl
  · rename_i key value parted
    obtain ⟨p, _place, cut⟩ := Option.map_eq_some_iff.mp parted
    obtain ⟨rfl, rfl⟩ := Prod.mk.inj cut
    have front := bracket.of_prefix (List.take_prefix p token)
    exact chkSidtab_of_bracket front.strtolower.trim _ _

theorem isHeader_iff (line : List UInt8) :
    isHeader line = true ↔
      3 ≤ (token line).length ∧ (token line).head? = some 91 ∧
        (token line).getLast? = some 93 := by
  unfold isHeader
  simp only [Bool.and_eq_true, decide_eq_true_eq, beq_iff_eq, and_assoc]

theorem readLine_of_not_header {line : List UInt8}
    (inside : isHeader line = false) (s : Loading) :
    readLine s line =
      { s with sidtab := s.sidtab.map fun entry => applyLine entry line } := by
  unfold readLine applyLine
  by_cases short : (token line).length < 3
  · simp only [short, if_true, Option.map_id']
  · simp only [short, inside, if_false, Bool.false_eq_true]

theorem readLine_rejected {line : List UInt8} (header : isHeader line = true)
    {s : Loading} (full : maxSidbits < s.nr) :
    readLine s line = { s with nr := s.nr + 1 } := by
  obtain ⟨long, head, _last⟩ := (isHeader_iff line).mp header
  have bracket : Bracket (token line).dropLast :=
    Bracket.of_prefix (.inr head) (List.dropLast_prefix _)
  have unchanged : s.sidtab.map (setting (token line).dropLast) =
      s.sidtab := by
    rw [show setting (token line).dropLast = id from
      funext (setting_of_bracket bracket), Option.map_id_fun, id]
  unfold readLine
  rw [if_neg (by omega), if_pos header, if_pos full, unchanged]

theorem readLine_accepted {line : List UInt8} (header : isHeader line = true)
    {s : Loading} (room : s.nr ≤ maxSidbits) :
    readLine s line =
      { nr := s.nr + 1
        front := s.front ++ s.sidtab.toList
        sidtab := some (newSidtab (token line).dropLast) } := by
  have long := ((isHeader_iff line).mp header).1
  unfold readLine
  rw [if_neg (by omega), if_pos header, if_neg (by omega)]

/-- The entries that the sections give while there is room for so many more;
the lines of a rejected section go to the current entry. -/
def loadSections : Nat → Option Sidtab →
    List (List UInt8 × List (List UInt8)) → List Sidtab
  | _, sidtab, [] => sidtab.toList
  | 0, sidtab, part :: parts =>
      loadSections 0 (sidtab.map fun entry => part.2.foldl applyLine entry)
        parts
  | room + 1, sidtab, part :: parts =>
      sidtab.toList ++ loadSections room (some (entryOf part)) parts

/-- What the loop over the lines loads, section by section. -/
theorem entries_foldl (lines : List (List UInt8)) (s : Loading) :
    (lines.foldl readLine s).entries =
      s.front ++ loadSections (maxSidbits + 1 - s.nr)
        (s.sidtab.map fun entry => (sections lines).1.foldl applyLine entry)
        (sections lines).2 := by
  induction lines generalizing s with
  | nil =>
      simp [sections, loadSections, Loading.entries]
  | cons line lines induction =>
      rw [List.foldl_cons, induction]
      by_cases header : isHeader line = true
      · simp only [sections, header, if_true, List.foldl_nil, Option.map_id']
        by_cases room : s.nr ≤ maxSidbits
        · have more : maxSidbits + 1 - s.nr =
              maxSidbits + 1 - (s.nr + 1) + 1 := by omega
          rw [readLine_accepted header room, more, loadSections]
          simp only [Option.map_some, List.append_assoc]
          rfl
        · have none : maxSidbits + 1 - s.nr = 0 := by omega
          have still : maxSidbits + 1 - (s.nr + 1) = 0 := by omega
          rw [readLine_rejected header (by omega), none, loadSections, still]
      · have inside := Bool.eq_false_iff.mpr header
        rw [readLine_of_not_header inside]
        simp only [sections, inside, Bool.false_eq_true, if_false,
          Option.map_map, List.foldl_cons]
        rfl

theorem loadSections_of_le {room : Nat} {sidtab : Option Sidtab}
    {parts : List (List UInt8 × List (List UInt8))}
    (few : parts.length ≤ room) :
    loadSections room sidtab parts = sidtab.toList ++ parts.map entryOf := by
  induction parts generalizing room sidtab with
  | nil => simp [loadSections]
  | cons part parts induction =>
      obtain ⟨left, rfl⟩ : ∃ left, room = left + 1 :=
        Nat.exists_eq_add_one.mpr (by
          rw [List.length_cons] at few
          omega)
      rw [loadSections, induction (by simpa using few)]
      rfl

theorem length_loadSections {room : Nat} {entry : Sidtab}
    {parts : List (List UInt8 × List (List UInt8))} :
    (loadSections room (some entry) parts).length =
      1 + min room parts.length := by
  induction parts generalizing room entry with
  | nil => simp [loadSections]
  | cons part parts induction =>
      cases room with
      | zero =>
          rw [loadSections, Option.map_some, induction]
          simp
      | succ room =>
          rw [loadSections, List.length_append, induction,
            Option.length_toList, List.length_cons]
          simp only [Option.isSome_some, if_true]
          omega

/-! ## The table of a file -/

/-- The entries of the sections, as far as there is room. -/
def loaded (file : List UInt8) : List Sidtab :=
  loadSections (maxSidbits + 1) none (fileSections file)

theorem initSidtab_eq (old : List Sidtab) (file : List UInt8) :
    initSidtab old file =
      if loaded file = [] then old else loaded file := by
  have entries : ((fgetsLines maxLineSize file).foldl readLine start).entries =
      loaded file := entries_foldl _ start
  unfold initSidtab
  dsimp only
  rw [entries]

theorem length_loaded (file : List UInt8) :
    (loaded file).length = min (maxSidbits + 1) (fileSections file).length := by
  unfold loaded
  cases fileSections file with
  | nil => rfl
  | cons part parts =>
      rw [loadSections, List.length_append, length_loadSections]
      simp only [Option.toList_none, List.length_nil, List.length_cons]
      omega

theorem loaded_of_le {file : List UInt8}
    (few : (fileSections file).length ≤ maxSidbits) :
    loaded file = (fileSections file).map entryOf := by
  unfold loaded
  rw [loadSections_of_le (by omega)]
  rfl

/-- The table is right if and only if the file has at most 64 sections, and one
at least when there was a table before. -/
theorem ofFile_initSidtab_iff (old : List Sidtab) (file : List UInt8) :
    OfFile (initSidtab old file) file ↔
      (fileSections file).length ≤ maxSidbits ∧
        (fileSections file = [] → old = []) := by
  have length := length_loaded file
  constructor
  · intro right
    have few : (fileSections file).length ≤ maxSidbits := by
      by_contra many
      have some : loaded file ≠ [] := by
        intro none
        rw [none, List.length_nil] at length
        omega
      have limit := right.limit
      rw [initSidtab_eq, if_neg some, length] at limit
      omega
    refine ⟨few, ?_⟩
    intro none
    have empty : loaded file = [] := by rw [loaded_of_le few, none]; rfl
    have own := right.own
    rw [initSidtab_eq, if_pos empty, none] at own
    cases old with
    | nil => rfl
    | cons entry old => cases own 0 entry rfl
  · rintro ⟨few, fresh⟩
    have table : initSidtab old file = (fileSections file).map entryOf := by
      rw [initSidtab_eq, loaded_of_le few]
      split
      · rename_i empty
        rw [empty]
        exact fresh (List.map_eq_nil_iff.mp empty)
      · rfl
    have limit : (initSidtab old file).length ≤ maxSidbits := by
      rw [table, List.length_map]
      exact few
    constructor
    · exact limit
    · intro i entry there
      rw [table, List.getElem?_map] at there
      exact there
    · exact ownBits limit named
    · exact ownBits limit excluded

/-- A file with 65 services and one more. -/
def crowded : List UInt8 :=
  (List.replicate 65 (ascii "[a]\nsrvid=0001\n")).flatten ++
    ascii "[b]\nsrvid=0002\n"

/-- The table of this file has 65 entries, and the last one has the list of the
section that was rejected. -/
theorem not_ofFile_crowded :
    ¬ OfFile (initSidtab [] crowded) crowded ∧
      (initSidtab [] crowded).length = 65 ∧
      (initSidtab [] crowded).getLast?.map Sidtab.srvid = some [2] := by
  have length : (initSidtab [] crowded).length = 65 := by decide +kernel
  refine ⟨?_, length, by decide +kernel⟩
  intro right
  have limit : (initSidtab [] crowded).length ≤ 64 := right.limit
  omega

end Oscam.Services
