import Oscam.Config.Services
import Oscam.Lib.Memory
import Oscam.Numerals

/-!
# The names of services

`init_srvid` reads oscam.srvid.  The texts of an entry are put together in a
work buffer and copied to a block of the entry, except for those that the
string cache has from an earlier entry.
-/

namespace Oscam.Srvids

open Monitor (cstr trim isBlank splitAt ascii)
open Services (maxLineSize)

/-- `s_srvid`; `texts` are the strings of `prov`, `name`, `type` and `desc`, as
many of these as are not null. -/
structure Srvid where
  srvid : Nat
  caid : List Nat
  texts : List (List UInt8)
  deriving DecidableEq, Repr

namespace Srvid

def prov (srvid : Srvid) : Option (List UInt8) := srvid.texts[0]?

def name (srvid : Srvid) : Option (List UInt8) := srvid.texts[1]?

def type (srvid : Srvid) : Option (List UInt8) := srvid.texts[2]?

def desc (srvid : Srvid) : Option (List UInt8) := srvid.texts[3]?

end Srvid

/-! ## The texts of an entry -/

/-- `stringcache`: the texts under each checksum. -/
abbrev StringCache : Type := Nat → List (List UInt8)

def checksum (txt : List UInt8) : Nat :=
  (txt.foldl (fun pos c => pos + c.toNat) 0) % 1024

/-- Where a text is: `searchptr[i]` or `offset[i]`. -/
inductive Place
  | searchptr (txt : List UInt8)
  | offset (off : Nat)
  deriving DecidableEq, Repr

/-- The state of the loop over the fields. -/
structure Copying where
  tmptxt : Buffer
  len : Nat
  places : List Place

/-- What `cs_strncpy` writes at `tmptxt+len`.  The room `sizeof(tmptxt)-len` is
a `size_t`, and so is one less than it. -/
def copied (len : Nat) (txt : List UInt8) : List UInt8 :=
  txt.take (if len < 128 then 127 - len else 2 ^ 64 + 127 - len) ++ [0]

/-- A turn of the loop over the fields.  A field is looked up as it stands in
the line, but copied without its blanks. -/
def copyField (stringcache : StringCache) (s : Copying) (ptr1 : List UInt8) :
    Copying :=
  if ptr1 ∈ stringcache (checksum ptr1) then
    { s with places := s.places ++ [.searchptr ptr1] }
  else
    { tmptxt := s.tmptxt.write s.len (copied s.len (trim ptr1))
      len := s.len + (trim ptr1).length + 1
      places := s.places ++ [.offset s.len] }

/-- The string at a place. -/
def Place.text (block : List UInt8) : Place → List UInt8
  | .searchptr txt => txt
  | .offset off => cstr (block.drop off)

/-- A text that was copied goes to the cache. -/
def storeText (block : List UInt8) (stringcache : StringCache) :
    Place → StringCache
  | .searchptr _ => stringcache
  | .offset off =>
      let tmp := cstr (block.drop off)
      Function.update stringcache (checksum tmp)
        (stringcache (checksum tmp) ++ [tmp])

/-! ## Reading the file -/

/-- `dyn_word_atob` in a `uint16_t`. -/
def wordOf (asc : List UInt8) : Nat := (dynWordAtob asc % 2 ^ 16).toNat

/-- The state of the loop over the lines.  `tmptxt` keeps its bytes from one
line to the next; `entries` are in the order of the file, and those with the
same upper four bits of `srvid` make one of the lists of `cfg.srvid`. -/
structure Loading where
  tmptxt : Buffer
  stringcache : StringCache
  entries : List Srvid

/-- The two parts of a line that has an entry. -/
def parts (line : List UInt8) : Option (List UInt8 × List UInt8) :=
  let tmp := trim (cstr line)
  if tmp.head? = some 35 then none
  else if tmp.length < 6 then none
  else splitAt 124 tmp

/-- The body of the loop; `none` when it follows the null pointer that `strchr`
returns for a line without a colon. -/
def loadEntry (s : Loading) (part : List UInt8 × List UInt8) :
    Option Loading :=
  let copying := ((strtok 124 part.2).take 4).foldl (copyField s.stringcache)
    { tmptxt := s.tmptxt, len := 0, places := [] }
  let block := copying.tmptxt.memory.read 0 copying.len
  match splitAt 58 part.1 with
  | none => none
  | some (token, srvidasc) =>
      some
        { tmptxt := copying.tmptxt
          stringcache := copying.places.foldl (storeText block) s.stringcache
          entries := s.entries ++
            [{ srvid := wordOf srvidasc
               caid := ((strtok 44 token).take 10).map wordOf
               texts := copying.places.map (·.text block) }] }

/-- The entries of a file. -/
def fileEntries (file : List UInt8) : List (List UInt8 × List UInt8) :=
  (fgetsLines maxLineSize file).filterMap parts

/-- `init_srvid`; `tmptxt` is what is in the memory of the work buffer. -/
def initSrvid (tmptxt : Memory) (file : List UInt8) : Option Loading :=
  (fileEntries file).foldlM loadEntry
    { tmptxt := .fresh tmptxt, stringcache := fun _ => [], entries := [] }

/-! ## What is asked -/

/-- The first four fields of a line. -/
def fields (part : List UInt8 × List UInt8) : List (List UInt8) :=
  (part.2.splitOn 124).take 4

/-- The texts of the caids in front of the colon. -/
def caidTexts (part : List UInt8 × List UInt8) : List (List UInt8) :=
  strtok 44 (part.1.takeWhile (· ≠ 58))

/-- The entry that a line describes. -/
def wanted (part : List UInt8 × List UInt8) : Srvid :=
  { srvid := wordOf ((part.1.dropWhile (· ≠ 58)).drop 1)
    caid := (caidTexts part).map wordOf
    texts := (fields part).map trim }

/-- No null pointer is followed, nothing is written behind the work buffer, and
every entry is that of its line. -/
def Right (tmptxt : Memory) (file : List UInt8) : Prop :=
  ∃ s, initSrvid tmptxt file = some s ∧ s.tmptxt.written ≤ 128 ∧
    s.entries = (fileEntries file).map wanted

/-- The texts of earlier lines. -/
def known (earlier : List (List UInt8 × List UInt8)) : List (List UInt8) :=
  (earlier.flatMap fields).map trim

/-- The line has a colon and at most ten caids, and the fields that are not
texts of earlier lines have room in the work buffer. -/
structure Fits (earlier : List (List UInt8 × List UInt8))
    (part : List UInt8 × List UInt8) : Prop where
  colon : 58 ∈ part.1
  caids : (caidTexts part).length ≤ 10
  room : (((fields part).filter (· ∉ known earlier)).map
    fun field => (trim field).length + 1).sum ≤ 128

/-! ## Copying the fields -/

variable {txt field block : List UInt8} {c : StringCache}
  {fs : List (List UInt8)} {b : Buffer}

/-- The loop over the fields. -/
def copyFields (c : StringCache) (b : Buffer) (fs : List (List UInt8)) :
    Copying :=
  fs.foldl (copyField c) { tmptxt := b, len := 0, places := [] }

/-- The fields that are not in the cache, one behind the other. -/
def blockOf (c : StringCache) (fs : List (List UInt8)) : List UInt8 :=
  (fs.filter fun field => field ∉ c (checksum field)).flatMap fun field =>
    trim field ++ [0]

theorem copyFields_append (c : StringCache) (b : Buffer)
    (fs : List (List UInt8)) (field : List UInt8) :
    copyFields c b (fs ++ [field]) = copyField c (copyFields c b fs) field := by
  unfold copyFields
  rw [List.foldl_append, List.foldl_cons, List.foldl_nil]

theorem blockOf_found (found : field ∈ c (checksum field))
    (fs : List (List UInt8)) : blockOf c (fs ++ [field]) = blockOf c fs := by
  simp [blockOf, found]

theorem blockOf_missing (missing : field ∉ c (checksum field))
    (fs : List (List UInt8)) :
    blockOf c (fs ++ [field]) = blockOf c fs ++ (trim field ++ [0]) := by
  simp [blockOf, missing]

theorem length_blockOf (c : StringCache) (fs : List (List UInt8)) :
    (blockOf c fs).length =
      ((fs.filter fun field => field ∉ c (checksum field)).map fun field =>
        (trim field).length + 1).sum := by
  unfold blockOf
  rw [List.length_flatMap]
  simp

theorem len_copyFields (c : StringCache) (b : Buffer)
    (fs : List (List UInt8)) :
    (copyFields c b fs).len = (blockOf c fs).length := by
  induction fs using List.reverseRecOn with
  | nil => rfl
  | append_singleton fs field induction =>
      rw [copyFields_append, copyField]
      by_cases found : field ∈ c (checksum field)
      · rw [if_pos found, blockOf_found found]
        exact induction
      · rw [if_neg found, blockOf_missing found, List.length_append,
          List.length_append, ← induction]
        rfl

/-- As long as there is room, the texts stand in the buffer. -/
theorem copyFields_block (room : (blockOf c fs).length ≤ 128)
    (before : b.written ≤ 128) :
    (copyFields c b fs).tmptxt.memory.read 0 (blockOf c fs).length =
        blockOf c fs ∧
      (copyFields c b fs).tmptxt.written ≤ 128 := by
  induction fs using List.reverseRecOn with
  | nil => exact ⟨rfl, before⟩
  | append_singleton fs field induction =>
      rw [copyFields_append, copyField]
      by_cases found : field ∈ c (checksum field)
      · rw [blockOf_found found] at room ⊢
        rw [if_pos found]
        exact induction room
      · rw [blockOf_missing found] at room ⊢
        have total : (blockOf c fs ++ (trim field ++ [0])).length =
            (blockOf c fs).length + ((trim field).length + 1) := by simp
        obtain ⟨bytes, written⟩ := induction (by omega)
        have whole : copied (blockOf c fs).length (trim field) =
            trim field ++ [0] := by
          unfold copied
          rw [if_pos (by omega), List.take_of_length_le (by omega)]
        rw [if_neg found, len_copyFields, whole]
        constructor
        · have filled : (trim field ++ [0]).isEmpty = false := by simp
          simp only [Buffer.write, filled, Bool.false_eq_true, if_false]
          exact Memory.read_write_behind bytes _
        · apply Buffer.written_write_le written
          rw [← List.length_append]
          exact room

/-- Where the text of a field is. -/
def At (c : StringCache) (block : List UInt8) (place : Place)
    (field : List UInt8) : Prop :=
  (field ∈ c (checksum field) ∧ place = .searchptr field) ∨
    field ∉ c (checksum field) ∧ ∃ front back,
      block = front ++ (trim field ++ 0 :: back) ∧
        place = .offset front.length

theorem At.mono {place : Place} (at_ : At c block place field)
    (more : List UInt8) : At c (block ++ more) place field := by
  rcases at_ with found | ⟨missing, front, back, rfl, placed⟩
  · exact .inl found
  · refine .inr ⟨missing, front, back ++ more, ?_, placed⟩
    simp

theorem at_copyFields (c : StringCache) (b : Buffer)
    (fs : List (List UInt8)) :
    List.Forall₂ (At c (blockOf c fs)) (copyFields c b fs).places fs := by
  induction fs using List.reverseRecOn with
  | nil => exact List.Forall₂.nil
  | append_singleton fs field induction =>
      rw [copyFields_append, copyField]
      by_cases found : field ∈ c (checksum field)
      · rw [if_pos found, blockOf_found found]
        exact List.rel_append induction
          (.cons (.inl ⟨found, rfl⟩) .nil)
      · rw [if_neg found, blockOf_missing found]
        refine List.rel_append (induction.imp fun place field at_ =>
          at_.mono _) (.cons (.inr ⟨found, blockOf c fs, [], rfl, ?_⟩) .nil)
        rw [len_copyFields]

theorem At.text {place : Place} (at_ : At c block place field)
    (plain : 0 ∉ field)
    (trimmed : field ∈ c (checksum field) → trim field = field) :
    place.text block = trim field := by
  rcases at_ with ⟨found, rfl⟩ | ⟨missing, front, back, rfl, rfl⟩
  · exact (trimmed found).symm
  · show cstr (List.drop front.length _) = _
    rw [List.drop_left]
    exact cstr_append_zero
      (fun zero => plain ((trim_sublist field).mem zero)) back

/-- With the block as it should be, the texts are those of the fields. -/
theorem texts_copyFields (b : Buffer)
    (plain : ∀ field ∈ fs, 0 ∉ field)
    (trimmed : ∀ p, ∀ txt ∈ c p, trim txt = txt) :
    (copyFields c b fs).places.map (·.text (blockOf c fs)) = fs.map trim := by
  have at_ := at_copyFields c b fs
  generalize (copyFields c b fs).places = places at at_
  generalize blockOf c fs = block at at_
  induction at_ with
  | nil => rfl
  | cons first rest induction =>
      rw [List.map_cons, List.map_cons,
        first.text (plain _ List.mem_cons_self) (trimmed _ _),
        induction fun field member =>
          plain field (List.mem_cons_of_mem _ member)]

/-- The text of the last field is cut off if the buffer ends in it. -/
theorem text_cut {o : Nat} {m : Memory} (plain : 0 ∉ txt) (inside : o < 128)
    (size : Nat) (long : 128 - o ≤ size) (short : 128 - o ≤ txt.length) :
    cstr ((m.write o (copied o txt)).read o size) ≠ txt := by
  have cut : copied o txt = txt.take (127 - o) ++ [0] := by
    unfold copied
    rw [if_pos inside]
  have length : (copied o txt).length = 128 - o := by
    rw [cut, List.length_append, List.length_take, List.length_singleton]
    omega
  obtain ⟨rest, rfl⟩ := Nat.exists_eq_add_of_le long
  have read : (m.write o (copied o txt)).read o (128 - o) = copied o txt := by
    rw [← length]
    exact Memory.read_write m o _
  intro whole
  rw [Memory.read_add, read, cut, List.append_assoc, List.singleton_append,
    cstr_append_zero fun zero => plain (List.mem_of_mem_take zero)] at whole
  have size := congrArg List.length whole
  rw [List.length_take] at size
  omega

theorem drop_read (m : Memory) (front back : Nat) :
    (m.read 0 (front + back)).drop front = m.read front back := by
  rw [Memory.read_add, Nat.zero_add]
  exact List.drop_left' (Memory.length_read m 0 front)

/-- Only with room for all of them the texts can be right. -/
theorem room_of_texts (plain : ∀ field ∈ fs, 0 ∉ field)
    (inside : (copyFields c b fs).tmptxt.written ≤ 128)
    (texts : (copyFields c b fs).places.map (·.text
      ((copyFields c b fs).tmptxt.memory.read 0 (copyFields c b fs).len)) =
        fs.map trim) :
    (blockOf c fs).length ≤ 128 := by
  induction fs using List.reverseRecOn with
  | nil => exact Nat.zero_le _
  | append_singleton fs field induction =>
      rw [copyFields_append, copyField] at inside texts
      by_cases found : field ∈ c (checksum field)
      · rw [if_pos found] at inside texts
        rw [blockOf_found found]
        rw [List.map_append, List.map_append] at texts
        exact induction (fun other member =>
          plain other (List.mem_append_left _ member)) inside
            (List.append_inj_left' texts rfl)
      · rw [if_neg found] at inside texts
        rw [List.map_append, List.map_append] at texts
        have last := List.append_inj_right' texts rfl
        simp only [List.map_cons, List.map_nil, List.cons.injEq,
          and_true] at last
        rw [len_copyFields] at inside last
        have filled : (copied (blockOf c fs).length (trim field)).isEmpty =
            false := by simp [copied]
        simp only [Buffer.write, filled, Bool.false_eq_true, if_false]
          at inside last
        have some : 1 ≤ (copied (blockOf c fs).length (trim field)).length := by
          simp [copied]
        have place : (blockOf c fs).length < 128 := by omega
        by_contra more
        rw [blockOf_missing found, List.length_append, List.length_append,
          List.length_singleton] at more
        rw [Nat.add_assoc] at last
        dsimp only [Place.text] at last
        rw [drop_read] at last
        exact text_cut (fun zero => plain field (by simp)
          ((trim_sublist field).mem zero)) place _ (by omega) (by omega) last

/-! ## The cache -/

/-- The cache has the texts of the earlier lines, each under its checksum. -/
def Caches (c : StringCache) (earlier : List (List UInt8 × List UInt8)) :
    Prop :=
  ∀ p txt, txt ∈ c p ↔ checksum txt = p ∧ txt ∈ known earlier

variable {earlier : List (List UInt8 × List UInt8)}
  {part : List UInt8 × List UInt8}

theorem Caches.mem_iff (caches : Caches c earlier) (txt : List UInt8) :
    txt ∈ c (checksum txt) ↔ txt ∈ known earlier := by
  rw [caches]
  exact and_iff_right rfl

theorem Caches.trimmed (caches : Caches c earlier) :
    ∀ p, ∀ txt ∈ c p, trim txt = txt := by
  intro p txt listed
  obtain ⟨field, _, rfl⟩ := List.mem_map.mp ((caches p txt).mp listed).2
  exact trim_trim field

theorem mem_foldl_storeText (places : List Place) (c : StringCache) (p : Nat)
    (txt : List UInt8) :
    txt ∈ places.foldl (storeText block) c p ↔
      txt ∈ c p ∨ checksum txt = p ∧
        ∃ off, .offset off ∈ places ∧ cstr (block.drop off) = txt := by
  induction places generalizing c with
  | nil => simp
  | cons place places induction =>
      rw [List.foldl_cons, induction]
      cases place with
      | searchptr found => simp [storeText]
      | offset off =>
          have stored : txt ∈ storeText block c (.offset off) p ↔
              txt ∈ c p ∨ checksum txt = p ∧ cstr (block.drop off) = txt := by
            unfold storeText
            dsimp only
            by_cases here : p = checksum (cstr (block.drop off))
            · subst here
              rw [Function.update_self, List.mem_append, List.mem_singleton]
              constructor
              · rintro (there | rfl)
                · exact .inl there
                · exact .inr ⟨rfl, rfl⟩
              · rintro (there | ⟨_, rfl⟩)
                · exact .inl there
                · exact .inr rfl
            · rw [Function.update_of_ne here]
              constructor
              · exact .inl
              · rintro (there | ⟨sum, rfl⟩)
                · exact there
                · exact absurd sum.symm here
          rw [stored]
          simp only [List.mem_cons, Place.offset.injEq]
          constructor
          · rintro ((there | ⟨sum, same⟩) | ⟨sum, other, member, same⟩)
            · exact .inl there
            · exact .inr ⟨sum, off, .inl rfl, same⟩
            · exact .inr ⟨sum, other, .inr member, same⟩
          · rintro (there | ⟨sum, other, rfl | member, same⟩)
            · exact .inl (.inl there)
            · exact .inl (.inr ⟨sum, same⟩)
            · exact .inr ⟨sum, other, member, same⟩

theorem known_append (earlier : List (List UInt8 × List UInt8))
    (part : List UInt8 × List UInt8) :
    known (earlier ++ [part]) = known earlier ++ (fields part).map trim := by
  simp [known]

theorem exists_place {places : List Place}
    (all : List.Forall₂ (At c block) places fs) (member : field ∈ fs) :
    ∃ place ∈ places, At c block place field := by
  induction all with
  | nil => cases member
  | cons first rest induction =>
      rcases List.mem_cons.mp member with rfl | later
      · exact ⟨_, List.mem_cons_self, first⟩
      · obtain ⟨place, there, at_⟩ := induction later
        exact ⟨place, List.mem_cons_of_mem _ there, at_⟩

theorem exists_field {places : List Place} {place : Place}
    (all : List.Forall₂ (At c block) places fs) (member : place ∈ places) :
    ∃ field ∈ fs, At c block place field := by
  induction all with
  | nil => cases member
  | cons first rest induction =>
      rcases List.mem_cons.mp member with rfl | later
      · exact ⟨_, List.mem_cons_self, first⟩
      · obtain ⟨field, there, at_⟩ := induction later
        exact ⟨field, List.mem_cons_of_mem _ there, at_⟩

/-- The texts of the line are in the cache afterwards. -/
theorem caches_loadEntry (caches : Caches c earlier) (b : Buffer)
    (plain : ∀ field ∈ fields part, 0 ∉ field) :
    Caches ((copyFields c b (fields part)).places.foldl
      (storeText (blockOf c (fields part))) c) (earlier ++ [part]) := by
  have all := at_copyFields c b (fields part)
  intro p txt
  rw [mem_foldl_storeText, caches, known_append, List.mem_append,
    List.mem_map, ← and_or_left]
  refine and_congr_right fun _ => ?_
  constructor
  · rintro (old | ⟨off, placed, text⟩)
    · exact .inl old
    · obtain ⟨field, listed, at_⟩ := exists_field all placed
      have same := at_.text (plain field listed)
        (caches.trimmed _ field)
      exact .inr ⟨field, listed, same.symm.trans text⟩
  · rintro (old | ⟨field, listed, rfl⟩)
    · exact .inl old
    · obtain ⟨place, placed, at_⟩ := exists_place all listed
      have text := at_.text (plain field listed) (caches.trimmed _ field)
      rcases at_ with ⟨found, _⟩ | ⟨_, front, _, _, rfl⟩
      · left
        rw [caches.trimmed _ field found]
        exact (caches.mem_iff field).mp found
      · exact .inr ⟨front.length, placed, text⟩

/-! ## A line -/

/-- `strchr` in front of a separator and behind it. -/
theorem splitAt_of_mem {separator : UInt8} (member : separator ∈ txt) :
    splitAt separator txt =
      some (txt.takeWhile (· ≠ separator),
        (txt.dropWhile (· ≠ separator)).drop 1) := by
  obtain ⟨front, back, rfl, before⟩ := List.eq_append_cons_of_mem member
  have pass : ∀ c ∈ front, decide (c ≠ separator) = true := by
    intro c listed
    apply decide_eq_true
    rintro rfl
    exact before listed
  rw [splitAt_append before, List.takeWhile_append_of_pos pass,
    List.dropWhile_append_of_pos pass]
  simp

/-- What has been loaded from the lines so far, all of it right. -/
structure Loaded (earlier : List (List UInt8 × List UInt8)) (s : Loading) :
    Prop where
  written : s.tmptxt.written ≤ 128
  caches : Caches s.stringcache earlier
  entries : s.entries = earlier.map wanted

/-- No field is empty, and none has a zero. -/
structure Filled (part : List UInt8 × List UInt8) : Prop where
  some : [] ∉ part.2.splitOn 124
  plain : 0 ∉ part.2

theorem Filled.strtok (filled : Filled part) :
    (strtok 124 part.2).take 4 = fields part := by
  unfold fields Oscam.strtok
  rw [List.filter_eq_self.mpr]
  intro field listed
  apply decide_eq_true
  rintro rfl
  exact filled.some listed

theorem Filled.fields (filled : Filled part) :
    ∀ field ∈ fields part, 0 ∉ field := by
  intro field listed zero
  exact filled.plain
    (Separated.mem_of_mem_splitOn (List.mem_of_mem_take listed) 0 zero)

/-- What a line with a colon adds. -/
theorem loadEntry_of_colon (filled : Filled part) (colon : 58 ∈ part.1)
    (s : Loading) :
    loadEntry s part = some
      { tmptxt := (copyFields s.stringcache s.tmptxt (fields part)).tmptxt
        stringcache :=
          (copyFields s.stringcache s.tmptxt (fields part)).places.foldl
            (storeText
              ((copyFields s.stringcache s.tmptxt
                (fields part)).tmptxt.memory.read 0
                (copyFields s.stringcache s.tmptxt (fields part)).len))
            s.stringcache
        entries := s.entries ++
          [{ srvid := (wanted part).srvid
             caid := ((caidTexts part).take 10).map wordOf
             texts :=
              (copyFields s.stringcache s.tmptxt (fields part)).places.map
                (·.text ((copyFields s.stringcache s.tmptxt
                  (fields part)).tmptxt.memory.read 0
                  (copyFields s.stringcache s.tmptxt
                    (fields part)).len)) }] } := by
  unfold loadEntry
  rw [filled.strtok, splitAt_of_mem colon]
  rfl

theorem loadEntry_of_no_colon (none : 58 ∉ part.1) (s : Loading) :
    loadEntry s part = Option.none := by
  unfold loadEntry
  rw [splitAt_of_not_mem none]

theorem take_map_eq_iff {n : Nat} {α β : Type} (f : α → β) (xs : List α) :
    (xs.take n).map f = xs.map f ↔ xs.length ≤ n := by
  constructor
  · intro same
    have length := congrArg List.length same
    rw [List.length_map, List.length_map, List.length_take] at length
    omega
  · intro few
    rw [List.take_of_length_le few]

/-- The fields that are copied are those that the earlier lines do not have. -/
theorem Caches.length_blockOf (caches : Caches c earlier)
    (fs : List (List UInt8)) :
    (blockOf c fs).length =
      ((fs.filter (· ∉ known earlier)).map fun field =>
        (trim field).length + 1).sum := by
  rw [Srvids.length_blockOf]
  simp only [caches.mem_iff]

/-- A line that fits is loaded as it should be. -/
theorem loaded_loadEntry (filled : Filled part) {s : Loading}
    (loaded : Loaded earlier s) (fits : Fits earlier part) :
    ∃ t, loadEntry s part = some t ∧ Loaded (earlier ++ [part]) t := by
  have room : (blockOf s.stringcache (fields part)).length ≤ 128 := by
    rw [loaded.caches.length_blockOf]
    exact fits.room
  obtain ⟨bytes, written⟩ := copyFields_block room loaded.written
  have texts := texts_copyFields s.tmptxt filled.fields loaded.caches.trimmed
  have caches := caches_loadEntry loaded.caches s.tmptxt filled.fields
  rw [loadEntry_of_colon filled fits.colon, len_copyFields, bytes, texts]
  refine ⟨_, rfl, written, caches, ?_⟩
  rw [List.map_append, ← loaded.entries, List.map_singleton,
    (take_map_eq_iff _ _).mpr fits.caids]
  rfl

/-- Only a line that fits is loaded as it should be. -/
theorem fits_of_loadEntry (filled : Filled part) {s t : Loading}
    (loaded : Loaded earlier s) (step : loadEntry s part = some t)
    (inside : t.tmptxt.written ≤ 128)
    (entries : t.entries = (earlier ++ [part]).map wanted) :
    Fits earlier part := by
  have colon : 58 ∈ part.1 := by
    by_contra none
    rw [loadEntry_of_no_colon none] at step
    cases step
  rw [loadEntry_of_colon filled colon] at step
  cases step
  rw [List.map_append, ← loaded.entries, List.map_singleton] at entries
  have last := List.append_cancel_left entries
  rw [List.cons.injEq] at last
  have caid := congrArg Srvid.caid last.1
  have texts := congrArg Srvid.texts last.1
  refine ⟨colon, (take_map_eq_iff wordOf _).mp caid, ?_⟩
  rw [← loaded.caches.length_blockOf]
  exact room_of_texts filled.fields inside texts

/-! ## All lines -/

/-- The state before any line. -/
def startLoading (tmptxt : Memory) : Loading :=
  { tmptxt := .fresh tmptxt, stringcache := fun _ => [], entries := [] }

theorem loaded_start (tmptxt : Memory) : Loaded [] (startLoading tmptxt) where
  written := Nat.zero_le _
  caches p txt := by simp [startLoading, known]
  entries := rfl

/-- All lines fit. -/
def AllFit (lines : List (List UInt8 × List UInt8)) : Prop :=
  ∀ front part back, lines = front ++ part :: back → Fits front part

theorem allFit_append (lines : List (List UInt8 × List UInt8))
    (part : List UInt8 × List UInt8) :
    AllFit (lines ++ [part]) ↔ AllFit lines ∧ Fits lines part :=
  Separated.forall_split_append_singleton

theorem written_copyFields (c : StringCache) (b : Buffer)
    (fs : List (List UInt8)) :
    b.written ≤ (copyFields c b fs).tmptxt.written := by
  induction fs using List.reverseRecOn with
  | nil => exact le_refl _
  | append_singleton fs field induction =>
      rw [copyFields_append, copyField]
      split
      · exact induction
      · refine induction.trans ?_
        unfold Buffer.write
        split
        · exact le_refl _
        · exact le_max_left _ _

/-- What was written and stored before a line stays. -/
theorem loadEntry_keeps (filled : Filled part) {s t : Loading}
    (step : loadEntry s part = some t) :
    s.tmptxt.written ≤ t.tmptxt.written ∧
      ∃ entry, t.entries = s.entries ++ [entry] := by
  have colon : 58 ∈ part.1 := by
    by_contra none
    rw [loadEntry_of_no_colon none] at step
    cases step
  rw [loadEntry_of_colon filled colon] at step
  cases step
  exact ⟨written_copyFields _ _ _, _, rfl⟩

/-- The lines that fit are loaded as they should be. -/
theorem loaded_of_allFit {lines : List (List UInt8 × List UInt8)}
    (filled : ∀ part ∈ lines, Filled part) (tmptxt : Memory)
    (all : AllFit lines) :
    ∃ s, lines.foldlM loadEntry (startLoading tmptxt) = some s ∧
      Loaded lines s := by
  induction lines using List.reverseRecOn with
  | nil => exact ⟨_, rfl, loaded_start tmptxt⟩
  | append_singleton lines part induction =>
      obtain ⟨front, last⟩ := (allFit_append lines part).mp all
      obtain ⟨s, run, loaded⟩ := induction
        (fun other member => filled other (List.mem_append_left _ member)) front
      obtain ⟨t, step, loaded'⟩ :=
        loaded_loadEntry (filled part (by simp)) loaded last
      refine ⟨t, ?_, loaded'⟩
      rw [List.foldlM_append, run]
      simpa using step

/-- Lines that are loaded as they should be fit. -/
theorem allFit_of_loaded {lines : List (List UInt8 × List UInt8)}
    (filled : ∀ part ∈ lines, Filled part) {tmptxt : Memory} {t : Loading}
    (run : lines.foldlM loadEntry (startLoading tmptxt) = some t)
    (inside : t.tmptxt.written ≤ 128)
    (entries : t.entries = lines.map wanted) : AllFit lines := by
  induction lines using List.reverseRecOn generalizing t with
  | nil =>
      intro front part back split
      have length := congrArg List.length split
      simp at length
  | append_singleton lines part induction =>
      have others : ∀ other ∈ lines, Filled other := fun other member =>
        filled other (List.mem_append_left _ member)
      rw [List.foldlM_append] at run
      obtain ⟨s, before, step⟩ := Option.bind_eq_some_iff.mp run
      replace step : loadEntry s part = some t := by simpa using step
      obtain ⟨grows, entry, longer⟩ :=
        loadEntry_keeps (filled part (by simp)) step
      have stored : s.entries = lines.map wanted := by
        rw [longer, List.map_append] at entries
        exact List.append_inj_left' entries rfl
      have front := induction others before (grows.trans inside) stored
      obtain ⟨s', run', loaded⟩ := loaded_of_allFit others tmptxt front
      rw [before] at run'
      cases run'
      exact (allFit_append lines part).mpr
        ⟨front, fits_of_loadEntry (filled part (by simp)) loaded step inside
          entries⟩

/-- The lines of a file have no zeros. -/
theorem plain_of_parts {line : List UInt8}
    (there : parts line = some part) : 0 ∉ part.2 := by
  unfold parts at there
  dsimp only at there
  split_ifs at there
  obtain ⟨p, _, rfl⟩ := Option.map_eq_some_iff.mp there
  intro zero
  have inside := (trim_sublist _).mem (List.mem_of_mem_drop zero)
  have nonzero := List.mem_takeWhile_imp inside
  cases nonzero

/-- A file with no empty fields is loaded as it should be if and only if all of
its lines fit. -/
theorem initSrvid_right_iff (tmptxt : Memory) {file : List UInt8}
    (some : ∀ part ∈ fileEntries file, [] ∉ part.2.splitOn 124) :
    Right tmptxt file ↔ AllFit (fileEntries file) := by
  have filled : ∀ part ∈ fileEntries file, Filled part := by
    intro part member
    obtain ⟨line, _, there⟩ := List.mem_filterMap.mp member
    exact ⟨some part member, plain_of_parts there⟩
  constructor
  · rintro ⟨s, run, inside, entries⟩
    exact allFit_of_loaded filled run inside entries
  · intro all
    obtain ⟨s, run, loaded⟩ := loaded_of_allFit filled tmptxt all
    exact ⟨s, run, loaded.written, loaded.entries⟩

/-- A file with one entry. -/
def oneEntry : List UInt8 := ascii "1702:0001|Prov|Name|TV|Info\n"

theorem initSrvid_right_iff_one :
    (∀ part ∈ fileEntries oneEntry, [] ∉ part.2.splitOn 124) ∧
      (Right .zero oneEntry ↔ AllFit (fileEntries oneEntry)) := by
  have some : ∀ part ∈ fileEntries oneEntry, [] ∉ part.2.splitOn 124 := by
    decide
  exact ⟨some, initSrvid_right_iff .zero some⟩

/-- A line without a colon. -/
def noColon : List UInt8 := ascii "17020001|Prov|Name\n"

/-- The null pointer is followed. -/
theorem noColon_not_right : ¬ Right .zero noColon := by
  rintro ⟨s, run, -⟩
  rw [show initSrvid .zero noColon = none by decide] at run
  cases run

end Oscam.Srvids
