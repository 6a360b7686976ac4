import Mathlib.Algebra.Order.BigOperators.Group.List
import Oscam.Config.Printing

/-!
# The tables of filters

`chk_ftab` reads the settings ident and chid, and `mk_t_ftab` prints them.
The printer goes on by four digits for a caid and by six for a provider,
however many were printed.
-/

namespace Oscam.FilterTables

open Monitor (trim isBlank splitAt ascii)

/-- `CS_MAXFILTERS`. -/
abbrev csMaxfilters : Nat := 16

/-- `CS_MAXPROV`. -/
abbrev csMaxprov : Nat := 32

/-- `FILTER`. -/
structure Filter where
  caid : Nat
  prids : List Nat
  deriving DecidableEq, Repr

/-! ## Reading -/

/-- A provider; up to eight digits are kept. -/
def readPrid (ptr3 : List UInt8) : Nat := (a2i ptr3 6).getD a2iError

def readPrids (ptr : List UInt8) : List Nat :=
  ((strtok 44 ptr).take csMaxprov).map readPrid

/-- A filter of the text; `chid` is the test on the first letter of the name,
and a chid needs a caid. -/
def chkFilter (chid : Bool) (ptr1 : List UInt8) : Option Filter :=
  match splitAt 58 (trim ptr1) with
  | some (caid, prids) =>
      some
        { caid := (a2i caid 4).getD a2iError % 2 ^ 16
          prids := readPrids prids }
  | none =>
      if chid then none
      else some { caid := 0, prids := readPrids (trim ptr1) }

/-- `chk_ftab`: the first `nfilts` filters, or `none` if it gives up and leaves
the table as it was. -/
def chkFtab (chid : Bool) (zFilterAsc : List UInt8) : Option (List Filter) :=
  ((strtok 59 zFilterAsc).take csMaxfilters).mapM (chkFilter chid)

/-! ## Printing -/

def putPrid (needed : Nat) (p : Print) (prid : Nat × Nat) : Print :=
  (p.snprintf needed
    ((if prid.2 = 0 then [58] else [44]) ++ hexadecimal 6 prid.1)).advance 7

def putFilter (needed : Nat) (p : Print) (filt : Filter × Nat) : Print :=
  let p :=
    if filt.2 = 0 then
      (p.snprintf needed (hexadecimal 4 filt.1.caid)).advance 4
    else (p.snprintf needed (59 :: hexadecimal 4 filt.1.caid)).advance 5
  filt.1.prids.zipIdx.foldl (putPrid needed) p

/-- The size that `mk_t_ftab` allocates. -/
def neededFor (ftab : List Filter) : Nat :=
  if ftab.length ≠ 0 then
    ftab.length * 5 + (ftab.map fun filt => filt.prids.length * 7).sum
  else 1

/-- `mk_t_ftab`. -/
def mkTFtab (ftab : List Filter) : Text :=
  if neededFor ftab = 1 then .empty
  else
    let p := ftab.zipIdx.foldl (putFilter (neededFor ftab)) .start
    { needed := neededFor ftab, buf := (p.store 0).buf }

/-- The table is printed inside the buffer and read back as it is. -/
def FtabKept (chid : Bool) (ftab : List Filter) : Prop :=
  (mkTFtab ftab).Inside ∧ chkFtab chid (mkTFtab ftab).string = some ftab

/-! ## The text that is left in the buffer -/

/-- What is left of a provider when the next one is printed. -/
def six (prid : Nat) : List UInt8 := (hexadecimal 6 prid).take 6

def pridsText (prids : List Nat) : List UInt8 :=
  (if prids = [] then [] else [58]) ++ [44].intercalate (prids.map six)

def Filter.text (filt : Filter) : List UInt8 :=
  hexadecimal 4 filt.caid ++ pridsText filt.prids

def ftabText (ftab : List Filter) : List UInt8 :=
  [59].intercalate (ftab.map Filter.text)

/-- The fields have 16 and 32 bits, and the arrays their sizes. -/
structure Filter.Typed (filt : Filter) : Prop where
  caid : filt.caid < 2 ^ 16
  prids : ∀ prid ∈ filt.prids, prid < 2 ^ 32
  nprids : filt.prids.length ≤ csMaxprov

variable {filt : Filter} {ftab : List Filter} {needed prid : Nat} {p : Print}
  {txt : List UInt8} {chid : Bool}

theorem length_hexadecimal_six_ge (prid : Nat) :
    6 ≤ (hexadecimal 6 prid).length := by
  simp only [hexadecimal, padded, List.length_append, List.length_replicate,
    List.length_map, List.length_reverse]
  omega

theorem length_six (prid : Nat) : (six prid).length = 6 := by
  rw [six, List.length_take, Nat.min_eq_left (length_hexadecimal_six_ge prid)]

theorem length_hexadecimal_six_le (word : prid < 2 ^ 32) :
    (hexadecimal 6 prid).length ≤ 8 :=
  length_padded_le (by decide) (by omega) (by decide)

theorem six_of_lt (small : prid < 2 ^ 24) : six prid = hexadecimal 6 prid := by
  rw [six, List.take_of_length_le]
  exact length_padded_le (by decide) small (by decide)

/-- A provider is cut to six digits by what comes behind it. -/
theorem shows_putPrid (shows : p.Shows txt) (word : prid < 2 ^ 32)
    (room : 9 < needed) (i : Nat) :
    (putPrid needed p (prid, i)).Shows
      (txt ++ (if i = 0 then [58] else [44]) ++ six prid) := by
  have least := length_hexadecimal_six_ge prid
  have most := length_hexadecimal_six_le word
  have length : ((if i = 0 then [58] else [44]) ++
      hexadecimal 6 prid).length = (hexadecimal 6 prid).length + 1 := by
    split <;> simp
  have cut : ((if i = 0 then [58] else [44]) ++ hexadecimal 6 prid).take 7 =
      (if i = 0 then [58] else [44]) ++ six prid := by
    split <;> rfl
  have step := shows.cut needed
    ((if i = 0 then [58] else [44]) ++ hexadecimal 6 prid) 7 (by omega)
    (by omega)
  rwa [cut, ← List.append_assoc] at step

/-- One with six digits fills its place. -/
theorem holds_putPrid (holds : p.Holds txt) (small : prid < 2 ^ 24)
    (room : 9 < needed) (i : Nat) :
    (putPrid needed p (prid, i)).Holds
      (txt ++ (if i = 0 then [58] else [44]) ++ six prid) := by
  have length : ((if i = 0 then [58] else [44]) ++
      hexadecimal 6 prid).length = 7 := by
    rw [← six_of_lt small, List.length_append, length_six]
    split <;> rfl
  have step := holds.print needed
    ((if i = 0 then [58] else [44]) ++ hexadecimal 6 prid) (by omega)
  rw [six_of_lt small]
  rwa [Print.print, length, ← List.append_assoc] at step

theorem length_pridsText (prids : List Nat) :
    (pridsText prids).length = prids.length * 7 := by
  by_cases none : prids = []
  · subst none
    rfl
  · have sum : ((prids.map six).map fun field => field.length + 1).sum =
        prids.length * 7 := by
      simp [List.map_map, Function.comp_def, length_six, List.map_const']
    have some : prids.map six ≠ [] := by simpa using none
    have total := Separated.length_intercalate (44 : UInt8) some
    rw [pridsText, if_neg none, List.length_append, List.length_singleton]
    omega

theorem length_text (typed : filt.Typed) :
    filt.text.length = 4 + filt.prids.length * 7 := by
  have caid : (hexadecimal 4 filt.caid).length = 4 :=
    length_padded (by decide) typed.caid
  rw [Filter.text, List.length_append, length_pridsText, caid]

/-- The text with its final zero fills the buffer. -/
theorem length_ftabText (typed : ∀ filt ∈ ftab, filt.Typed) :
    (ftabText ftab).length + 1 = neededFor ftab := by
  by_cases none : ftab = []
  · subst none
    rfl
  · have sizes : (ftab.map Filter.text).map (fun field => field.length + 1) =
        ftab.map fun filt => 5 + filt.prids.length * 7 := by
      rw [List.map_map]
      apply List.map_congr_left
      intro filt member
      show filt.text.length + 1 = _
      rw [length_text (typed filt member)]
      omega
    have sum (ftab : List Filter) :
        (ftab.map fun filt => 5 + filt.prids.length * 7).sum =
          ftab.length * 5 + (ftab.map fun filt => filt.prids.length * 7).sum := by
      induction ftab with
      | nil => rfl
      | cons filt ftab induction =>
          simp only [List.map_cons, List.sum_cons, induction, List.length_cons]
          omega
    have some : ftab.length ≠ 0 := by simpa using none
    rw [ftabText, Separated.length_intercalate _ (by simpa using none), sizes,
      sum, neededFor, if_pos some]

/-- What is printed of the filters, when every print of a short text and of a
provider keeps what `R` says. -/
theorem printed_ftab {R : Print → List UInt8 → Prop} (begun : R .start [])
    (short : ∀ p txt more, R p txt → more.length < neededFor ftab →
      R (p.print (neededFor ftab) more) (txt ++ more))
    (prid : ∀ p txt i, ∀ filt ∈ ftab, ∀ prid ∈ filt.prids, R p txt →
      R (putPrid (neededFor ftab) p (prid, i))
        (txt ++ (if i = 0 then [58] else [44]) ++ six prid))
    (typed : ∀ filt ∈ ftab, filt.Typed) :
    R (ftab.zipIdx.foldl (putFilter (neededFor ftab)) .start)
      (ftabText ftab) := by
  have items := Print.foldl_items [] 59 (putFilter (neededFor ftab))
    Filter.text begun ftab
    fun p txt i inside filt member before => by
      have length : (hexadecimal 4 filt.caid).length = 4 :=
        length_padded (by decide) (typed filt member).caid
      have size : ftab.length * 5 ≤ neededFor ftab := by
        unfold neededFor
        split <;> omega
      have caid : R
          (if i = 0 then
            (p.snprintf (neededFor ftab) (hexadecimal 4 filt.caid)).advance 4
          else (p.snprintf (neededFor ftab)
            (59 :: hexadecimal 4 filt.caid)).advance 5)
          (txt ++ (if i = 0 then [] else [59]) ++ hexadecimal 4 filt.caid) := by
        by_cases first : i = 0
        · have step := short p txt (hexadecimal 4 filt.caid) before (by omega)
          rw [if_pos first, if_pos first, List.append_nil]
          rwa [Print.print, length] at step
        · have five : (59 :: hexadecimal 4 filt.caid).length = 5 := by
            rw [List.length_cons, length]
          have step := short p txt (59 :: hexadecimal 4 filt.caid) before
            (by omega)
          rw [if_neg first, if_neg first, List.append_assoc]
          rwa [Print.print, five] at step
      have prids := Print.foldl_items [58] 44 (putPrid (neededFor ftab)) six
        caid filt.prids fun p txt i _ entry listed shown =>
          prid p txt i filt member entry listed shown
      unfold putFilter Filter.text pridsText
      simpa only [List.append_assoc] using prids
  simpa [ftabText] using items

/-! ## Reading the text -/

theorem mem_six {c : UInt8} (member : c ∈ six prid) : numberChar c = true :=
  numberChar_padded (by decide) (by decide) c (List.mem_of_mem_take member)

/-- Six digits stay below a seventh. -/
theorem readPrid_six_lt (prid : Nat) : readPrid (six prid) < 2 ^ 24 := by
  have plain : trim (six prid) = six prid :=
    trim_of_plain fun c member => isBlank_of_numberChar (mem_six member)
  have length : (six prid).reverse.length = 6 := by
    rw [List.length_reverse, length_six]
  unfold readPrid a2i
  rw [plain, List.take_of_length_le (by omega)]
  cases read : hexValue (six prid).reverse with
  | none => decide
  | some value =>
      have small := hexValue_lt read
      rw [length] at small
      show value % 2 ^ 32 < 2 ^ 24
      omega

theorem readPrid_six_iff : readPrid (six prid) = prid ↔ prid < 2 ^ 24 := by
  constructor
  · intro same
    rw [← same]
    exact readPrid_six_lt prid
  · intro small
    have value : a2i (hexadecimal 6 prid) 6 = some prid :=
      a2i_hexadecimal_alone (by decide) (by decide) (by omega) (by omega)
    rw [six_of_lt small, readPrid, value, Option.getD_some]

theorem readPrids_six (few : filt.prids.length ≤ csMaxprov) :
    readPrids ([44].intercalate (filt.prids.map six)) =
      filt.prids.map fun prid => readPrid (six prid) := by
  have tokens : strtok 44 ([44].intercalate (filt.prids.map six)) =
      filt.prids.map six := by
    apply strtok_intercalate
    · intro field member comma
      obtain ⟨prid, _, rfl⟩ := List.mem_map.mp member
      cases mem_six comma
    · intro field member none
      obtain ⟨prid, _, rfl⟩ := List.mem_map.mp member
      have length := length_six prid
      rw [none] at length
      cases length
  rw [readPrids, tokens, List.take_of_length_le (by rwa [List.length_map]),
    List.map_map]
  rfl

theorem mem_text {c : UInt8} (member : c ∈ filt.text) :
    numberChar c = true ∨ c = 58 ∨ c = 44 := by
  rcases List.mem_append.mp member with caid | prids
  · exact .inl (numberChar_padded (by decide) (by decide) c caid)
  · rcases List.mem_append.mp prids with lead | items
    · split at lead
      · exact absurd lead List.not_mem_nil
      · exact .inr (.inl (List.mem_singleton.mp lead))
    · rcases Separated.mem_intercalate items with comma | ⟨field, listed, inside⟩
      · exact .inr (.inr comma)
      · obtain ⟨prid, _, rfl⟩ := List.mem_map.mp listed
        exact .inl (mem_six inside)

theorem not_mem_text {c : UInt8} (number : numberChar c = false)
    (colon : c ≠ 58) (comma : c ≠ 44) : c ∉ filt.text := by
  intro member
  rcases mem_text member with isNumber | same | same
  · rw [number] at isNumber
    exact Bool.noConfusion isNumber
  · exact colon same
  · exact comma same

theorem trim_text : trim filt.text = filt.text := by
  apply trim_of_plain
  intro c member
  rcases mem_text member with number | rfl | rfl
  · exact isBlank_of_numberChar number
  · rfl
  · rfl

/-- A filter comes back if it has providers, all of at most six digits. -/
theorem chkFilter_text_iff (typed : filt.Typed) :
    chkFilter chid filt.text = some filt ↔
      filt.prids ≠ [] ∧ ∀ prid ∈ filt.prids, prid < 2 ^ 24 := by
  have digits : (58 : UInt8) ∉ hexadecimal 4 filt.caid :=
    not_mem_hexadecimal rfl 4 _
  unfold chkFilter
  rw [trim_text]
  by_cases none : filt.prids = []
  · have text : filt.text = hexadecimal 4 filt.caid := by
      rw [Filter.text, none]
      exact List.append_nil _
    have single : strtok 44 (hexadecimal 4 filt.caid) =
        [hexadecimal 4 filt.caid] := by
      have tokens := @strtok_intercalate 44 [hexadecimal 4 filt.caid]
        (by simpa using not_mem_hexadecimal rfl 4 filt.caid)
        (fun field member => by
          rw [List.mem_singleton.mp member]
          exact padded_ne_nil (by decide))
      rwa [List.intercalate_singleton] at tokens
    rw [text, splitAt_of_not_mem digits]
    refine iff_of_false ?_ (fun parts => parts.1 none)
    dsimp only
    split
    · exact Option.some_ne_none filt ∘ Eq.symm
    · intro same
      have prids := congrArg Filter.prids (Option.some.inj same)
      rw [none, readPrids, single] at prids
      cases prids
  · have text : filt.text = hexadecimal 4 filt.caid ++
        58 :: [44].intercalate (filt.prids.map six) := by
      rw [Filter.text, pridsText, if_neg none]
      rfl
    have word := typed.caid
    have caid : a2i (hexadecimal 4 filt.caid) 4 = some filt.caid :=
      a2i_hexadecimal_alone (by decide) (by decide) (by omega) (by omega)
    have back := @List.map_inj_left _ _ filt.prids
      (fun prid => readPrid (six prid)) id
    rw [List.map_id] at back
    rw [text, splitAt_append digits]
    dsimp only
    rw [caid, Option.getD_some, Nat.mod_eq_of_lt word,
      readPrids_six typed.nprids]
    constructor
    · intro same
      refine ⟨none, ?_⟩
      have prids := back.mp (congrArg Filter.prids (Option.some.inj same))
      intro prid member
      exact readPrid_six_iff.mp (prids prid member)
    · rintro ⟨_, small⟩
      rw [back.mpr fun prid member => readPrid_six_iff.mpr (small prid member)]

/-! ## Saving and reading again -/

theorem typed_of_chkFilter {ptr1 : List UInt8}
    (read : chkFilter chid ptr1 = some filt) : filt.Typed := by
  have prids (ptr : List UInt8) : ∀ prid ∈ readPrids ptr, prid < 2 ^ 32 := by
    intro prid member
    obtain ⟨ptr3, _, rfl⟩ := List.mem_map.mp member
    exact a2i_getD_lt ptr3 6
  have few (ptr : List UInt8) : (readPrids ptr).length ≤ csMaxprov := by
    rw [readPrids, List.length_map]
    exact List.length_take_le _ _
  unfold chkFilter at read
  split at read
  · obtain rfl := Option.some.inj read
    exact ⟨Nat.mod_lt _ (Nat.two_pow_pos 16), prids _, few _⟩
  · split at read
    · cases read
    · obtain rfl := Option.some.inj read
      exact ⟨Nat.two_pow_pos 16, prids _, few _⟩

theorem typed_of_chkFtab {zFilterAsc : List UInt8}
    (read : chkFtab chid zFilterAsc = some ftab) :
    (∀ filt ∈ ftab, filt.Typed) ∧ ftab.length ≤ csMaxfilters := by
  refine ⟨Separated.forall_of_mapM read fun _ _ => typed_of_chkFilter, ?_⟩
  rw [← (Separated.forall₂_of_mapM read).length_eq]
  exact List.length_take_le _ _

theorem nine_lt_needed (listed : filt ∈ ftab) (member : prid ∈ filt.prids) :
    9 < neededFor ftab := by
  have filters : ftab.length ≠ 0 := by
    simpa using List.ne_nil_of_mem listed
  have prids : filt.prids.length ≠ 0 := by
    simpa using List.ne_nil_of_mem member
  have part : filt.prids.length * 7 ≤
      (ftab.map fun filt => filt.prids.length * 7).sum :=
    List.single_le_sum (by simp) _ (List.mem_map.mpr ⟨filt, listed, rfl⟩)
  rw [neededFor, if_pos filters]
  omega

theorem zero_not_mem_ftabText : 0 ∉ ftabText ftab := by
  apply Separated.not_mem_intercalate (by decide)
  intro field listed
  obtain ⟨filt, _, rfl⟩ := List.mem_map.mp listed
  exact not_mem_text rfl (by decide) (by decide)

/-- Whatever the filters are, this is the text that is found in the buffer. -/
theorem string_mkTFtab (typed : ∀ filt ∈ ftab, filt.Typed) :
    (mkTFtab ftab).string = ftabText ftab := by
  have length := length_ftabText typed
  unfold mkTFtab
  by_cases none : neededFor ftab = 1
  · rw [if_pos none, Text.string_empty]
    exact (List.eq_nil_of_length_eq_zero (by omega)).symm
  · rw [if_neg none]
    have shows := printed_ftab Print.holds_start.shows
      (fun p txt more shows room => shows.print (neededFor ftab) more room)
      (fun p txt i filt listed prid member shows =>
        shows_putPrid shows ((typed filt listed).prids prid member)
          (nine_lt_needed listed member) i) typed
    exact shows.string zero_not_mem_ftabText (by omega)

theorem inside_mkTFtab (typed : ∀ filt ∈ ftab, filt.Typed)
    (small : ∀ filt ∈ ftab, ∀ prid ∈ filt.prids, prid < 2 ^ 24) :
    (mkTFtab ftab).Inside := by
  have length := length_ftabText typed
  unfold mkTFtab
  by_cases none : neededFor ftab = 1
  · rw [if_pos none]
    exact Text.inside_empty
  · rw [if_neg none]
    have holds := printed_ftab Print.holds_start
      (fun p txt more holds room => holds.print (neededFor ftab) more room)
      (fun p txt i filt listed prid member holds =>
        holds_putPrid holds (small filt listed prid member)
          (nine_lt_needed listed member) i) typed
    exact (holds.store_zero.string zero_not_mem_ftabText (by omega)).1

theorem chkFtab_ftabText_iff (typed : ∀ filt ∈ ftab, filt.Typed)
    (few : ftab.length ≤ csMaxfilters) :
    chkFtab chid (ftabText ftab) = some ftab ↔
      ∀ filt ∈ ftab, filt.prids ≠ [] ∧ ∀ prid ∈ filt.prids, prid < 2 ^ 24 := by
  have tokens : strtok 59 (ftabText ftab) = ftab.map Filter.text := by
    apply strtok_intercalate
    · intro field member
      obtain ⟨filt, _, rfl⟩ := List.mem_map.mp member
      exact not_mem_text rfl (by decide) (by decide)
    · intro field member
      obtain ⟨filt, _, rfl⟩ := List.mem_map.mp member
      exact List.append_ne_nil_of_left_ne_nil (padded_ne_nil (by decide)) _
  rw [chkFtab, tokens, List.take_of_length_le (by rwa [List.length_map]),
    Separated.mapM_eq_self_iff]
  exact forall₂_congr fun filt member => chkFilter_text_iff (typed filt member)

/-- A table that was read is printed inside the buffer and read back if and
only if all its filters have providers and all of these have six digits. -/
theorem ftabKept_iff {zFilterAsc : List UInt8}
    (read : chkFtab chid zFilterAsc = some ftab) :
    FtabKept chid ftab ↔
      ∀ filt ∈ ftab, filt.prids ≠ [] ∧ ∀ prid ∈ filt.prids, prid < 2 ^ 24 := by
  obtain ⟨typed, few⟩ := typed_of_chkFtab read
  rw [FtabKept, string_mkTFtab typed, chkFtab_ftabText_iff typed few]
  constructor
  · exact And.right
  · intro right
    exact ⟨inside_mkTFtab typed fun filt listed => (right filt listed).2, right⟩

theorem ftabKept_iff_some :
    FtabKept false [{ caid := 0x0100, prids := [0x00006A] }] ↔
      ∀ filt ∈ [({ caid := 0x0100, prids := [0x00006A] } : Filter)],
        filt.prids ≠ [] ∧ ∀ prid ∈ filt.prids, prid < 2 ^ 24 :=
  @ftabKept_iff _ _ (ascii "0100:00006A") (by decide)

/-- A filter without providers comes back as a provider, and a provider of
eight digits is printed behind the end of the buffer. -/
theorem filters_changed :
    chkFtab false (ascii "0100:") = some [{ caid := 0x0100, prids := [] }] ∧
      ¬ FtabKept false [{ caid := 0x0100, prids := [] }] ∧
      chkFtab false (ascii "0100:12345678") =
        some [{ caid := 0x0100, prids := [0x12345678] }] ∧
      ¬ (mkTFtab [{ caid := 0x0100, prids := [0x12345678] }]).Inside := by
  refine ⟨by decide, ?_, by decide, ?_⟩
  · rintro ⟨_, kept⟩
    exact absurd kept (by decide)
  · intro inside
    exact absurd inside (by decide)

end Oscam.FilterTables
