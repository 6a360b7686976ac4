import Oscam.Config.EcmWhitelist
import Oscam.Config.Printing

/-!
# The text of the whitelist

`mk_t_ecmwhitelist` prints the lists of the setting ecmwhitelist into an array
of the stack, whose size is an estimate, and copies the text out of it.  An
identification is not printed for caid 0, and a negative length with eight
digits, which are too many for `chk_reader`.
-/

namespace Oscam.EcmWhitelist

open Monitor (ascii splitAt trim)

/-! ## Printing -/

/-- `%02X` of an `int16_t`. -/
def lenText (len : Int) : List UInt8 := hexadecimal 2 (len % 2 ^ 32).toNat

def putLen (needed : Nat) (p : Print) (cip3 : Int × Nat) : Print :=
  p.printLeft needed ((if cip3.2 = 0 then [] else [44]) ++ lenText cip3.1)

/-- What stands in front of the lengths. -/
def lead (caid ident : Nat) : List UInt8 :=
  if caid ≠ 0 then
    if ident = 0 then hexadecimal 4 caid ++ [58]
    else hexadecimal 4 caid ++ [64] ++ hexadecimal 6 ident ++ [58]
  else []

/-- One turn of the loop over the identifications, with `dot`. -/
def putIdent (needed caid : Nat) (state : Print × List UInt8)
    (cip2 : IdentNode) : Print × List UInt8 :=
  let p :=
    if cip2.lengths ≠ [] then
      state.1.printLeft needed (state.2 ++ lead caid cip2.ident)
    else state.1
  (cip2.lengths.zipIdx.foldl (putLen needed) p, [59])

def putCaid (needed : Nat) (state : Print × List UInt8) (cip : CaidNode) :
    Print × List UInt8 :=
  cip.idents.foldl (putIdent needed cip.caid) state

/-- The size that `mk_t_ecmwhitelist` estimates. -/
def neededFor (whitelist : List CaidNode) : Nat :=
  1 + (whitelist.map fun cip =>
    7 + (cip.idents.map fun cip2 => 7 + 3 * cip2.lengths.length).sum).sum

/-- `mk_t_ecmwhitelist`; `tmp` is what is in the memory of the array. -/
def mkTEcmwhitelist (tmp : Memory) (whitelist : List CaidNode) : Copied :=
  { needed := neededFor whitelist
    print := (whitelist.foldl (putCaid (neededFor whitelist))
      (.startIn tmp, [])).1 }

/-- The list is printed inside the array, and with the list that is read back
every request is treated as it was before. -/
def Saved (tmp : Memory) (whitelist : List CaidNode) : Prop :=
  (mkTEcmwhitelist tmp whitelist).Inside ∧
    ∀ er, rejected (ecmWhitelist (mkTEcmwhitelist tmp whitelist).string) er =
      rejected whitelist er

/-! ## When the list is saved -/

/-- The identifications with lengths, each with its caid. -/
def filled (whitelist : List CaidNode) : List (Nat × IdentNode) :=
  whitelist.flatMap fun cip =>
    (cip.idents.filter (·.lengths ≠ [])).map fun cip2 => (cip.caid, cip2)

def digits (n : Nat) : Nat := (Nat.digits 16 n).length

/-- The characters for a length, with the one behind it. -/
def lenSize (len : Int) : Nat :=
  if len < 0 then 9 else max 2 (digits len.toNat) + 1

/-- The characters for an identification with its lengths. -/
def clauseSize (x : Nat × IdentNode) : Nat :=
  (if x.1 = 0 then 0
    else if x.2.ident = 0 then 5
    else max 6 (digits x.2.ident) + 6) +
    (x.2.lengths.map lenSize).sum

/-- The estimate is large enough. -/
def Fits (whitelist : List CaidNode) : Prop :=
  ((filled whitelist).map clauseSize).sum ≤ neededFor whitelist

/-- No length is below -1, and what is listed for caid 0 is listed there for
all identifications. -/
def Readable (whitelist : List CaidNode) : Prop :=
  ∀ caid ident len, Has whitelist caid ident len →
    -1 ≤ len ∧ (caid = 0 → Has whitelist 0 0 len)

/-! ## The text in the array -/

def clauseText (x : Nat × IdentNode) : List UInt8 :=
  lead x.1 x.2.ident ++ [44].intercalate (x.2.lengths.map lenText)

def textOf (xs : List (Nat × IdentNode)) : List UInt8 :=
  [59].intercalate (xs.map clauseText)

variable {caid ident needed : Nat} {len : Int} {txt : List UInt8}
  {whitelist : List CaidNode} {list : List Listing}

theorem fills_putIdent {state : Print × List UInt8} {cip2 : IdentNode}
    (fills : state.1.Fills needed txt) (some : cip2.lengths ≠ []) :
    (putIdent needed caid state cip2).1.Fills needed
      (txt ++ state.2 ++ clauseText (caid, cip2)) := by
  have first := fills.printLeft (state.2 ++ lead caid cip2.ident)
  have rest := Print.foldl_items [] 44 (putLen needed) lenText first
    cip2.lengths fun p txt i _ len _ before => by
      have step := before.printLeft
        ((if i = 0 then [] else [44]) ++ lenText len)
      rwa [← List.append_assoc] at step
  unfold putIdent clauseText
  rw [if_pos some]
  simpa only [List.append_assoc, ite_self, List.nil_append] using rest

/-- All identifications, each with its caid. -/
def places (whitelist : List CaidNode) : List (Nat × IdentNode) :=
  whitelist.flatMap fun cip => cip.idents.map fun cip2 => (cip.caid, cip2)

theorem filter_places (whitelist : List CaidNode) :
    (places whitelist).filter (·.2.lengths ≠ []) = filled whitelist := by
  unfold places filled
  rw [List.filter_flatMap]
  congr 1
  funext cip
  rw [List.filter_map]
  rfl

/-- If the first identification has lengths, there is a separator in front of
each of the others. -/
theorem fills_places {p : Print} (begun : p.Fills needed [])
    (xs : List (Nat × IdentNode))
    (first : ∀ x ∈ xs.head?, x.2.lengths ≠ []) :
    (xs.foldl (fun state x => putIdent needed x.1 state x.2) (p, [])).1.Fills
        needed (textOf (xs.filter (·.2.lengths ≠ []))) ∧
      (xs.foldl (fun state x => putIdent needed x.1 state x.2) (p, [])).2 =
        if xs = [] then [] else [59] := by
  induction xs using List.reverseRecOn with
  | nil => exact ⟨begun, rfl⟩
  | append_singleton xs x induction =>
      have earlier : ∀ x ∈ xs.head?, x.2.lengths ≠ [] :=
        Separated.forall_head_of_append first
      obtain ⟨fills, dot⟩ := induction earlier
      rw [List.foldl_append, List.foldl_cons, List.foldl_nil, List.filter_append]
      refine ⟨?_, by simp [putIdent]⟩
      by_cases some : x.2.lengths = []
      · have nothing : [x].filter (·.2.lengths ≠ []) = [] := by
          simpa using some
        rw [nothing, List.append_nil]
        unfold putIdent
        rw [if_neg (by simpa using some), some]
        exact fills
      · have printed : [x].filter (·.2.lengths ≠ []) = [x] := by
          simpa using some
        have begin : (xs.filter (·.2.lengths ≠ [])).map clauseText = [] ↔
            xs = [] := by
          rw [List.map_eq_nil_iff]
          constructor
          · intro none
            cases xs with
            | nil => rfl
            | cons y ys =>
                have listed := first y rfl
                rw [List.filter_cons_of_pos (by simpa using listed)] at none
                cases none
          · rintro rfl
            rfl
        have step := @fills_putIdent x.1 _ _ _ _ fills some
        rw [dot] at step
        rw [printed, textOf, List.map_append, List.map_singleton,
          Separated.intercalate_append_singleton]
        simp only [begin]
        exact step

/-! ## The length of the text -/

theorem length_hexadecimal (width n : Nat) :
    (hexadecimal width n).length = max width (digits n) := by
  simp only [hexadecimal, padded, digits, List.length_append,
    List.length_replicate, List.length_map, List.length_reverse]
  omega

/-- The fields have 16 and 32 bits. -/
structure Typed (x : Nat × IdentNode) : Prop where
  caid : x.1 < 2 ^ 16
  ident : x.2.ident < 2 ^ 32
  lengths : ∀ len ∈ x.2.lengths, -2 ^ 15 ≤ len ∧ len < 2 ^ 15

theorem length_lenText_neg (low : -2 ^ 15 ≤ len) (negative : len < 0) :
    (lenText len).length = 8 := by
  have word : (len % 2 ^ 32).toNat = (len + 2 ^ 32).toNat := by omega
  have most : digits (len + 2 ^ 32).toNat ≤ 8 :=
    (Nat.digits_length_le_iff (by decide) _).mpr (by omega)
  have least : 7 < digits (len + 2 ^ 32).toNat :=
    (Nat.lt_digits_length_iff (by decide) _).mpr (by omega)
  rw [lenText, length_hexadecimal, word]
  omega

theorem length_lenText (low : -2 ^ 15 ≤ len) (high : len < 2 ^ 15) :
    (lenText len).length + 1 = lenSize len := by
  unfold lenSize
  by_cases negative : len < 0
  · rw [if_pos negative, length_lenText_neg low negative]
  · have word : (len % 2 ^ 32).toNat = len.toNat := by omega
    rw [if_neg negative, lenText, length_hexadecimal, word]

theorem length_clauseText {x : Nat × IdentNode} (typed : Typed x)
    (some : x.2.lengths ≠ []) : (clauseText x).length + 1 = clauseSize x := by
  have lens : (([44] : List UInt8).intercalate
      (x.2.lengths.map lenText)).length + 1 = (x.2.lengths.map lenSize).sum := by
    rw [Separated.length_intercalate _ (by simpa using some), List.map_map]
    congr 1
    apply List.map_congr_left
    intro len member
    exact length_lenText (typed.lengths len member).1
      (typed.lengths len member).2
  have front : (lead x.1 x.2.ident).length =
      if x.1 = 0 then 0
      else if x.2.ident = 0 then 5 else max 6 (digits x.2.ident) + 6 := by
    have four : (hexadecimal 4 x.1).length = 4 :=
      length_padded (by decide) typed.caid
    unfold lead
    by_cases none : x.1 = 0
    · rw [if_neg (by simpa using none), if_pos none, List.length_nil]
    · rw [if_pos none, if_neg none]
      split
      · rw [List.length_append, four, List.length_singleton]
      · simp only [List.length_append, List.length_singleton, four,
          length_hexadecimal]
        omega
  rw [clauseText, List.length_append, clauseSize, front, ← lens]
  omega

theorem mem_filled_iff {x : Nat × IdentNode} :
    x ∈ filled whitelist ↔ ∃ cip ∈ whitelist, cip.caid = x.1 ∧
      x.2 ∈ cip.idents ∧ x.2.lengths ≠ [] := by
  constructor
  · intro member
    obtain ⟨cip, there, inside⟩ := List.mem_flatMap.mp member
    obtain ⟨cip2, listed, rfl⟩ := List.mem_map.mp inside
    obtain ⟨known, some⟩ := List.mem_filter.mp listed
    exact ⟨cip, there, rfl, known, by simpa using some⟩
  · rintro ⟨cip, there, caid, known, some⟩
    refine List.mem_flatMap.mpr ⟨cip, there, List.mem_map.mpr
      ⟨x.2, List.mem_filter.mpr ⟨known, by simpa using some⟩, ?_⟩⟩
    rw [caid]

theorem fits_iff (typed : ∀ x ∈ filled whitelist, Typed x) :
    Fits whitelist ↔
      (textOf (filled whitelist)).length < neededFor whitelist := by
  have sizes : (((filled whitelist).map clauseText).map fun txt =>
      txt.length + 1) = (filled whitelist).map clauseSize := by
    rw [List.map_map]
    apply List.map_congr_left
    intro x member
    obtain ⟨_, _, _, _, some⟩ := mem_filled_iff.mp member
    exact length_clauseText (typed x member) some
  unfold Fits textOf
  rw [← sizes]
  by_cases none : filled whitelist = []
  · rw [none]
    have one : 1 ≤ neededFor whitelist := by
      unfold neededFor
      omega
    exact iff_of_true (Nat.zero_le _) one
  · rw [← Separated.length_intercalate 59 (by simpa using none)]
    exact Iff.rfl

/-! ## Reading the text -/

theorem dynWordAtob_hexadecimal {width n : Nat} (some : 0 < width)
    (few : (hexadecimal width n).length ≤ 4) :
    dynWordAtob (hexadecimal width n) = n := by
  have plain : trim (hexadecimal width n) = hexadecimal width n :=
    trim_of_plain fun c member => isBlank_of_numberChar
      (numberChar_padded (by decide) (by decide) c member)
  have filled : (hexadecimal width n).length ≠ 0 := by
    rw [length_hexadecimal]
    omega
  unfold dynWordAtob
  rw [plain, if_neg (by omega), hexValue_hexadecimal]

/-- A negative length has too many digits. -/
theorem dynWordAtob_lenText (low : -2 ^ 15 ≤ len) (high : len < 2 ^ 15) :
    toInt16 (dynWordAtob (lenText len)) = max (-1) len := by
  by_cases negative : len < 0
  · have long := length_lenText_neg low negative
    have plain : trim (lenText len) = lenText len :=
      trim_of_plain fun c member => isBlank_of_numberChar
        (numberChar_padded (by decide) (by decide) c member)
    have one : max (-1) len = -1 := by omega
    unfold dynWordAtob
    rw [plain, if_pos (by omega), one]
    rfl
  · have word : (len % 2 ^ 32).toNat = len.toNat := by omega
    have few : (hexadecimal 2 len.toNat).length ≤ 4 :=
      length_padded_le (by decide) (by omega) (by decide)
    rw [lenText, word, dynWordAtob_hexadecimal (by decide) few]
    unfold toInt16
    omega

theorem parseLens_lenTexts {lengths : List Int}
    (typed : ∀ len ∈ lengths, -2 ^ 15 ≤ len ∧ len < 2 ^ 15) :
    parseLens ([44].intercalate (lengths.map lenText)) =
      lengths.map (max (-1)) := by
  have tokens : strtok 44 ([44].intercalate (lengths.map lenText)) =
      lengths.map lenText := by
    apply strtok_intercalate
    · intro field member
      obtain ⟨len, _, rfl⟩ := List.mem_map.mp member
      exact not_mem_hexadecimal rfl 2 _
    · intro field member
      obtain ⟨len, _, rfl⟩ := List.mem_map.mp member
      exact padded_ne_nil (by decide)
  rw [parseLens, tokens, List.map_map]
  apply List.map_congr_left
  intro len member
  exact dynWordAtob_lenText (typed len member).1 (typed len member).2

theorem not_mem_lenTexts {c : UInt8} (number : numberChar c = false)
    (comma : c ≠ 44) (lengths : List Int) :
    c ∉ ([44] : List UInt8).intercalate (lengths.map lenText) := by
  apply Separated.not_mem_intercalate comma
  intro field listed
  obtain ⟨len, _, rfl⟩ := List.mem_map.mp listed
  exact not_mem_hexadecimal number 2 _

/-- What comes back of an identification. -/
def reread (x : Nat × IdentNode) : Clause :=
  { caid := x.1
    ident := if x.1 = 0 then 0 else x.2.ident
    lens := x.2.lengths.map (max (-1)) }

theorem parseClause_clauseText {x : Nat × IdentNode} (typed : Typed x) :
    parseClause (clauseText x) = reread x := by
  have lens := parseLens_lenTexts typed.lengths
  have noColon (width n : Nat) : (58 : UInt8) ∉ hexadecimal width n :=
    not_mem_hexadecimal rfl width n
  have noAt (width n : Nat) : (64 : UInt8) ∉ hexadecimal width n :=
    not_mem_hexadecimal rfl width n
  have caid : parseCaid (hexadecimal 4 x.1) = x.1 := by
    have four : (hexadecimal 4 x.1).length = 4 :=
      length_padded (by decide) typed.caid
    have small := typed.caid
    unfold parseCaid
    rw [dynWordAtob_hexadecimal (by decide) (le_of_eq four)]
    omega
  have word := typed.ident
  have ident : a2i (hexadecimal 6 x.2.ident) 6 = some x.2.ident :=
    a2i_hexadecimal_alone (by decide) (by decide) (by omega) word
  unfold parseClause clauseText lead reread
  by_cases none : x.1 = 0
  · rw [if_neg (by simpa using none), if_pos none, List.nil_append,
      splitAt_of_not_mem (not_mem_lenTexts rfl (by decide) _), lens, none]
  · rw [if_pos none, if_neg none]
    by_cases all : x.2.ident = 0
    · rw [if_pos all, List.append_assoc, List.singleton_append,
        splitAt_append (noColon 4 x.1)]
      dsimp only
      rw [splitAt_of_not_mem (noAt 4 x.1), caid, lens, all]
    · have front : (58 : UInt8) ∉
          hexadecimal 4 x.1 ++ 64 :: hexadecimal 6 x.2.ident := by
        intro member
        rcases List.mem_append.mp member with first | second
        · exact noColon 4 x.1 first
        · rcases List.mem_cons.mp second with same | last
          · cases same
          · exact noColon 6 x.2.ident last
      have split : hexadecimal 4 x.1 ++ [64] ++ hexadecimal 6 x.2.ident ++
          [58] ++ [44].intercalate (x.2.lengths.map lenText) =
            (hexadecimal 4 x.1 ++ 64 :: hexadecimal 6 x.2.ident) ++
              58 :: [44].intercalate (x.2.lengths.map lenText) := by
        simp
      rw [if_neg all, split, splitAt_append front]
      dsimp only
      rw [splitAt_append (noAt 4 x.1)]
      dsimp only
      rw [caid, lens, ident, Option.getD_some]

/-- The clauses of the printed text. -/
theorem clauses_textOf (typed : ∀ x ∈ filled whitelist, Typed x) :
    clauses (textOf (filled whitelist)) = (filled whitelist).map reread := by
  have tokens : strtok 59 (textOf (filled whitelist)) =
      (filled whitelist).map clauseText := by
    apply strtok_intercalate
    · intro field member
      obtain ⟨x, _, rfl⟩ := List.mem_map.mp member
      intro semicolon
      rcases List.mem_append.mp semicolon with front | lens
      · unfold lead at front
        split at front
        · split at front
          · simp [not_mem_hexadecimal (c := 59) rfl] at front
          · simp [not_mem_hexadecimal (c := 59) rfl] at front
        · cases front
      · exact not_mem_lenTexts rfl (by decide) _ lens
    · intro field member
      obtain ⟨x, there, rfl⟩ := List.mem_map.mp member
      obtain ⟨_, _, _, _, some⟩ := mem_filled_iff.mp there
      obtain ⟨len, rest, split⟩ := List.exists_cons_of_ne_nil some
      have size := length_clauseText (typed x there) some
      have least : 3 ≤ lenSize len := by
        unfold lenSize
        split <;> omega
      rw [clauseSize, split, List.map_cons, List.sum_cons] at size
      rintro empty
      rw [empty, List.length_nil] at size
      omega
  have parsed : ((filled whitelist).map clauseText).map parseClause =
      (filled whitelist).map reread := by
    rw [List.map_map]
    apply List.map_congr_left
    intro x member
    exact parseClause_clauseText (typed x member)
  rw [clauses, tokens, parsed, List.filter_eq_self]
  intro clause member
  obtain ⟨x, there, rfl⟩ := List.mem_map.mp member
  obtain ⟨_, _, _, _, some⟩ := mem_filled_iff.mp there
  simpa [reread] using some

/-! ## The list that is read back -/

theorem has_iff_filled :
    Has whitelist caid ident len ↔
      ∃ x ∈ filled whitelist, x.1 = caid ∧ x.2.ident = ident ∧
        len ∈ x.2.lengths := by
  constructor
  · rintro ⟨cip, there, rfl, cip2, known, same, listed⟩
    exact ⟨(cip.caid, cip2), mem_filled_iff.mpr ⟨cip, there, rfl, known,
      List.ne_nil_of_mem listed⟩, rfl, same, listed⟩
  · rintro ⟨x, member, rfl, same, listed⟩
    obtain ⟨cip, there, caid, known, _⟩ := mem_filled_iff.mp member
    exact ⟨cip, there, caid, x.2, known, same, listed⟩

/-- The lengths that clauses list for a caid. -/
theorem history_clauses (caid : Nat) (list : List Clause) :
    history caid (list.flatMap fun clause => clause.lens.map fun len =>
        ⟨clause.caid, clause.ident, len⟩) =
      CutStack.listed ((list.filter (·.caid = caid)).map fun clause =>
        (clause.ident, clause.lens)) := by
  induction list with
  | nil => rfl
  | cons clause list induction =>
      have first : history caid (clause.lens.map fun len =>
          ⟨clause.caid, clause.ident, len⟩) =
            if clause.caid = caid then
              clause.lens.map fun len => (clause.ident, len)
            else [] := by
        unfold history
        rw [List.filter_map, List.map_map]
        split
        · rename_i same
          simp [same, Function.comp_def]
        · rename_i other
          simp [other, Function.comp_def]
      rw [List.flatMap_cons, history, List.filter_append, List.map_append]
      unfold history at first induction
      rw [first, induction]
      by_cases same : clause.caid = caid
      · rw [if_pos same, List.filter_cons_of_pos (by simpa using same)]
        rfl
      · rw [if_neg same, List.filter_cons_of_neg (by simpa using same),
          List.nil_append]

/-- The identifications of a caid below 8000 are distinct. -/
theorem nodup_filled (built : Built whitelist list) (low : caid < 0x8000) :
    (((filled whitelist).filter (·.1 = caid)).map (·.2.ident)).Nodup := by
  have entries (nodes : List CaidNode) :
      ((filled nodes).filter (·.1 = caid)).map (·.2.ident) =
        ((nodes.filter (·.caid = caid)).flatMap fun cip =>
          content cip.idents).map Prod.fst := by
    induction nodes with
    | nil => rfl
    | cons cip nodes induction =>
        have split : filled (cip :: nodes) =
            ((cip.idents.filter (·.lengths ≠ [])).map fun cip2 =>
              (cip.caid, cip2)) ++ filled nodes := rfl
        rw [split, List.filter_append, List.map_append, induction]
        by_cases same : cip.caid = caid
        · rw [List.filter_cons_of_pos (by simpa using same),
            List.flatMap_cons, List.map_append]
          simp [content, same, List.filter_map, Function.comp_def]
        · rw [List.filter_cons_of_neg (by simpa using same)]
          simp [same, List.filter_map, Function.comp_def]
  rw [entries, built.2 caid]
  cases before : history caid list with
  | nil =>
      rw [entriesOf, if_pos low]
      exact List.nodup_nil
  | cons x rest =>
      have empty (n : Nat) : (List.replicate n
          ({ caid := caid, idents := [] } : CaidNode)).flatMap
            (fun cip => content cip.idents) = [] := by
        rw [List.flatMap_eq_nil_iff]
        intro node member
        rw [List.eq_of_mem_replicate member]
        rfl
      rw [entriesOf_low low, List.flatMap_cons, empty, List.append_nil,
        (sound_identsOf (x :: rest)).content, CutStack.keys_recordAll]
      exact CutStack.nodup_stackOf _

/-- Nothing that was printed is cut off when it is read. -/
theorem stays_reread (built : Built whitelist list) (low : caid < 0x8000)
    {relisted : List Listing}
    (printed : relisted = ((filled whitelist).map reread).flatMap fun clause =>
      clause.lens.map fun len => ⟨clause.caid, clause.ident, len⟩)
    (member : (ident, len) ∈ history caid relisted) :
    CutStack.Stays (history caid relisted) ident len := by
  have listed : history caid relisted = CutStack.listed
      (((filled whitelist).filter (·.1 = caid)).map fun x =>
        ((reread x).ident, (reread x).lens)) := by
    rw [printed, history_clauses, List.filter_map, List.map_map]
    rfl
  by_cases zero : caid = 0
  · have same : ∀ x ∈ history caid relisted, x.1 = ident := by
      have all : ∀ x ∈ history caid relisted, x.1 = 0 := by
        intro x there
        rw [listed] at there
        obtain ⟨group, inside, values⟩ := List.mem_flatMap.mp there
        obtain ⟨y, found, rfl⟩ := List.mem_map.mp inside
        obtain ⟨_, _, rfl⟩ := List.mem_map.mp values
        have caids : y.1 = caid := by
          simpa using (List.mem_filter.mp found).2
        exact if_pos (caids.trans zero)
      intro x there
      exact (all x there).trans (all (ident, len) member).symm
    exact (CutStack.stays_iff_mem_of_forall same len).mpr member
  · have keys : (((filled whitelist).filter (·.1 = caid)).map fun x =>
        ((reread x).ident, (reread x).lens)).map Prod.fst =
          ((filled whitelist).filter (·.1 = caid)).map (·.2.ident) := by
      rw [List.map_map]
      apply List.map_congr_left
      intro x there
      have caids : x.1 = caid := by
        simpa using (List.mem_filter.mp there).2
      exact if_neg fun none => zero (caids.symm.trans none)
    rw [listed] at member ⊢
    rw [CutStack.stays_listed_iff (by
      rw [keys]
      exact nodup_filled built low), ← CutStack.mem_listed_iff]
    exact member

/-- The list that is read back holds what was printed. -/
theorem has_textOf_iff (built : Built whitelist list)
    (typed : ∀ x ∈ filled whitelist, Typed x) :
    Has (ecmWhitelist (textOf (filled whitelist))) caid ident len ↔
      ∃ i l, Has whitelist caid i l ∧ ident = (if caid = 0 then 0 else i) ∧
        len = max (-1) l := by
  have again := built_ecmWhitelist (textOf (filled whitelist))
  have printed := clauses_textOf typed
  have relisted : listings (textOf (filled whitelist)) =
      ((filled whitelist).map reread).flatMap fun clause =>
        clause.lens.map fun len => ⟨clause.caid, clause.ident, len⟩ := by
    rw [listings, printed]
  have listed : (⟨caid, ident, len⟩ : Listing) ∈
      listings (textOf (filled whitelist)) ↔
        ∃ i l, Has whitelist caid i l ∧
          ident = (if caid = 0 then 0 else i) ∧ len = max (-1) l := by
    rw [mem_listings_iff, printed]
    constructor
    · rintro ⟨clause, member, rfl, rfl, inside⟩
      obtain ⟨x, there, rfl⟩ := List.mem_map.mp member
      obtain ⟨l, known, rfl⟩ := List.mem_map.mp inside
      exact ⟨x.2.ident, l, has_iff_filled.mpr ⟨x, there, rfl, rfl, known⟩,
        rfl, rfl⟩
    · rintro ⟨i, l, has, rfl, rfl⟩
      obtain ⟨x, there, rfl, rfl, known⟩ := has_iff_filled.mp has
      exact ⟨reread x, List.mem_map_of_mem there, rfl, rfl,
        List.mem_map_of_mem known⟩
  rw [← listed]
  constructor
  · rintro ⟨cip, there, rfl, cip2, known, rfl, inside⟩
    exact (again.listed there known).2 len inside
  · intro member
    have inside := mem_history member
    by_cases low : caid < 0x8000
    · exact (again.has_low low).mpr (stays_reread built low relisted inside)
    · exact again.has_high (by omega) inside

/-! ## The check with the list that is read back -/

/-- What is listed for these applies to the request. -/
def Applies (er : EcmRequest) (caid ident : Nat) : Prop :=
  (caid = 0 ∨ caid = er.caid) ∧ (ident = 0 ∨ ident = er.prid)

theorem ok_iff_has (whitelist : List CaidNode) (er : EcmRequest) :
    ok whitelist er = true ↔
      ∃ caid ident, Applies er caid ident ∧ Has whitelist caid ident er.l := by
  rw [ok_iff]
  constructor
  · rintro ⟨cip, there, caids, cip2, known, idents, inside⟩
    exact ⟨cip.caid, cip2.ident, ⟨(matches_iff er cip).mp caids,
      (ident_matches_iff er cip2).mp idents⟩,
      cip, there, rfl, cip2, known, rfl, inside⟩
  · rintro ⟨caid, ident, applies, cip, there, rfl, cip2, known, rfl, inside⟩
    exact ⟨cip, there, (matches_iff er cip).mpr applies.1, cip2, known,
      (ident_matches_iff er cip2).mpr applies.2, inside⟩

/-- Every identification is listed somewhere with a length. -/
theorem filled_of_mem (built : Built whitelist list) {cip : CaidNode}
    (there : cip ∈ whitelist) {cip2 : IdentNode} (known : cip2 ∈ cip.idents) :
    ∃ len, Has whitelist cip.caid cip2.ident len := by
  have entry := there
  rw [built.mem_iff] at entry
  have some : ∃ first ∈ cip.idents, first.ident = cip2.ident ∧
      first.lengths ≠ [] := by
    by_cases low : cip.caid < 0x8000
    · cases before : history cip.caid list with
      | nil =>
          rw [before, entriesOf, if_pos low] at entry
          cases entry
      | cons x rest =>
          rw [before, entriesOf_low low] at entry
          rcases List.mem_cons.mp entry with equal | behind
          · rw [equal] at known ⊢
            have found : ((identsOf (x :: rest)).find?
                (·.ident = cip2.ident)).isSome := by
              rw [List.find?_isSome]
              exact ⟨cip2, known, by simp⟩
            obtain ⟨first, same⟩ := Option.isSome_iff_exists.mp found
            exact ⟨first, List.mem_of_find?_eq_some same,
              by simpa using List.find?_some same,
              (sound_identsOf (x :: rest)).filled _ first same⟩
          · rw [List.eq_of_mem_replicate behind] at known
            cases known
    · unfold entriesOf at entry
      rw [if_neg low] at entry
      obtain ⟨x, _, equal⟩ := List.mem_map.mp entry
      rw [← equal] at known ⊢
      have only := List.mem_singleton.mp known
      rw [only]
      exact ⟨_, List.mem_singleton_self _, rfl, List.cons_ne_nil _ _⟩
  obtain ⟨first, listed, same, lengths⟩ := some
  obtain ⟨len, inside⟩ := List.exists_mem_of_ne_nil _ lengths
  exact ⟨len, cip, there, rfl, first, listed, same, inside⟩

theorem foundident_iff_has (built : Built whitelist list) (er : EcmRequest) :
    foundident whitelist er = true ↔
      ∃ caid ident len, Applies er caid ident ∧
        Has whitelist caid ident len := by
  rw [foundident_iff]
  constructor
  · rintro ⟨cip, there, caids, cip2, known, idents⟩
    obtain ⟨len, has⟩ := filled_of_mem built there known
    exact ⟨cip.caid, cip2.ident, len, ⟨(matches_iff er cip).mp caids,
      (ident_matches_iff er cip2).mp idents⟩, has⟩
  · rintro ⟨caid, ident, len, applies, cip, there, rfl, cip2, known, rfl, _⟩
    exact ⟨cip, there, (matches_iff er cip).mpr applies.1, cip2, known,
      (ident_matches_iff er cip2).mpr applies.2⟩

theorem rejected_iff_has (built : Built whitelist list) (er : EcmRequest) :
    rejected whitelist er = true ↔
      (∃ caid ident len, Applies er caid ident ∧
        Has whitelist caid ident len) ∧
      ∀ caid ident, Applies er caid ident →
        ¬ Has whitelist caid ident er.l := by
  unfold rejected
  rw [Bool.and_eq_true, Bool.not_eq_true', ← Bool.not_eq_true,
    foundident_iff_has built, ok_iff_has]
  simp only [not_exists, not_and]

/-- A request with this caid, provider and length. -/
def request (caid prid : Nat) (l : Int) : EcmRequest :=
  { EcmRequest.zero with caid := caid, prid := prid, l := l }

section Reread

variable {again : List CaidNode} {relisted : List Listing}

/-- Printing drops the identification behind caid 0 and makes the lengths below
-1 equal. -/
def Reread (again whitelist : List CaidNode) : Prop :=
  ∀ caid ident len, Has again caid ident len ↔
    ∃ i l, Has whitelist caid i l ∧ ident = (if caid = 0 then 0 else i) ∧
      len = max (-1) l

theorem Reread.has_of_readable (back : Reread again whitelist)
    (readable : Readable whitelist) (has : Has again caid ident len) :
    Has whitelist caid ident len := by
  obtain ⟨i, l, known, rfl, rfl⟩ := (back _ _ _).mp has
  obtain ⟨least, zero⟩ := readable caid i l known
  have same : max (-1) l = l := by omega
  rw [same]
  by_cases none : caid = 0
  · rw [if_pos none, none]
    exact zero none
  · rw [if_neg none]
    exact known

/-- What applied to a request still does, for all identifications if it is
listed for caid 0. -/
theorem Reread.applies_of_readable (back : Reread again whitelist)
    (readable : Readable whitelist) {er : EcmRequest}
    (applies : Applies er caid ident) (has : Has whitelist caid ident len) :
    ∃ i, Applies er caid i ∧ Has again caid i len := by
  have least := (readable caid ident len has).1
  refine ⟨if caid = 0 then 0 else ident, ⟨applies.1, ?_⟩,
    (back _ _ _).mpr ⟨ident, len, has, rfl, by omega⟩⟩
  split
  · exact .inl rfl
  · exact applies.2

theorem rejected_eq_of_readable (built : Built whitelist list)
    (rebuilt : Built again relisted) (back : Reread again whitelist)
    (readable : Readable whitelist) (er : EcmRequest) :
    rejected again er = rejected whitelist er := by
  rw [Bool.eq_iff_iff, rejected_iff_has built, rejected_iff_has rebuilt]
  apply and_congr
  · constructor
    · rintro ⟨caid, ident, len, applies, has⟩
      exact ⟨caid, ident, len, applies, back.has_of_readable readable has⟩
    · rintro ⟨caid, ident, len, applies, has⟩
      obtain ⟨i, still, there⟩ :=
        back.applies_of_readable readable applies has
      exact ⟨caid, i, len, still, there⟩
  · constructor
    · intro none caid ident applies has
      obtain ⟨i, still, there⟩ :=
        back.applies_of_readable readable applies has
      exact none caid i still there
    · intro none caid ident applies has
      exact none caid ident applies (back.has_of_readable readable has)

/-- A length below -1 that was listed is refused afterwards. -/
theorem least_of_rejected_eq (built : Built whitelist list)
    (rebuilt : Built again relisted) (back : Reread again whitelist)
    (same : ∀ er, rejected again er = rejected whitelist er)
    (has : Has whitelist caid ident len) : -1 ≤ len := by
  by_contra below
  let er := request caid ident len
  have accepted : ¬ rejected whitelist er = true := by
    rw [rejected_iff_has built]
    rintro ⟨_, none⟩
    exact none caid ident ⟨.inr rfl, .inr rfl⟩ has
  rw [← same er, rejected_iff_has rebuilt] at accepted
  apply accepted
  refine ⟨⟨caid, if caid = 0 then 0 else ident, max (-1) len,
    ⟨.inr rfl, ?_⟩, (back _ _ _).mpr ⟨ident, len, has, rfl, rfl⟩⟩, ?_⟩
  · split
    · exact .inl rfl
    · exact .inr rfl
  · intro c i _ there
    obtain ⟨_, l, _, _, equal⟩ := (back _ _ _).mp there
    have length : er.l = len := rfl
    omega

/-- A request without caid and provider sees only what is listed for all. -/
theorem zero_of_rejected_eq (built : Built whitelist list)
    (rebuilt : Built again relisted) (back : Reread again whitelist)
    (same : ∀ er, rejected again er = rejected whitelist er)
    (has : Has whitelist 0 ident len) : Has whitelist 0 0 len := by
  have only (l : Int) {c i : Nat} (applies : Applies (request 0 0 l) c i) :
      c = 0 ∧ i = 0 := by
    obtain ⟨caids, idents⟩ := applies
    exact ⟨caids.elim id id, idents.elim id id⟩
  have least := least_of_rejected_eq built rebuilt back same has
  have printed : Has again 0 0 len :=
    (back 0 0 len).mpr ⟨ident, len, has, rfl, by omega⟩
  have accepted : ¬ rejected again (request 0 0 len) = true := by
    rw [rejected_iff_has rebuilt]
    rintro ⟨_, none⟩
    exact none 0 0 ⟨.inl rfl, .inl rfl⟩ printed
  -- A length that cannot be printed is refused, so there is something listed.
  have refused : rejected again (request 0 0 (-2)) = true := by
    rw [rejected_iff_has rebuilt]
    refine ⟨⟨0, 0, len, ⟨.inl rfl, .inl rfl⟩, printed⟩, ?_⟩
    intro c i _ there
    obtain ⟨_, l, _, _, equal⟩ := (back _ _ _).mp there
    have length : (request 0 0 (-2)).l = -2 := rfl
    omega
  rw [same, rejected_iff_has built] at refused accepted
  obtain ⟨⟨c, i, l, applies, known⟩, _⟩ := refused
  obtain ⟨rfl, rfl⟩ := only _ applies
  by_contra missing
  apply accepted
  refine ⟨⟨0, 0, l, ⟨.inl rfl, .inl rfl⟩, known⟩, ?_⟩
  intro c i applies there
  obtain ⟨rfl, rfl⟩ := only _ applies
  exact missing there

/-- Every request is treated as before if and only if the list is readable. -/
theorem rejected_eq_iff (built : Built whitelist list)
    (rebuilt : Built again relisted) (back : Reread again whitelist) :
    (∀ er, rejected again er = rejected whitelist er) ↔
      Readable whitelist := by
  constructor
  · intro same caid ident len has
    refine ⟨least_of_rejected_eq built rebuilt back same has, ?_⟩
    rintro rfl
    exact zero_of_rejected_eq built rebuilt back same has
  · exact rejected_eq_of_readable built rebuilt back

end Reread

/-! ## Saving and reading again -/

theorem typed_filled {value : List UInt8} :
    ∀ x ∈ filled (ecmWhitelist value), Typed x := by
  intro x member
  have built := built_ecmWhitelist value
  obtain ⟨cip, there, caid, known, _⟩ := mem_filled_iff.mp member
  obtain ⟨⟨y, listed, _, same⟩, lens⟩ := built.listed there known
  refine ⟨caid ▸ built.1 cip there, ?_, fun len inside => ?_⟩
  · obtain ⟨clause, given, _, ident, _⟩ := (mem_listings_iff value y).mp listed
    obtain ⟨ptr, _, rfl⟩ := List.mem_map.mp (List.mem_filter.mp given).1
    rw [← same, ← ident]
    unfold parseClause
    split
    · exact Nat.two_pow_pos 32
    · split
      · exact Nat.two_pow_pos 32
      · exact a2i_getD_lt _ 6
  · obtain ⟨clause, given, _, _, listing⟩ :=
      (mem_listings_iff value _).mp (lens len inside)
    obtain ⟨ptr, _, rfl⟩ := List.mem_map.mp (List.mem_filter.mp given).1
    have parsed (txt : List UInt8) : ∀ len ∈ parseLens txt,
        -2 ^ 15 ≤ len ∧ len < 2 ^ 15 := by
      intro len member
      obtain ⟨_, _, rfl⟩ := List.mem_map.mp member
      unfold toInt16
      omega
    unfold parseClause at listing
    split at listing
    · exact parsed _ len listing
    · split at listing
      · exact parsed _ len listing
      · exact parsed _ len listing

/-- The first entry of the list has a length. -/
theorem first_filled (built : Built whitelist list) :
    ∀ x ∈ (places whitelist).head?, x.2.lengths ≠ [] := by
  cases whitelist with
  | nil =>
      intro x there
      cases there
  | cons cip rest =>
      have entry := built.2 cip.caid
      rw [List.filter_cons_of_pos (by simp)] at entry
      have some : ∃ first others, cip.idents = first :: others ∧
          first.lengths ≠ [] := by
        by_cases low : cip.caid < 0x8000
        · cases before : history cip.caid list with
          | nil =>
              rw [before, entriesOf, if_pos low] at entry
              cases entry
          | cons y ys =>
              rw [before, entriesOf_low low] at entry
              have idents : cip.idents = identsOf (y :: ys) :=
                congrArg CaidNode.idents (List.cons.inj entry).1
              obtain ⟨first, others, split⟩ := List.exists_cons_of_ne_nil
                (identsOf_ne_nil (List.cons_ne_nil y ys))
              have found : (identsOf (y :: ys)).find?
                  (·.ident = first.ident) = Option.some first := by
                rw [split, List.find?_cons_of_pos (by simp)]
              exact ⟨first, others, idents.trans split,
                (sound_identsOf (y :: ys)).filled _ first found⟩
        · unfold entriesOf at entry
          rw [if_neg low] at entry
          have member : cip ∈ (history cip.caid list).map fun x =>
              { caid := cip.caid
                idents := [{ ident := x.1, lengths := [x.2] }] } := by
            rw [← entry]
            exact List.mem_cons_self
          obtain ⟨x, _, equal⟩ := List.mem_map.mp member
          exact ⟨_, [], (congrArg CaidNode.idents equal).symm,
            List.cons_ne_nil _ _⟩
      obtain ⟨first, others, split, lengths⟩ := some
      intro x there
      rw [places, List.flatMap_cons, split, List.map_cons, List.cons_append,
        List.head?_cons, Option.mem_some] at there
      rw [← there]
      exact lengths

theorem fills_mkTEcmwhitelist (tmp : Memory) (built : Built whitelist list) :
    (mkTEcmwhitelist tmp whitelist).print.Fills
      (mkTEcmwhitelist tmp whitelist).needed (textOf (filled whitelist)) := by
  have loops : whitelist.foldl (putCaid (neededFor whitelist))
      (Print.startIn tmp, []) =
        (places whitelist).foldl (fun state x =>
          putIdent (neededFor whitelist) x.1 state x.2)
            (Print.startIn tmp, []) := by
    rw [places, List.foldl_flatMap]
    simp only [List.foldl_map]
    rfl
  have printed := (fills_places (Print.fills_startIn (neededFor whitelist) tmp)
    (places whitelist) (first_filled built)).1
  rw [filter_places, ← loops] at printed
  exact printed

theorem zero_not_mem_textOf (xs : List (Nat × IdentNode)) : 0 ∉ textOf xs := by
  apply Separated.not_mem_intercalate (by decide)
  intro field listed inside
  obtain ⟨x, _, rfl⟩ := List.mem_map.mp listed
  rcases List.mem_append.mp inside with front | lens
  · unfold lead at front
    split at front
    · split at front
      · simp [not_mem_hexadecimal (c := 0) rfl] at front
      · simp [not_mem_hexadecimal (c := 0) rfl] at front
    · cases front
  · exact not_mem_lenTexts rfl (by decide) _ lens

/-- A list that was read is saved if and only if the estimate is large enough
and it is readable. -/
theorem whitelistSaved_iff (tmp : Memory) (value : List UInt8) :
    Saved tmp (ecmWhitelist value) ↔
      Fits (ecmWhitelist value) ∧ Readable (ecmWhitelist value) := by
  have built := built_ecmWhitelist value
  have back : Reread (ecmWhitelist (textOf (filled (ecmWhitelist value))))
      (ecmWhitelist value) := fun _ _ _ => has_textOf_iff built typed_filled
  have checks := rejected_eq_iff built (built_ecmWhitelist _) back
  have fills := fills_mkTEcmwhitelist tmp built
  rw [Saved, Copied.inside_iff fills, fits_iff typed_filled]
  apply and_congr_right
  intro fits
  rw [Copied.string_of_fills fills (zero_not_mem_textOf _) fits, checks]

/-- An identification of caid 0 comes back as all identifications, and a long
identification with a long length is copied from behind the array. -/
theorem whitelist_changed :
    ¬ Saved .zero (ecmWhitelist (ascii "0@000001:10")) ∧
      ¬ (mkTEcmwhitelist .zero
        (ecmWhitelist (ascii "0100@12345678:1FFF"))).Inside := by
  refine ⟨?_, by decide⟩
  rintro ⟨_, same⟩
  have other := same (request 0x0100 2 0x20)
  exact absurd other (by decide)

end Oscam.EcmWhitelist
