import Oscam.Stat.StatFile

/-!
# Lines of the file with the statistics

The line that is written for a record is read back as this record, if its
label has no comma.
-/

namespace Oscam.Stat

open Monitor (ascii cstr isBlank)

variable {label : List UInt8} {stat : ReaderStat}

/-! ## Fields -/

/-- A number in a line. -/
structure IsField (field : List UInt8) : Prop where
  some : field ≠ []
  number : ∀ c ∈ field, numberChar c = true
  short : field.length ≤ 20

theorem isField_hexadecimal {width n : Nat} (some : 0 < width)
    (short : width ≤ 20) (small : n < 2 ^ 32) :
    IsField (hexadecimal width n) := by
  have digits : n < 16 ^ 20 := by omega
  exact
    { some := padded_ne_nil some
      number := numberChar_padded (by decide) (by decide)
      short := length_padded_le (by decide) digits short }

theorem isField_decimal {n : Int} (small : n.natAbs < 10 ^ 19) :
    IsField (decimal n) := by
  have some : padded 10 1 n.natAbs ≠ [] := padded_ne_nil (by decide)
  have number : ∀ c ∈ padded 10 1 n.natAbs, numberChar c = true :=
    numberChar_padded (by decide) (by decide)
  have short : (padded 10 1 n.natAbs).length ≤ 19 :=
    length_padded_le (by decide) small (by decide)
  unfold decimal
  split
  · constructor
    · exact List.cons_ne_nil _ _
    · intro c member
      rcases List.mem_cons.mp member with rfl | member
      · rfl
      · exact number c member
    · rw [List.length_cons]
      omega
  · exact ⟨some, number, by omega⟩

theorem isField_int32 {value : Int} (typed : int32 value = value) :
    IsField (decimal value) := by
  apply isField_decimal
  unfold int32 at typed
  have := Int.bmod_lt (x := value) (m := 2 ^ 32) (by decide)
  have := Int.le_bmod (x := value) (m := 2 ^ 32) (by decide)
  omega

theorem ReaderStat.Typed.isField (typed : stat.Typed) :
    ∀ field ∈ statFields stat, IsField field := by
  have lastReceived : stat.lastReceived.natAbs < 10 ^ 19 := by
    have := Int.bmod_lt (x := stat.lastReceived) (m := 2 ^ 64) (by decide)
    have := Int.le_bmod (x := stat.lastReceived) (m := 2 ^ 64) (by decide)
    have := typed.lastReceived
    omega
  have caid := typed.caid
  have srvid := typed.srvid
  have hexadecimals : ∀ width n, 0 < width → width ≤ 20 → n < 2 ^ 32 →
      IsField (hexadecimal width n) := fun width n => isField_hexadecimal
  simp only [statFields, List.forall_mem_cons, List.not_mem_nil,
    false_implies, implies_true, and_true]
  refine ⟨isField_int32 typed.rc, ?caid, ?prid, ?srvid,
    isField_int32 typed.timeAvg, isField_int32 typed.ecmCount,
    isField_decimal lastReceived, isField_int32 typed.failFactor, ?ecmlen⟩
  case caid => exact hexadecimals 4 _ (by decide) (by decide) (by omega)
  case prid => exact hexadecimals 6 _ (by decide) (by decide) typed.prid
  case srvid => exact hexadecimals 4 _ (by decide) (by decide) (by omega)
  case ecmlen => exact hexadecimals 2 _ (by decide) (by decide) (by omega)

/-! ## Reading a line -/

/-- What stands behind the label. -/
def statRest (stat : ReaderStat) : List UInt8 :=
  44 :: [44].intercalate (statFields stat) ++ [10]

theorem statLine_eq (label : List UInt8) (stat : ReaderStat) :
    statLine label stat = label ++ statRest stat := by
  have some : statFields stat ≠ [] := List.cons_ne_nil _ _
  rw [statLine, List.intercalate_cons_of_ne_nil some, List.append_assoc,
    List.append_assoc]
  rfl

/-- The tokens of a line: the newline stays behind the last one. -/
def lineTokens (label : List UInt8) (stat : ReaderStat) :
    List (List UInt8) :=
  label :: (statFields stat).take 8 ++
    [hexadecimal 2 (stat.ecmlen % 2 ^ 16).toNat ++ [10]]

theorem intercalate_lineTokens (label : List UInt8) (stat : ReaderStat) :
    [44].intercalate (lineTokens label stat) = statLine label stat := by
  simp [lineTokens, statLine, statFields]

theorem not_mem_of_isField {field : List UInt8} (number : IsField field)
    {c : UInt8} (other : numberChar c = false) : c ∉ field := by
  intro member
  rw [number.number c member] at other
  exact Bool.noConfusion other

/-- A label without a comma is the first of ten tokens. -/
theorem strtok_statLine (typed : stat.Typed) (named : label ≠ [])
    (plain : 44 ∉ label) :
    strtok 44 (statLine label stat) = lineTokens label stat := by
  have ecmlen : IsField (hexadecimal 2 (stat.ecmlen % 2 ^ 16).toNat) :=
    typed.isField _ (by simp [statFields])
  have tokens : ∀ token ∈ lineTokens label stat,
      44 ∉ token ∧ token ≠ [] := by
    intro token member
    rcases List.mem_append.mp member with front | last
    · rcases List.mem_cons.mp front with rfl | member
      · exact ⟨plain, named⟩
      · have number := typed.isField token (List.mem_of_mem_take member)
        exact ⟨not_mem_of_isField number rfl, number.some⟩
    · rw [List.mem_singleton.mp last]
      constructor
      · intro comma
        rcases List.mem_append.mp comma with inside | newline
        · exact not_mem_of_isField ecmlen rfl inside
        · exact absurd (List.mem_singleton.mp newline) (by decide)
      · exact List.append_ne_nil_of_left_ne_nil ecmlen.some _
  have split : (statLine label stat).splitOn 44 = lineTokens label stat := by
    rw [← intercalate_lineTokens]
    exact List.splitOn_intercalate 44
      (fun token member => (tokens token member).1) (List.cons_ne_nil _ _)
  rw [strtok, split, List.filter_eq_self]
  intro token member
  simpa using (tokens token member).2

theorem a2iValue_hexadecimal {width bytes n : Nat} (some : 0 < width)
    (fits : width ≤ 2 * bytes) (small : n < 16 ^ (2 * bytes))
    (word : n < 2 ^ 32) : a2iValue (hexadecimal width n) bytes = n := by
  have none : ∀ c ∈ ([] : List UInt8), isBlank c = true := by simp
  have read := a2i_hexadecimal none some fits small word
  rw [List.append_nil] at read
  rw [a2iValue, read, Option.getD_some]

theorem atoi_decimal {value : Int} (typed : int32 value = value) :
    atoi (decimal value) = value := by
  rw [atoi, atol_decimal, typed]

/-- The length is written without a sign, and a newline is behind it. -/
theorem ecmlen_read (typed : stat.Typed) :
    int16 (a2iValue
      (hexadecimal 2 (stat.ecmlen % 2 ^ 16).toNat ++ [10]) 2) =
      stat.ecmlen := by
  have newline : ∀ c ∈ ([10] : List UInt8), isBlank c = true := by
    intro c member
    rw [List.mem_singleton.mp member]
    rfl
  have two : 2 ≤ 2 * 2 := by decide
  have small : (stat.ecmlen % 2 ^ 16).toNat < 16 ^ (2 * 2) := by omega
  have read := a2i_hexadecimal newline (by decide) two small (by omega)
  have value : ((stat.ecmlen % 2 ^ 16).toNat : Int) = stat.ecmlen % 2 ^ 16 := by
    omega
  have cut : (stat.ecmlen % 2 ^ 16).bmod (2 ^ 16) = int16 stat.ecmlen :=
    Int.emod_bmod stat.ecmlen (2 ^ 16)
  rw [a2iValue, read, Option.getD_some, value, int16, cut, typed.ecmlen]

/-- A line without a comma in its label is read back. -/
theorem readNew_statLine (typed : stat.Typed) (named : label ≠ [])
    (short : label.length < 64) (plain : 44 ∉ label) :
    readNew (statLine label stat) = some (label, stat) := by
  have caid : a2iValue (hexadecimal 4 stat.caid) 4 % 2 ^ 16 = stat.caid := by
    have small := typed.caid
    rw [a2iValue_hexadecimal (by decide) (by decide) (by omega) (by omega),
      Nat.mod_eq_of_lt small]
  have prid : a2iValue (hexadecimal 6 stat.prid) 6 = stat.prid := by
    have small := typed.prid
    exact a2iValue_hexadecimal (by decide) (by decide) (by omega) small
  have srvid : a2iValue (hexadecimal 4 stat.srvid) 4 % 2 ^ 16 =
      stat.srvid := by
    have small := typed.srvid
    rw [a2iValue_hexadecimal (by decide) (by decide) (by omega) (by omega),
      Nat.mod_eq_of_lt small]
  have whole : label.take 255 = label := List.take_of_length_le (by omega)
  rw [readNew, strtok_statLine typed named plain]
  simp only [lineTokens, statFields, List.take_succ_cons, List.take_zero,
    List.cons_append, List.nil_append, whole, caid, prid, srvid,
    atoi_decimal typed.rc, atoi_decimal typed.timeAvg,
    atoi_decimal typed.ecmCount, atol_decimal, atoi_decimal typed.failFactor,
    ecmlen_read typed]

/-! ## What a line is made of -/

theorem mem_statRest (typed : stat.Typed) {c : UInt8}
    (member : c ∈ statRest stat) :
    c = 44 ∨ c = 10 ∨ numberChar c = true := by
  rcases List.mem_append.mp member with front | newline
  · rcases List.mem_cons.mp front with comma | inside
    · exact Or.inl comma
    · rcases Separated.mem_intercalate inside with comma | ⟨field, listed, inside⟩
      · exact Or.inl comma
      · exact Or.inr (Or.inr
          ((typed.isField field listed).number c inside))
  · exact Or.inr (Or.inl (List.mem_singleton.mp newline))

theorem blank_not_mem_statRest (typed : stat.Typed) : 32 ∉ statRest stat := by
  intro member
  rcases mem_statRest typed member with comma | newline | number
  · exact absurd comma (by decide)
  · exact absurd newline (by decide)
  · exact absurd number (by decide)

/-- A blank of a line is in its label. -/
theorem blank_mem_label (typed : stat.Typed)
    (member : 32 ∈ statLine label stat) : 32 ∈ label := by
  rw [statLine_eq] at member
  rcases List.mem_append.mp member with inside | behind
  · exact inside
  · exact absurd behind (blank_not_mem_statRest typed)

/-- A line has no NUL byte, so that it is read to its end. -/
theorem cstr_statLine (typed : stat.Typed) (text : 0 ∉ label) :
    cstr (statLine label stat) = statLine label stat := by
  apply cstr_of_plain
  intro zero
  rw [statLine_eq] at zero
  rcases List.mem_append.mp zero with inside | behind
  · exact text inside
  · rcases mem_statRest typed behind with comma | newline | number
    · cases comma
    · cases newline
    · exact absurd number (by decide)

/-- A label without a newline makes one line. -/
theorem isLine_statLine (typed : stat.Typed) (short : label.length < 64)
    (plain : 10 ∉ label) : IsLine 1024 (statLine label stat) := by
  refine ⟨label ++ 44 :: [44].intercalate (statFields stat), ?split, ?newline,
    ?length⟩
  case split =>
    rw [statLine_eq, statRest, List.append_assoc]
  case newline =>
    intro member
    rcases List.mem_append.mp member with inside | behind
    · exact plain inside
    · rcases List.mem_cons.mp behind with comma | inside
      · exact absurd comma (by decide)
      · rcases Separated.mem_intercalate inside with comma | ⟨field, listed, inside⟩
        · exact absurd comma (by decide)
        · exact not_mem_of_isField (typed.isField field listed) rfl inside
  case length =>
    have fields : ([44].intercalate (statFields stat)).length ≤ 9 * 21 :=
      Separated.length_intercalate_le fun field listed =>
        (typed.isField field listed).short
    rw [List.length_append, List.length_cons]
    omega

theorem head?_statLine (named : label ≠ []) :
    (statLine label stat).head? = label.head? := by
  obtain ⟨c, rest, rfl⟩ := List.exists_cons_of_ne_nil named
  rw [statLine_eq]
  rfl

/-- The words of the older format can only stand in the label. -/
theorem infix_statLine_iff (label : List UInt8) (typed : stat.Typed) :
    ascii " rc " <:+: statLine label stat ↔ ascii " rc " <:+: label := by
  rw [statLine_eq]
  constructor
  · rintro ⟨front, back, split⟩
    rcases List.append_eq_append_iff.mp split with
      ⟨between, inLabel, _⟩ | ⟨between, inLine, behind⟩
    · exact ⟨front, between, inLabel.symm⟩
    · -- The last blank would be behind the label.
      rcases List.eq_nil_or_concat between with rfl | ⟨others, last, rfl⟩
      · rw [List.append_nil] at inLine
        exact ⟨front, [], by rw [List.append_nil, inLine]⟩
      · rw [List.concat_eq_append] at inLine behind
        have words : (front ++ ascii " rc ").getLast? = some 32 := by
          rw [List.getLast?_append]
          rfl
        have blank : last = 32 := by
          rw [inLine, ← List.append_assoc, List.getLast?_concat] at words
          exact Option.some.inj words
        have member : last ∈ statRest stat := by
          rw [behind]
          simp
        rw [blank] at member
        exact absurd member (blank_not_mem_statRest typed)
  · rintro ⟨front, back, rfl⟩
    exact ⟨front, back ++ statRest stat, by rw [List.append_assoc _ back]⟩

end Oscam.Stat
