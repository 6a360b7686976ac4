import Oscam.Config.Printing

/-!
# The tables of classes

`chk_cltab` reads the classes of a setting, and `mk_t_cltab` prints them again.
A class with an exclamation mark is blocked, one without is allowed.
-/

namespace Oscam.ClassTables

open Monitor (trim isBlank ascii)
open Serial (gethexval)

/-- The places of each of the two arrays. -/
abbrev classPlaces : Nat := 31

/-- `CLASSTAB`. -/
structure Classtab where
  an : UInt8
  bn : UInt8
  aclass : List UInt8
  bclass : List UInt8
  deriving DecidableEq, Repr

/-! ## Reading -/

/-- A class as it is stored, in a `uchar`. -/
def classOf (txt : List UInt8) : UInt8 :=
  UInt8.ofNat ((a2i txt 2).getD a2iError)

/-- `array[n++] = value`, or `none` for a place outside the array. -/
def push (n : UInt8) (array : List UInt8) (value : UInt8) :
    Option (UInt8 × List UInt8) :=
  if n.toNat < classPlaces then some (n + 1, array.set n.toNat value) else none

/-- A turn of the loop of `chk_cltab`. -/
def storeClass (clstab : Classtab) (ptr1 : List UInt8) : Option Classtab :=
  if (trim ptr1).head? = some 33 then
    (push clstab.bn clstab.bclass (classOf ((trim ptr1).drop 1))).map
      fun (bn, bclass) => { clstab with bn := bn, bclass := bclass }
  else
    (push clstab.an clstab.aclass (classOf (trim ptr1))).map
      fun (an, aclass) => { clstab with an := an, aclass := aclass }

def clearedClasses : Classtab :=
  { an := 0, bn := 0, aclass := List.replicate classPlaces 0
    bclass := List.replicate classPlaces 0 }

/-- `chk_cltab`; `none` when it writes outside an array.  The counter of its
loop stays 0, so that the loop ends with the text only. -/
def chkCltab (classasc : List UInt8) : Option Classtab :=
  (strtok 44 classasc).foldlM storeClass clearedClasses

/-! ## Printing -/

/-- `%02x`. -/
def classText (value : UInt8) : List UInt8 :=
  strtolower (hexadecimal 2 value.toNat)

/-- What is printed of the table. -/
def Classtab.items (clstab : Classtab) : List (List UInt8) :=
  (clstab.aclass.take clstab.an.toNat).map classText ++
    (clstab.bclass.take clstab.bn.toNat).map fun value => 33 :: classText value

/-- `mk_t_cltab`; `tmp` is what is in the memory of the array. -/
def mkTCltab (tmp : Memory) (clstab : Classtab) : Copied :=
  let needed := 1 + clstab.an.toNat * 3 + clstab.bn.toNat * 4
  { needed := needed
    print := (clstab.items.foldl (Print.putItem (Print.printLeft needed))
      (.startIn tmp, [])).1 }

/-! ## What is asked -/

/-- The items of a setting. -/
def classItems (classasc : List UInt8) : List (List UInt8) :=
  (strtok 44 classasc).map trim

def blocks (item : List UInt8) : Bool := item.head? == some 33

def allowed (items : List (List UInt8)) : List UInt8 :=
  (items.filter (!blocks ·)).map classOf

def blocked (items : List (List UInt8)) : List UInt8 :=
  (items.filter blocks).map fun item => classOf (item.drop 1)

/-- The classes are stored inside the arrays and counted, printed inside the
buffer, and read back as they are. -/
structure Kept (tmp : Memory) (classasc : List UInt8) (clstab : Classtab) :
    Prop where
  read : chkCltab classasc = some clstab
  an : clstab.an.toNat = (allowed (classItems classasc)).length
  bn : clstab.bn.toNat = (blocked (classItems classasc)).length
  aclass : clstab.aclass.take clstab.an.toNat = allowed (classItems classasc)
  bclass : clstab.bclass.take clstab.bn.toNat = blocked (classItems classasc)
  inside : (mkTCltab tmp clstab).Inside
  reread : chkCltab (mkTCltab tmp clstab).string = some clstab

/-! ## The loop over the items -/

/-- The table of these classes. -/
def tableOf (allowed blocked : List UInt8) : Classtab :=
  { an := UInt8.ofNat allowed.length
    bn := UInt8.ofNat blocked.length
    aclass := allowed ++ List.replicate (classPlaces - allowed.length) 0
    bclass := blocked ++ List.replicate (classPlaces - blocked.length) 0 }

variable {al bl : List UInt8} {items : List (List UInt8)} {value : UInt8}

theorem toNat_count {n : Nat} (few : n ≤ classPlaces) :
    (UInt8.ofNat n).toNat = n := by
  have small : n < 2 ^ 8 := by
    have limit : n ≤ 31 := few
    omega
  rw [UInt8.toNat_ofNat', Nat.mod_eq_of_lt small]

/-- One more class stands behind the others, if there is room for it. -/
theorem push_classes (few : al.length ≤ classPlaces) (value : UInt8) :
    push (UInt8.ofNat al.length)
        (al ++ List.replicate (classPlaces - al.length) 0) value =
      if (al ++ [value]).length ≤ classPlaces then
        some (UInt8.ofNat (al ++ [value]).length,
          (al ++ [value]) ++
            List.replicate (classPlaces - (al ++ [value]).length) 0)
      else none := by
  have longer : (al ++ [value]).length = al.length + 1 := by simp
  unfold push
  rw [toNat_count few]
  by_cases room : al.length < classPlaces
  · have zeros : classPlaces - al.length =
        classPlaces - (al ++ [value]).length + 1 := by omega
    have count : UInt8.ofNat al.length + 1 =
        UInt8.ofNat (al ++ [value]).length := by
      rw [longer, UInt8.ofNat_add]
      rfl
    rw [if_pos room, if_pos (by omega), zeros, List.replicate_succ, count,
      List.set_append_right _ _ (le_refl _), Nat.sub_self, List.set_cons_zero,
      List.append_assoc, List.singleton_append]
  · rw [if_neg room, if_neg (by omega)]

/-- The classes have places. -/
def Room (items : List (List UInt8)) : Prop :=
  (allowed items).length ≤ classPlaces ∧ (blocked items).length ≤ classPlaces

instance (items : List (List UInt8)) : Decidable (Room items) :=
  inferInstanceAs (Decidable (_ ∧ _))

/-- The table that the items stand for. -/
def tableFor (items : List (List UInt8)) : Classtab :=
  tableOf (allowed items) (blocked items)

theorem storeClass_tableFor (room : Room items) (token : List UInt8) :
    storeClass (tableFor items) token =
      if Room (items ++ [trim token]) then
        some (tableFor (items ++ [trim token]))
      else none := by
  unfold storeClass
  by_cases mark : blocks (trim token) = true
  · have head : (trim token).head? = some 33 := by simpa [blocks] using mark
    have front : allowed (items ++ [trim token]) = allowed items := by
      simp [allowed, mark]
    have back : blocked (items ++ [trim token]) =
        blocked items ++ [classOf ((trim token).drop 1)] := by
      simp [blocked, mark]
    have fits : Room (items ++ [trim token]) ↔
        (blocked items ++ [classOf ((trim token).drop 1)]).length ≤
          classPlaces := by
      rw [Room, front, back]
      exact and_iff_right room.1
    have stored := push_classes room.2 (classOf ((trim token).drop 1))
    unfold tableFor
    rw [if_pos head, front, back, tableOf, stored]
    simp only [fits]
    split <;> rfl
  · have head : ¬ (trim token).head? = some 33 := by simpa [blocks] using mark
    have front : allowed (items ++ [trim token]) =
        allowed items ++ [classOf (trim token)] := by
      simp [allowed, mark]
    have back : blocked (items ++ [trim token]) = blocked items := by
      simp [blocked, mark]
    have fits : Room (items ++ [trim token]) ↔
        (allowed items ++ [classOf (trim token)]).length ≤ classPlaces := by
      rw [Room, front, back]
      exact and_iff_left room.2
    have stored := push_classes room.1 (classOf (trim token))
    unfold tableFor
    rw [if_neg head, front, back, tableOf, stored]
    simp only [fits]
    split <;> rfl

theorem Room.of_append {more : List (List UInt8)}
    (room : Room (items ++ more)) :
    Room items := by
  obtain ⟨front, back⟩ := room
  unfold allowed at front
  unfold blocked at back
  simp only [List.filter_append, List.map_append, List.length_append]
    at front back
  constructor
  · unfold allowed
    omega
  · unfold blocked
    omega

/-- All writes are inside the arrays if and only if there is room. -/
theorem chkCltab_eq (classasc : List UInt8) :
    chkCltab classasc =
      if Room (classItems classasc) then some (tableFor (classItems classasc))
      else none := by
  unfold chkCltab classItems
  induction strtok 44 classasc using List.reverseRecOn with
  | nil => rfl
  | append_singleton tokens token induction =>
      rw [List.foldlM_append, induction, List.map_append, List.map_singleton]
      by_cases room : Room (tokens.map trim)
      · rw [if_pos room, ← storeClass_tableFor room token]
        simp
      · have longer : ¬ Room (tokens.map trim ++ [trim token]) :=
          fun all => room all.of_append
        rw [if_neg room, if_neg longer]
        rfl

/-! ## The text of a class -/

theorem mem_classText {c : UInt8} (member : c ∈ classText value) :
    ∃ digit < 16, c = tolower (digitChar digit) :=
  mem_strtolower_hexadecimal member

theorem isBlank_classText : ∀ c ∈ classText value, isBlank c = false := by
  intro c member
  obtain ⟨digit, small, rfl⟩ := mem_classText member
  exact isBlank_tolower small

/-- Zeros, commas and exclamation marks do not occur. -/
theorem not_mem_classText {c : UInt8} (other : c = 0 ∨ c = 44 ∨ c = 33) :
    c ∉ classText value := by
  intro member
  obtain ⟨digit, small, rfl⟩ := mem_classText member
  revert other
  interval_cases digit <;> decide

theorem length_classText (value : UInt8) : (classText value).length = 2 := by
  unfold classText strtolower
  rw [List.length_map]
  exact length_padded (by decide) value.toNat_lt

theorem trim_classText (value : UInt8) :
    trim (classText value) = classText value :=
  trim_of_plain isBlank_classText

theorem classOf_classText (value : UInt8) :
    classOf (classText value) = value := by
  have small : value.toNat < 2 ^ 8 := value.toNat_lt
  have length : (hexadecimal 2 value.toNat).length = 2 :=
    length_padded (by decide) small
  have whole : (hexadecimal 2 value.toNat).take 2 = hexadecimal 2 value.toNat :=
    List.take_of_length_le length.le
  have number : a2i (strtolower ((hexadecimal 2 value.toNat).take 2)) 2 =
      some (value.toNat / 16 ^ ((hexadecimal 2 value.toNat).length - 2)) :=
    a2i_strtolower_take 2 (by omega) (by omega)
  rw [whole, length, Nat.sub_self, Nat.pow_zero, Nat.div_one] at number
  unfold classOf classText
  rw [number, Option.getD_some]
  exact UInt8.ofNat_toNat

/-! ## Printing and reading again -/

/-- What is printed of these classes. -/
def texts (al bl : List UInt8) : List (List UInt8) :=
  al.map classText ++ bl.map fun value => 33 :: classText value

theorem items_tableOf (few : al.length ≤ classPlaces)
    (few' : bl.length ≤ classPlaces) : (tableOf al bl).items = texts al bl := by
  unfold Classtab.items tableOf texts
  rw [toNat_count few, toNat_count few', List.take_left, List.take_left]

theorem length_texts (al bl : List UInt8) :
    ([44].intercalate (texts al bl)).length <
      1 + al.length * 3 + bl.length * 4 := by
  have total := Separated.length_intercalate_le_sum (44 : UInt8) (texts al bl)
  have sizes : ((texts al bl).map fun field => field.length + 1).sum =
      al.length * 3 + bl.length * 4 := by
    unfold texts
    simp [Function.comp_def, length_classText]
  omega

/-- The texts hold no separators, and blanks are not cut from them. -/
theorem texts_plain {text : List UInt8} (listed : text ∈ texts al bl) :
    0 ∉ text ∧ 44 ∉ text ∧ text ≠ [] ∧ trim text = text := by
  have blanks (value : UInt8) :
      ∀ c ∈ 33 :: classText value, isBlank c = false := by
    intro c member
    rcases List.mem_cons.mp member with rfl | inside
    · rfl
    · exact isBlank_classText c inside
  rcases List.mem_append.mp listed with front | back
  · obtain ⟨value, _, rfl⟩ := List.mem_map.mp front
    refine ⟨not_mem_classText (.inl rfl), not_mem_classText (.inr (.inl rfl)),
      ?_, trim_classText value⟩
    intro empty
    have length := length_classText value
    rw [empty] at length
    cases length
  · obtain ⟨value, _, rfl⟩ := List.mem_map.mp back
    refine ⟨?_, ?_, List.cons_ne_nil _ _, trim_of_plain (blanks value)⟩
    · rw [List.mem_cons, not_or]
      exact ⟨by decide, not_mem_classText (.inl rfl)⟩
    · rw [List.mem_cons, not_or]
      exact ⟨by decide, not_mem_classText (.inr (.inl rfl))⟩

theorem classItems_texts (al bl : List UInt8) :
    classItems ([44].intercalate (texts al bl)) = texts al bl := by
  unfold classItems
  rw [strtok_intercalate (fun text listed => (texts_plain listed).2.1)
    fun text listed => (texts_plain listed).2.2.1]
  conv_rhs => rw [← List.map_id (texts al bl)]
  exact List.map_congr_left fun text listed => (texts_plain listed).2.2.2

theorem blocks_classText (value : UInt8) :
    blocks (classText value) = false := by
  unfold blocks
  rw [beq_eq_false_iff_ne]
  intro head
  exact not_mem_classText (.inr (.inr rfl)) (List.mem_of_head? head)

theorem allowed_texts (al bl : List UInt8) : allowed (texts al bl) = al := by
  have front : (al.map classText).filter (!blocks ·) = al.map classText := by
    apply List.filter_eq_self.mpr
    intro text listed
    obtain ⟨value, _, rfl⟩ := List.mem_map.mp listed
    rw [blocks_classText]
    rfl
  have back : (bl.map fun value => 33 :: classText value).filter
      (!blocks ·) = [] := by
    apply List.filter_eq_nil_iff.mpr
    intro text listed
    obtain ⟨value, _, rfl⟩ := List.mem_map.mp listed
    simp [blocks]
  unfold allowed texts
  rw [List.filter_append, front, back, List.append_nil, List.map_map]
  simp [Function.comp_def, classOf_classText]

theorem blocked_texts (al bl : List UInt8) : blocked (texts al bl) = bl := by
  have front : (al.map classText).filter blocks = [] := by
    apply List.filter_eq_nil_iff.mpr
    intro text listed
    obtain ⟨value, _, rfl⟩ := List.mem_map.mp listed
    rw [blocks_classText]
    decide
  have back : (bl.map fun value => 33 :: classText value).filter blocks =
      bl.map fun value => 33 :: classText value := by
    apply List.filter_eq_self.mpr
    intro text listed
    obtain ⟨value, _, rfl⟩ := List.mem_map.mp listed
    rfl
  unfold blocked texts
  rw [List.filter_append, front, back, List.nil_append, List.map_map]
  simp [Function.comp_def, classOf_classText]

/-- The table is printed inside its buffer. -/
theorem mkTCltab_tableOf (tmp : Memory) (few : al.length ≤ classPlaces)
    (few' : bl.length ≤ classPlaces) :
    (mkTCltab tmp (tableOf al bl)).Inside ∧
      (mkTCltab tmp (tableOf al bl)).string =
        [44].intercalate (texts al bl) := by
  have needed : (mkTCltab tmp (tableOf al bl)).needed =
      1 + al.length * 3 + bl.length * 4 := by
    unfold mkTCltab tableOf
    rw [toNat_count few, toNat_count few']
  have fills : (mkTCltab tmp (tableOf al bl)).print.Fills
      (mkTCltab tmp (tableOf al bl)).needed
      ([44].intercalate (texts al bl)) := by
    rw [← items_tableOf few few']
    exact Print.foldl_putItem _ (Print.fills_startIn _ tmp)
      fun p txt dot _ item _ printed => printed.printLeft (dot ++ item)
  have fits : ([44].intercalate (texts al bl)).length <
      (mkTCltab tmp (tableOf al bl)).needed := by
    rw [needed]
    exact length_texts al bl
  refine ⟨(Copied.inside_iff fills).mpr fits,
    Copied.string_of_fills fills ?_ fits⟩
  apply Separated.not_mem_intercalate (by decide)
  intro text listed
  exact (texts_plain listed).1

/-- The classes are kept if and only if each of the two arrays has a place for
all of its classes. -/
theorem classesKept_iff (tmp : Memory) (classasc : List UInt8) :
    (∃ clstab, Kept tmp classasc clstab) ↔ Room (classItems classasc) := by
  constructor
  · rintro ⟨clstab, kept⟩
    by_contra full
    have read := kept.read
    rw [chkCltab_eq, if_neg full] at read
    cases read
  · intro room
    obtain ⟨inside, string⟩ := mkTCltab_tableOf tmp room.1 room.2
    have stored := chkCltab_eq classasc
    rw [if_pos room] at stored
    refine ⟨tableFor (classItems classasc), stored, toNat_count room.1,
      toNat_count room.2, ?_, ?_, inside, ?_⟩
    · unfold tableFor tableOf
      rw [toNat_count room.1, List.take_left]
    · unfold tableFor tableOf
      rw [toNat_count room.2, List.take_left]
    · have same : Room (texts (allowed (classItems classasc))
          (blocked (classItems classasc))) := by
        unfold Room
        rw [allowed_texts, blocked_texts]
        exact room
      unfold tableFor
      rw [string, chkCltab_eq, classItems_texts, if_pos same, tableFor,
        allowed_texts, blocked_texts]

/-- A setting with 32 allowed classes. -/
def manyClasses : List UInt8 :=
  [44].intercalate (List.replicate 32 (ascii "01"))

/-- The counter of the loop does not stop it at the end of the array. -/
theorem manyClasses_overflow :
    ¬ ∃ clstab, Kept .zero manyClasses clstab := by
  rintro ⟨clstab, kept⟩
  have read := kept.read
  rw [show chkCltab manyClasses = none by decide] at read
  cases read

end Oscam.ClassTables
