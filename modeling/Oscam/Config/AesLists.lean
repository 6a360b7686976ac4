import Oscam.Config.AesKeys

/-!
# Lists of AES keys that are read back

A key is read back with its place in the text of its clause as its number.
The place is behind the number as soon as a key does not come behind the one in
front of it, so that the list that is read back may be another one.
-/

namespace Oscam.AesKeys

open Monitor (ascii)

/-! ## The list that is read back -/

/-- How far the place of a key is behind its number: every key that does not
come behind the one in front of it moves itself and all others up. -/
def drift (prev : Option (AesEntry × Nat)) (current : AesEntry) : Nat :=
  match prev with
  | none => 0
  | some (prev, shift) =>
      if prev.caid = current.caid ∧ prev.ident = current.ident then
        shift + (prev.keyid + 1 - current.keyid)
      else 0

def shiftedFrom : Option (AesEntry × Nat) → List AesEntry → List AesEntry
  | _, [] => []
  | prev, current :: list =>
      { current with keyid := (current.keyid + drift prev current) % 2 ^ 16 } ::
        shiftedFrom (some (current, drift prev current)) list

/-- The list with the places of the keys as their numbers. -/
def shifted (list : List AesEntry) : List AesEntry := shiftedFrom none list

/-- A header is printed for the first key. -/
def Headed (list : List AesEntry) : Prop :=
  ∀ current ∈ list.head?, 0 < current.caid ∨ 0 < current.ident

variable {list : List AesEntry} {current : AesEntry}

theorem Headed.changed (headed : Headed list) :
    ∀ current ∈ list.head?, changed .start current := by
  intro current first
  have some := headed current first
  show 0 ≠ current.caid ∨ 0 ≠ current.ident
  omega

/-! ## Reading keys -/

theorem addKeys_append (caid ident n : Nat)
    (front back : List (List UInt8)) :
    addKeys caid ident n (front ++ back) =
      addKeys caid ident n front ++
        addKeys caid ident (n + front.length) back := by
  induction front generalizing n with
  | nil => rfl
  | cons token front induction =>
      have next : n + 1 + front.length = n + (front.length + 1) := by omega
      have rest := induction (n + 1)
      rw [next] at rest
      simp only [List.cons_append, List.length_cons, addKeys, rest]
      split
      · rfl
      · split
        · rfl
        · split <;> rfl

theorem addKeys_zeros (caid ident n count : Nat) :
    addKeys caid ident n (List.replicate count [48]) = [] := by
  induction count generalizing n with
  | zero => rfl
  | succ count induction =>
      have zero : (a2i [48] 1).getD a2iError % 2 ^ 16 = 0 := by decide
      rw [List.replicate_succ, addKeys, if_neg (by decide)]
      dsimp only
      rw [zero, if_neg (by decide), if_pos rfl, induction]

/-- All digits of a key that is printed as FF. -/
theorem AesEntry.Typed.plainkey_of_onCard (typed : current.Typed)
    (only : current.onCard) : current.plainkey = List.replicate 16 0xFF := by
  have digits : keyText current.plainkey = List.replicate 32 70 :=
    of_decide_eq_true only
  have again := keyAtobL_keyText current.plainkey
  rw [digits, typed.plainkey] at again
  rw [← again]
  decide

theorem AesEntry.Typed.addKeys_keyPart (typed : current.Typed) (n : Nat) :
    addKeys current.caid current.ident n [keyPart current] =
      [{ current with keyid := n % 2 ^ 16 }] := by
  have length := typed.length_keyPart
  by_cases only : current.onCard
  · have part : keyPart current = [70, 70] := if_pos only
    have card : (a2i [70, 70] 1).getD a2iError % 2 ^ 16 = 0xFF := by decide
    rw [part, addKeys, if_neg (by decide)]
    dsimp only
    rw [card, if_neg (by decide), if_neg (by decide),
      ← typed.plainkey_of_onCard only]
    rfl
  · have part : keyPart current = keyText current.plainkey := if_neg only
    have key := keyAtobL_keyText current.plainkey
    rw [typed.plainkey] at key
    rw [if_neg only] at length
    rw [addKeys, if_pos length, part, key]
    rfl

/-- The zeros in front of a key give it its place. -/
theorem AesEntry.Typed.addKeys_newKeys (typed : current.Typed)
    (n count : Nat) :
    addKeys current.caid current.ident n (newKeys count current) =
      [{ current with keyid := (n + count) % 2 ^ 16 }] := by
  rw [newKeys, addKeys_append, addKeys_zeros, List.nil_append,
    List.length_replicate, typed.addKeys_keyPart]

/-! ## Reading clauses -/

theorem strtokR_append {separator : UInt8} {front : List UInt8}
    (plain : separator ∉ front) (some : front ≠ []) (back : List UInt8) :
    strtokR separator (front ++ separator :: back) =
      Option.some (front, back) := by
  have other (c : UInt8) (member : c ∈ front) : c ≠ separator := by
    rintro rfl
    exact plain member
  have start : (front ++ separator :: back).dropWhile (· = separator) =
      front ++ separator :: back := by
    obtain ⟨c, rest, rfl⟩ := List.exists_cons_of_ne_nil some
    have first := other c List.mem_cons_self
    rw [List.cons_append, List.dropWhile_cons_of_neg (by simpa using first)]
  have all : ∀ c ∈ front, decide (c ≠ separator) = true :=
    fun c member => decide_eq_true (other c member)
  unfold strtokR
  dsimp only
  rw [start, if_neg (by simp), List.takeWhile_append_of_pos all,
    List.dropWhile_append_of_pos all]
  simp

theorem AesEntry.Typed.parseAesEntry_header (typed : current.Typed)
    {tokens : List (List UInt8)} (keys : ∀ token ∈ tokens, IsKey token) :
    parseAesEntry
        (header current ++ 58 :: [44].intercalate tokens) =
      some (addKeys current.caid current.ident 0 tokens) := by
  have word := typed.caid
  have small := typed.ident
  have caid : a2i (hexadecimal 4 current.caid) 2 = some current.caid :=
    a2i_hexadecimal_alone (by decide) (by decide) word (by omega)
  have ident : a2i (hexadecimal 6 current.ident) 3 = some current.ident :=
    a2i_hexadecimal_alone (by decide) (by decide) small (by omega)
  have list : strtok 44 ([44].intercalate tokens) = tokens :=
    strtok_intercalate (fun token member => (keys token member).not_mem rfl)
      fun token member => (keys token member).some
  unfold parseAesEntry header
  rw [List.append_assoc, List.cons_append,
    strtokR_append (not_mem_hexadecimal rfl 4 _) (padded_ne_nil (by decide))]
  dsimp only
  rw [strtokR_append (not_mem_hexadecimal rfl 6 _) (padded_ne_nil (by decide))]
  dsimp only
  rw [list, caid, ident, Option.getD_some, Option.getD_some,
    Nat.mod_eq_of_lt word]

theorem parseAesKeys_of_not_mem {value : List UInt8} (plain : 59 ∉ value)
    (some : value ≠ []) : parseAesKeys value = parseAesEntry value := by
  have single : strtok 59 ([59].intercalate [value]) = [value] :=
    strtok_intercalate (by simpa using plain) (by simpa using some)
  rw [List.intercalate_singleton] at single
  rw [parseAesKeys, single, List.mapM_cons]
  cases parseAesEntry value with
  | none => rfl
  | some entries =>
      show Option.some [entries].flatten = _
      rw [List.flatten_singleton]

theorem parseAesKeys_append {front : List UInt8} (plain : 59 ∉ front)
    (some : front ≠ []) (back : List UInt8) :
    parseAesKeys (front ++ 59 :: back) =
      (parseAesEntry front).bind fun entries =>
        (parseAesKeys back).map (entries ++ ·) := by
  rw [parseAesKeys, parseAesKeys, strtok_append plain some, List.mapM_cons]
  cases parseAesEntry front with
  | none => rfl
  | some entries =>
      cases (strtok 59 back).mapM parseAesEntry with
      | none => rfl
      | some others => rfl

/-! ## Reading the text -/

theorem semicolon_not_mem {tokens : List (List UInt8)}
    (keys : ∀ token ∈ tokens, IsKey token) (current : AesEntry) :
    59 ∉ header current ++ 58 :: [44].intercalate tokens := by
  have head := not_mem_header (c := 59) rfl (by decide) current
  have rest := not_mem_intercalate (c := 59) rfl (by decide) keys
  simp [head, rest]

/-- In the text in front of the list is the clause of `prev`, whose keys are
`shift` places behind their numbers. -/
theorem parse_textFrom {prev : AesEntry} (shift : Nat)
    {tokens : List (List UInt8)} (here : prev.Typed)
    (typed : ∀ current ∈ list, current.Typed)
    (keys : ∀ token ∈ tokens, IsKey token)
    (count : tokens.length = prev.keyid + shift + 1) :
    parseAesKeys (header prev ++ 58 :: [44].intercalate tokens ++
        textFrom false (.next prev) list) =
      some (addKeys prev.caid prev.ident 0 tokens ++
        shiftedFrom (some (prev, shift)) list) := by
  induction list generalizing prev shift tokens with
  | nil =>
      rw [textFrom, List.append_nil, shiftedFrom, List.append_nil,
        parseAesKeys_of_not_mem (semicolon_not_mem keys prev) (by simp),
        here.parseAesEntry_header keys]
  | cons current list induction =>
      have there := typed current List.mem_cons_self
      have later (other : AesEntry) (member : other ∈ list) : other.Typed :=
        typed other (List.mem_cons_of_mem _ member)
      have others (n : Nat) := there.isKey_newKeys n
      rw [textFrom, shiftedFrom]
      by_cases same : prev.caid = current.caid ∧ prev.ident = current.ident
      · -- The keys go on in the clause, behind the one of `prev` in any case.
        have stays : ¬ changed (.next prev) current := by
          unfold changed Prev.next
          tauto
        have shifted : drift (some (prev, shift)) current =
            shift + (prev.keyid + 1 - current.keyid) := if_pos same
        have header : header prev = header current := by
          unfold AesKeys.header
          rw [same.1, same.2]
        have front : tokens ≠ [] := by
          rintro rfl
          simp at count
        have all : ∀ token ∈ tokens ++ newKeys
            (current.keyid - (prev.keyid + 1)) current, IsKey token := by
          intro token member
          exact (List.mem_append.mp member).elim (keys token) (others _ token)
        have rest := induction (shift + (prev.keyid + 1 - current.keyid))
          there later all (by
            simp only [List.length_append, newKeys, List.length_replicate,
              List.length_singleton, count]
            omega)
        have place : tokens.length + (current.keyid - (prev.keyid + 1)) =
            current.keyid + (shift + (prev.keyid + 1 - current.keyid)) := by
          omega
        rw [Separated.intercalate_append front (by simp [newKeys]),
          addKeys_append, Nat.zero_add, there.addKeys_newKeys, place] at rest
        rw [piece, if_neg stays, gaps_next, shifted, header, same.1, same.2]
        simpa only [List.append_assoc, List.cons_append, List.nil_append]
          using rest
      · -- The clause ends, and the next one has no key yet.
        have fresh : changed (.next prev) current := by
          unfold changed Prev.next
          tauto
        have none : drift (some (prev, shift)) current = 0 := if_neg same
        have rest := induction 0 there later (others current.keyid)
          (by simp [newKeys])
        rw [there.addKeys_newKeys, Nat.zero_add] at rest
        have clauses := parseAesKeys_append (semicolon_not_mem keys prev)
          (by simp) (header current ++ 58 ::
            [44].intercalate (newKeys current.keyid current) ++
              textFrom false (.next current) list)
        rw [here.parseAesEntry_header keys, rest] at clauses
        rw [piece, if_pos fresh, gaps_header, none]
        simpa using clauses

/-- Behind a header the list is read back with the places of its keys. -/
theorem parse_text (typed : ∀ current ∈ list, current.Typed)
    (headed : Headed list) :
    parseAesKeys (textFrom true .start list) = some (shifted list) := by
  cases list with
  | nil => rfl
  | cons current list =>
      have here := typed current List.mem_cons_self
      have fresh := headed.changed current rfl
      have read := parse_textFrom 0 here
        (fun other member => typed other (List.mem_cons_of_mem _ member))
        (here.isKey_newKeys current.keyid) (by simp [newKeys])
      rw [here.addKeys_newKeys, Nat.zero_add] at read
      rw [textFrom, piece, if_pos fresh, if_pos rfl, List.nil_append,
        gaps_header, read]
      rfl

theorem parseAesEntry_of_not_mem {value : List UInt8} (plain : 64 ∉ value) :
    parseAesEntry value = none := by
  have all : ∀ c ∈ value, c ≠ 64 := by
    rintro c member rfl
    exact plain member
  have start : value.dropWhile (· = 64) = value := by
    rw [List.dropWhile_eq_self_iff]
    intro inside
    simpa using all _ (List.getElem_mem inside)
  have rest : value.dropWhile (· ≠ 64) = [] := by
    rw [List.dropWhile_eq_nil_iff]
    exact fun c member => decide_eq_true (all c member)
  unfold parseAesEntry
  by_cases none : value = []
  · rw [none]
    rfl
  · have token : strtokR 64 value =
        some (value.takeWhile (· ≠ 64), []) := by
      unfold strtokR
      dsimp only
      rw [start, if_neg none, rest, List.drop_nil]
    rw [token]
    rfl

/-- Without a header there is no caid to read. -/
theorem parse_of_plain {front : List UInt8} {prev : AesEntry}
    (filled : front ≠ []) (clause : 59 ∉ front) (caid : 64 ∉ front)
    (typed : ∀ current ∈ list, current.Typed) :
    parseAesKeys (front ++ textFrom false (.next prev) list) = none := by
  induction list generalizing front prev with
  | nil =>
      rw [textFrom, List.append_nil, parseAesKeys_of_not_mem clause filled,
        parseAesEntry_of_not_mem caid]
  | cons current list induction =>
      have here := typed current List.mem_cons_self
      rw [textFrom, piece]
      split
      · rw [if_neg (by decide)]
        have clauses := parseAesKeys_append clause filled
          (header current ++ 58 :: [44].intercalate
            (newKeys (gaps (-1) current) current) ++
              textFrom false (.next current) list)
        rw [parseAesEntry_of_not_mem caid] at clauses
        simpa using clauses
      · have keys := here.isKey_newKeys (gaps (Prev.next prev).keyid current)
        have noClause := not_mem_intercalate (c := 59) rfl (by decide) keys
        have noCaid := not_mem_intercalate (c := 64) rfl (by decide) keys
        rw [← List.append_assoc]
        exact induction (by simp) (by simp [clause, noClause])
          (by simp [caid, noCaid])
          fun other member => typed other (List.mem_cons_of_mem _ member)

/-! ## The lists that are built -/

/-- As far as the text has room, it is the string. -/
theorem string_mkTAeskeys (tmp : Memory)
    (typed : ∀ current ∈ list, current.Typed)
    (inside : (mkTAeskeys tmp list).Inside) :
    (mkTAeskeys tmp list).string = textFrom true .start list := by
  have fills := fills_mkTAeskeys tmp list
  exact Copied.string_of_fills fills (zero_not_mem_textFrom typed)
    ((Copied.inside_iff fills).mp inside)

theorem headed_of_saved {tmp : Memory}
    (typed : ∀ current ∈ list, current.Typed) (saved : Saved tmp list) :
    Headed list := by
  obtain ⟨inside, again, read, _⟩ := saved
  rw [string_mkTAeskeys tmp typed inside] at read
  intro current first
  by_contra none
  cases list with
  | nil => cases first
  | cons head list =>
      obtain rfl := Option.some.inj first
      have here := typed head List.mem_cons_self
      have stays : ¬ changed .start head := by
        show ¬ (0 ≠ head.caid ∨ 0 ≠ head.ident)
        omega
      have keys := here.isKey_newKeys (gaps Prev.start.keyid head)
      have noClause := not_mem_intercalate (c := 59) rfl (by decide) keys
      have noCaid := not_mem_intercalate (c := 64) rfl (by decide) keys
      rw [textFrom, piece, if_neg stays,
        parse_of_plain (by simp) (by simp [noClause]) (by simp [noCaid])
          fun other member => typed other (List.mem_cons_of_mem _ member)]
        at read
      cases read

/-- What is decrypted depends only on the key that is found. -/
theorem aesDecryptFromList_congr {again : List AesEntry}
    {caid provid keyid : Nat}
    (same : selected again caid provid keyid = selected list caid provid keyid)
    (aesDecrypt : List UInt8 → List UInt8 → List UInt8) (buf : List UInt8) :
    aesDecryptFromList aesDecrypt again caid provid keyid buf =
      aesDecryptFromList aesDecrypt list caid provid keyid buf := by
  unfold aesDecryptFromList
  rw [same]

theorem saved_iff_of_typed (tmp : Memory)
    (typed : ∀ current ∈ list, current.Typed) :
    Saved tmp list ↔ Headed list ∧
      stepsBack list ≤ 15 * list.countP AesEntry.onCard ∧
        ∀ caid provid keyid, selected (shifted list) caid provid keyid =
          selected list caid provid keyid := by
  constructor
  · intro saved
    have headed := headed_of_saved typed saved
    obtain ⟨inside, again, read, same, _⟩ := saved
    have few := (inside_mkTAeskeys_iff tmp typed headed.changed).mp inside
    rw [string_mkTAeskeys tmp typed inside, parse_text typed headed] at read
    obtain rfl := Option.some.inj read
    exact ⟨headed, few, same⟩
  · rintro ⟨headed, few, same⟩
    have inside := (inside_mkTAeskeys_iff tmp typed headed.changed).mpr few
    refine ⟨inside, shifted list, ?_, same, fun aesDecrypt _ _ _ buf =>
      aesDecryptFromList_congr (same _ _ _) aesDecrypt buf⟩
    rw [string_mkTAeskeys tmp typed inside, parse_text typed headed]

/-! ## Lists without steps back -/

/-- Next to each other, the keys of a caid and an identification rise. -/
def Rising (list : List AesEntry) : Prop :=
  list.IsChain fun prev current =>
    prev.caid = current.caid → prev.ident = current.ident →
      prev.keyid < current.keyid

theorem stepsBack_of_rising (rising : Rising list) : stepsBack list = 0 := by
  unfold Rising at rising
  induction rising with
  | nil => rfl
  | singleton => rfl
  | cons_cons next _ induction =>
      rw [stepsBack, induction, stepBack]
      split
      · rename_i same
        have less := next same.1 same.2.1
        omega
      · rfl

theorem shiftedFrom_of_rising {prev : AesEntry}
    (typed : ∀ current ∈ list, current.Typed)
    (rising : Rising (prev :: list)) :
    shiftedFrom (some (prev, 0)) list = list := by
  unfold Rising at rising
  induction list generalizing prev with
  | nil => rfl
  | cons current list induction =>
      obtain ⟨next, rest⟩ := List.isChain_cons_cons.mp rising
      have none : drift (some (prev, 0)) current = 0 := by
        rw [drift]
        split
        · rename_i same
          have less := next same.1 same.2
          omega
        · rfl
      have number := (typed current List.mem_cons_self).keyid
      rw [shiftedFrom, none, Nat.add_zero, Nat.mod_eq_of_lt number,
        induction (fun other member => typed other
          (List.mem_cons_of_mem _ member)) rest]

/-- A list of which the keys rise is saved. -/
theorem saved_of_rising (tmp : Memory)
    (typed : ∀ current ∈ list, current.Typed) (headed : Headed list)
    (rising : Rising list) : Saved tmp list := by
  have same : shifted list = list := by
    cases list with
    | nil => rfl
    | cons current list =>
        have number := (typed current List.mem_cons_self).keyid
        rw [shifted, shiftedFrom, drift, Nat.add_zero, Nat.mod_eq_of_lt number,
          shiftedFrom_of_rising (fun other member => typed other
            (List.mem_cons_of_mem _ member)) rising]
  rw [saved_iff_of_typed tmp typed, stepsBack_of_rising rising, same]
  exact ⟨headed, Nat.zero_le _, fun _ _ _ => rfl⟩

/-! ## Lists that were read -/

end Oscam.AesKeys
