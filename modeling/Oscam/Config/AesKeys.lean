import Oscam.Config.Printing

/-!
# The AES keys of a reader

`parse_aes_keys` reads the setting aeskeys, in which a key has its number by
its place, and `mk_t_aeskeys` prints the list with a 0 for every number that is
left out.  Entries for the same caid and identification that come one behind
the other are printed as one.
-/

namespace Oscam.AesKeys

open Monitor (ascii trim isBlank)

/-- `AES_ENTRY`; `key` is made of `plainkey`. -/
structure AesEntry where
  keyid : Nat
  caid : Nat
  ident : Nat
  plainkey : List UInt8
  deriving DecidableEq, Repr

/-! ## Reading -/

/-- `strtok_r`: a token, and what is behind it. -/
def strtokR (separator : UInt8) (txt : List UInt8) :
    Option (List UInt8 × List UInt8) :=
  let txt := txt.dropWhile (· = separator)
  if txt = [] then none
  else
    some (txt.takeWhile (· ≠ separator),
      (txt.dropWhile (· ≠ separator)).drop 1)

/-- The loop over the keys with `key_id`, and what it adds to the list. -/
def addKeys (caid ident : Nat) : Nat → List (List UInt8) → List AesEntry
  | _, [] => []
  | keyId, tmp :: tokens =>
      if tmp.length = 32 then
        { keyid := keyId % 2 ^ 16, caid := caid, ident := ident
          plainkey := keyAtobL tmp 32 } :: addKeys caid ident (keyId + 1) tokens
      else
        let dummy := (a2i tmp 1).getD a2iError % 2 ^ 16
        if (dummy ≠ 0xFF ∧ dummy ≠ 0) ∨ 2 < tmp.length then
          addKeys caid ident (keyId + 1) tokens
        else if dummy = 0 then addKeys caid ident (keyId + 1) tokens
        else
          { keyid := keyId % 2 ^ 16, caid := caid, ident := ident
            plainkey := List.replicate 16 0xFF } ::
              addKeys caid ident (keyId + 1) tokens

/-- `parse_aes_entry`; `none` if there is no caid or no identification, which
`a2i` does not stand. -/
def parseAesEntry (value : List UInt8) : Option (List AesEntry) :=
  match strtokR 64 value with
  | none => none
  | some (caid, rest) =>
      match strtokR 58 rest with
      | none => none
      | some (ident, keys) =>
          some (addKeys ((a2i caid 2).getD a2iError % 2 ^ 16)
            ((a2i ident 3).getD a2iError) 0 (strtok 44 keys))

/-- `parse_aes_keys`: the new list. -/
def parseAesKeys (value : List UInt8) : Option (List AesEntry) :=
  ((strtok 59 value).mapM parseAesEntry).map List.flatten

/-! ## Decrypting -/

/-- The key that is found for a caid, a provider and a key number. -/
def selected (list : List AesEntry) (caid provid keyid : Nat) :
    Option (List UInt8) :=
  (list.find? fun current =>
    current.caid = caid ∧ current.ident = provid ∧
      current.keyid = keyid).map AesEntry.plainkey

/-- `aes_decrypt_from_list` with `AES_decrypt` of a block; a key that begins
with two bytes FF is none at all. -/
def aesDecryptFromList (aesDecrypt : List UInt8 → List UInt8 → List UInt8)
    (list : List AesEntry) (caid provid keyid : Nat) (buf : List UInt8) :
    Nat × List UInt8 :=
  match selected list caid provid keyid with
  | none => (0, buf)
  | some plainkey =>
      if plainkey.take 2 = [0xFF, 0xFF] then (1, buf)
      else
        (1, (List.range ((buf.length + 15) / 16)).foldl
          (fun buf i =>
            buf.take (16 * i) ++
              aesDecrypt plainkey ((buf.drop (16 * i)).take 16) ++
              buf.drop (16 * i + 16)) buf)

/-! ## Printing -/

/-- `prevCaid`, `prevIdent` and `prevKeyid`. -/
structure Prev where
  caid : Nat
  ident : Nat
  keyid : Int
  deriving DecidableEq, Repr

def Prev.start : Prev := { caid := 0, ident := 0, keyid := 0 }

def Prev.next (current : AesEntry) : Prev :=
  { caid := current.caid, ident := current.ident, keyid := current.keyid }

/-- The caid or the identification is another one. -/
def changed (prev : Prev) (current : AesEntry) : Prop :=
  prev.caid ≠ current.caid ∨ prev.ident ≠ current.ident

instance (prev : Prev) (current : AesEntry) :
    Decidable (changed prev current) :=
  inferInstanceAs (Decidable (_ ∨ _))

/-- What the first loop adds to `needed`. -/
def cost (prev : Prev) (current : AesEntry) : Int :=
  (if changed prev current then 12 + (current.keyid : Int) * 2
    else if prev.keyid ≠ current.keyid + 1 then
      (current.keyid - prev.keyid - 1) * 2
    else 0) + 33

def costs : Prev → List AesEntry → Int
  | _, [] => 0
  | prev, current :: list => cost prev current + costs (.next current) list

/-- The size that `mk_t_aeskeys` estimates. -/
def neededFor (list : List AesEntry) : Nat := (1 + costs .start list).toNat

/-- A key of which all bytes are FF. -/
def AesEntry.onCard (current : AesEntry) : Bool :=
  keyText current.plainkey = List.replicate 32 70

def keyPart (current : AesEntry) : List UInt8 :=
  if current.onCard then [70, 70] else keyText current.plainkey

/-- The keys that are left out in front of one. -/
def gaps (prevKeyid : Int) (current : AesEntry) : Nat :=
  (current.keyid - (prevKeyid + 1)).toNat

def header (current : AesEntry) : List UInt8 :=
  hexadecimal 4 current.caid ++ 64 :: hexadecimal 6 current.ident

/-- One turn of the second loop. -/
def putKey (needed : Nat) (state : Print × Prev) (current : AesEntry) :
    Print × Prev :=
  let fresh := changed state.2 current
  let p :=
    if fresh then
      let p := if 0 < state.1.pos then (state.1.store 59).advance 1 else state.1
      p.printLeft needed (header current)
    else state.1
  let n := gaps (if fresh then -1 else state.2.keyid) current
  let dot : UInt8 := if fresh then 58 else 44
  let p := (List.range n).foldl
    (fun p i => p.printLeft needed [if i = 0 then dot else 44, 48]) p
  let p := (p.store (if n = 0 then dot else 44)).advance 1
  (p.printLeft needed (keyPart current), .next current)

/-- The array in front of the second loop. -/
def begun (tmp : Memory) (needed : Nat) : Print :=
  if needed = 1 then (Print.startIn tmp).store 0 else .startIn tmp

/-- `mk_t_aeskeys`; `tmp` is what is in the memory of the array. -/
def mkTAeskeys (tmp : Memory) (list : List AesEntry) : Copied :=
  let needed := neededFor list
  { needed := needed
    print := (list.foldl (putKey needed) (begun tmp needed, .start)).1 }

/-- The list is printed inside the array, and what is found in the list that is
read back is the same as before, so that everything is decrypted as before. -/
def Saved (tmp : Memory) (list : List AesEntry) : Prop :=
  (mkTAeskeys tmp list).Inside ∧
    ∃ again, parseAesKeys (mkTAeskeys tmp list).string = some again ∧
      (∀ caid provid keyid,
        selected again caid provid keyid = selected list caid provid keyid) ∧
      ∀ aesDecrypt caid provid keyid buf,
        aesDecryptFromList aesDecrypt again caid provid keyid buf =
          aesDecryptFromList aesDecrypt list caid provid keyid buf

/-! ## The size -/

/-- What the estimate of the size is too small by, in keys that are left out:
a step back by one is not counted. -/
def stepBack (prev current : AesEntry) : Nat :=
  if prev.caid = current.caid ∧ prev.ident = current.ident ∧
      prev.keyid ≠ current.keyid + 1 then
    prev.keyid + 1 - current.keyid
  else 0

def stepsBack : List AesEntry → Nat
  | prev :: current :: list =>
      stepBack prev current + stepsBack (current :: list)
  | _ => 0

/-! ## The text -/

/-- The 0 of every key that is left out, and the key. -/
def newKeys (n : Nat) (current : AesEntry) : List (List UInt8) :=
  List.replicate n [48] ++ [keyPart current]

/-- What one turn prints. -/
def piece (first : Bool) (prev : Prev) (current : AesEntry) : List UInt8 :=
  if changed prev current then
    (if first then [] else [59]) ++ header current ++
      58 :: [44].intercalate (newKeys (gaps (-1) current) current)
  else 44 :: [44].intercalate (newKeys (gaps prev.keyid current) current)

def textFrom : Bool → Prev → List AesEntry → List UInt8
  | _, _, [] => []
  | first, prev, current :: list =>
      piece first prev current ++ textFrom false (.next current) list

theorem gaps_header (current : AesEntry) :
    gaps (-1) current = current.keyid := by
  unfold gaps
  omega

theorem gaps_next (prev current : AesEntry) :
    gaps (Prev.next prev).keyid current =
      current.keyid - (prev.keyid + 1) := by
  show (_ - ((prev.keyid : Int) + 1)).toNat = _
  omega

variable {needed : Nat} {p : Print} {txt : List UInt8} {list : List AesEntry}
  {current : AesEntry}

/-- The fields of an entry have 16 and 24 bits. -/
structure AesEntry.Typed (current : AesEntry) : Prop where
  keyid : current.keyid < 2 ^ 16
  caid : current.caid < 2 ^ 16
  ident : current.ident < 2 ^ 24
  plainkey : current.plainkey.length = 16

theorem placed_gaps (fills : p.Fills needed txt) (n : Nat) (dot : UInt8)
    (last : List UInt8) :
    ((((List.range n).foldl
      (fun p i => p.printLeft needed [if i = 0 then dot else 44, 48])
        p).store (if n = 0 then dot else 44)).advance 1 |>.printLeft needed
          last).Fills needed
      (txt ++ dot :: [44].intercalate (List.replicate n [48] ++ [last])) := by
  have loop : ((List.range n).foldl
      (fun p i => p.printLeft needed [if i = 0 then dot else 44, 48])
        p).Fills needed
      (txt ++ if n = 0 then []
        else dot :: [44].intercalate (List.replicate n [48])) := by
    induction n with
    | zero => simpa using fills
    | succ n induction =>
        have step := induction.printLeft [if n = 0 then dot else 44, 48]
        rw [List.range_succ, List.foldl_append, List.replicate_succ',
          Separated.intercalate_append_singleton]
        by_cases first : n = 0
        · subst first
          simpa using step
        · have zeros : List.replicate n ([48] : List UInt8) ≠ [] := by
            simpa using first
          simpa [first, zeros] using step
  have done := ((loop.toPlaced.store (if n = 0 then dot else 44)).printLeft
    last)
  rw [Separated.intercalate_append_singleton]
  by_cases none : n = 0
  · subst none
    simpa using done
  · have zeros : List.replicate n ([48] : List UInt8) ≠ [] := by
      simpa using none
    simpa [none, zeros] using done

theorem fills_putKey (prev : Prev) (fills : p.Fills needed txt)
    (current : AesEntry) :
    (putKey needed (p, prev) current).1.Fills needed
      (txt ++ piece (txt = []) prev current) := by
  unfold putKey piece
  dsimp only
  by_cases fresh : changed prev current
  · simp only [if_pos fresh]
    have front : ((if 0 < p.pos then (p.store 59).advance 1 else p).printLeft
        needed (header current)).Fills needed
          (txt ++ (if txt = [] then [] else [59]) ++ header current) := by
      rw [fills.pos]
      by_cases none : txt = []
      · subst none
        simpa using fills.printLeft (header current)
      · have some : 0 < txt.length := List.length_pos_iff.mpr none
        rw [if_pos some, if_neg none]
        exact (fills.toPlaced.store 59).printLeft (header current)
    have step := placed_gaps front (gaps (-1) current) 58 (keyPart current)
    rw [List.append_assoc, List.append_assoc] at step
    simpa only [newKeys, decide_eq_true_eq, List.append_assoc] using step
  · simp only [if_neg fresh]
    exact placed_gaps fills (gaps prev.keyid current) 44 (keyPart current)

theorem piece_ne_nil (first : Bool) (prev : Prev) (current : AesEntry) :
    piece first prev current ≠ [] := by
  unfold piece
  split
  · simp
  · exact List.cons_ne_nil _ _

theorem fills_textFrom (prev : Prev) (fills : p.Fills needed txt) :
    (list.foldl (putKey needed) (p, prev)).1.Fills needed
      (txt ++ textFrom (txt = []) prev list) := by
  induction list generalizing p txt prev with
  | nil => simpa [textFrom] using fills
  | cons current list induction =>
      have step := induction (.next current) (fills_putKey prev fills current)
      have some : txt ++ piece (decide (txt = [])) prev current ≠ [] :=
        List.append_ne_nil_of_right_ne_nil _ (piece_ne_nil _ prev current)
      rw [decide_eq_false some, List.append_assoc] at step
      exact step

theorem fills_begun (tmp : Memory) (needed : Nat) :
    (begun tmp needed).Fills needed [] := by
  unfold begun
  split
  · exact ⟨⟨rfl, fun _ => ⟨rfl, rfl⟩, fun _ => le_refl 1⟩,
      fun _ some => absurd rfl some⟩
  · exact Print.fills_startIn needed tmp

theorem fills_mkTAeskeys (tmp : Memory) (list : List AesEntry) :
    (mkTAeskeys tmp list).print.Fills (mkTAeskeys tmp list).needed
      (textFrom true .start list) :=
  fills_textFrom .start (fills_begun tmp (neededFor list))

/-! ## The size of the text -/

theorem length_newKeys (n : Nat) (current : AesEntry) :
    ([44].intercalate (newKeys n current)).length =
      2 * n + (keyPart current).length := by
  have some : newKeys n current ≠ [] := by simp [newKeys]
  have total := Separated.length_intercalate 44 some
  simp [newKeys] at total ⊢
  omega

theorem AesEntry.Typed.length_header (typed : current.Typed) :
    (header current).length = 11 := by
  have caid : (hexadecimal 4 current.caid).length = 4 :=
    length_padded (by decide) typed.caid
  have ident : (hexadecimal 6 current.ident).length = 6 :=
    length_padded (by decide) typed.ident
  rw [header, List.length_append, List.length_cons, caid, ident]

theorem AesEntry.Typed.length_keyPart (typed : current.Typed) :
    (keyPart current).length = if current.onCard then 2 else 32 := by
  unfold keyPart
  split
  · rfl
  · rw [length_keyText, typed.plainkey]

/-- What one turn is counted with, and what it prints. -/
theorem AesEntry.Typed.cost_eq (typed : current.Typed) (prev : AesEntry) :
    cost (.next prev) current = (piece false (.next prev) current).length +
      (if current.onCard then 30 else 0) - 2 * stepBack prev current := by
  have key := typed.length_keyPart
  have head := typed.length_header
  have same : changed (.next prev) current ↔
      ¬ (prev.caid = current.caid ∧ prev.ident = current.ident) := by
    unfold changed Prev.next
    tauto
  unfold cost piece stepBack
  by_cases fresh : changed (.next prev) current
  · have other := same.mp fresh
    have none : ¬ (prev.caid = current.caid ∧ prev.ident = current.ident ∧
        prev.keyid ≠ current.keyid + 1) := by
      tauto
    rw [if_pos fresh, if_pos fresh, if_neg none, gaps_header]
    simp only [List.length_append, List.length_cons, length_newKeys, head, key,
      Bool.false_eq_true, if_false, List.length_nil]
    split <;> omega
  · have here := not_not.mp (mt same.mpr fresh)
    rw [if_neg fresh, if_neg fresh, List.length_cons, length_newKeys, key]
    have before : (Prev.next prev).keyid = (prev.keyid : Int) := rfl
    rw [before, gaps]
    by_cases one : prev.keyid = current.keyid + 1
    · have same : ¬ (prev.keyid : Int) ≠ current.keyid + 1 := by omega
      have none : ¬ (prev.caid = current.caid ∧ prev.ident = current.ident ∧
          prev.keyid ≠ current.keyid + 1) := fun back => back.2.2 one
      rw [if_neg same, if_neg none]
      split <;> omega
    · have other : (prev.keyid : Int) ≠ current.keyid + 1 := by omega
      have back : prev.caid = current.caid ∧ prev.ident = current.ident ∧
          prev.keyid ≠ current.keyid + 1 := ⟨here.1, here.2, one⟩
      rw [if_pos other, if_pos back]
      split <;> omega

theorem costs_eq (prev : AesEntry) (typed : ∀ current ∈ list, current.Typed) :
    costs (.next prev) list = (textFrom false (.next prev) list).length +
      30 * list.countP AesEntry.onCard - 2 * stepsBack (prev :: list) := by
  induction list generalizing prev with
  | nil => rfl
  | cons current list induction =>
      have rest := induction current fun other member =>
        typed other (List.mem_cons_of_mem _ member)
      have first := (typed current List.mem_cons_self).cost_eq prev
      rw [costs, textFrom, stepsBack, first, rest, List.countP_cons,
        List.length_append]
      split <;> omega

/-- The size is enough if the steps back are few. -/
theorem inside_mkTAeskeys_iff (tmp : Memory)
    (typed : ∀ current ∈ list, current.Typed)
    (begins : ∀ current ∈ list.head?, changed .start current) :
    (mkTAeskeys tmp list).Inside ↔
      stepsBack list ≤ 15 * list.countP AesEntry.onCard := by
  rw [Copied.inside_iff (fills_mkTAeskeys tmp list)]
  show (textFrom true .start list).length < neededFor list ↔ _
  rw [neededFor]
  cases list with
  | nil => decide
  | cons current list =>
      have rest := costs_eq current fun other member =>
        typed other (List.mem_cons_of_mem _ member)
      have here := typed current List.mem_cons_self
      have fresh := begins current rfl
      have first : (piece true .start current).length =
          12 + 2 * current.keyid + if current.onCard then 2 else 32 := by
        rw [piece, if_pos fresh, gaps_header]
        simp only [List.length_append, List.length_cons, length_newKeys,
          here.length_header, here.length_keyPart, if_true, List.length_nil]
        omega
      rw [costs, cost, if_pos fresh, textFrom, List.length_append, first,
        List.countP_cons, rest]
      split <;> omega

/-! ## The characters of the text -/

/-- A key, or a 0 in its place. -/
structure IsKey (token : List UInt8) : Prop where
  some : token ≠ []
  numbers : ∀ c ∈ token, numberChar c = true

theorem IsKey.not_mem {token : List UInt8} (key : IsKey token) {c : UInt8}
    (other : numberChar c = false) : c ∉ token := by
  intro member
  have number := key.numbers c member
  rw [other] at number
  exact Bool.false_ne_true number

theorem AesEntry.Typed.isKey_keyPart (typed : current.Typed) :
    IsKey (keyPart current) where
  some empty := by
    have length := typed.length_keyPart
    rw [empty, List.length_nil] at length
    split at length <;> omega
  numbers c member := by
    unfold keyPart at member
    split at member
    · have letter : c = 70 := by simpa using member
      rw [letter]
      rfl
    · obtain ⟨b, _, inside⟩ := List.mem_flatMap.mp member
      exact numberChar_padded (by decide) (by decide) c inside

theorem AesEntry.Typed.isKey_newKeys (typed : current.Typed) (n : Nat) :
    ∀ token ∈ newKeys n current, IsKey token := by
  intro token member
  rcases List.mem_append.mp member with zeros | last
  · rw [List.eq_of_mem_replicate zeros]
    exact ⟨List.cons_ne_nil _ _, List.all_eq_true.mp rfl⟩
  · rw [List.mem_singleton.mp last]
    exact typed.isKey_keyPart

theorem not_mem_header {c : UInt8} (other : numberChar c = false)
    (sign : c ≠ 64) (current : AesEntry) : c ∉ header current := by
  intro member
  rcases List.mem_append.mp member with caid | rest
  · exact not_mem_hexadecimal other 4 _ caid
  · rcases List.mem_cons.mp rest with here | ident
    · exact sign here
    · exact not_mem_hexadecimal other 6 _ ident

theorem not_mem_intercalate {c : UInt8} (other : numberChar c = false)
    (comma : c ≠ 44) {tokens : List (List UInt8)}
    (keys : ∀ token ∈ tokens, IsKey token) :
    c ∉ [44].intercalate tokens := by
  apply Separated.not_mem_intercalate comma
  intro token listed
  exact (keys token listed).not_mem other

theorem zero_not_mem_textFrom {first : Bool} {prev : Prev}
    (typed : ∀ current ∈ list, current.Typed) :
    0 ∉ textFrom first prev list := by
  induction list generalizing first prev with
  | nil => exact List.not_mem_nil
  | cons current list induction =>
      have keys (n : Nat) : 0 ∉ [44].intercalate (newKeys n current) :=
        not_mem_intercalate rfl (by decide)
          ((typed current List.mem_cons_self).isKey_newKeys n)
      have head : 0 ∉ header current := not_mem_header rfl (by decide) current
      have rest : 0 ∉ textFrom false (.next current) list :=
        induction fun other member =>
          typed other (List.mem_cons_of_mem _ member)
      unfold textFrom piece
      split
      · cases first <;> simp [keys, head, rest]
      · simp [keys, rest]

end Oscam.AesKeys
