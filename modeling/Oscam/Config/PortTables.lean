import Oscam.Config.FilterTables

/-!
# The tables of ports

`chk_port_tab` reads the setting port of newcamd and cs378x in two passes.  The
first one finds the ports with their keys, the second one the caids and
providers behind them.  The place of a provider is its number in the text of
the port, its filter the one that was opened last, also for another port.
-/

namespace Oscam.PortTables

open Monitor (trim splitAt ascii isBlank)
open Serial (gethexval)
open FilterTables (csMaxfilters csMaxprov readPrid)

/-- `CS_MAXPORTS`. -/
abbrev csMaxports : Nat := 32

/-- `FILTER`. -/
structure Filter where
  caid : Nat
  nprids : Nat
  prids : List Nat
  deriving DecidableEq, Repr

def Filter.empty : Filter :=
  { caid := 0, nprids := 0, prids := List.replicate csMaxprov 0 }

/-- `FTAB`. -/
structure Ftab where
  nfilts : Nat
  filts : List Filter
  deriving DecidableEq, Repr

def Ftab.empty : Ftab :=
  { nfilts := 0, filts := List.replicate csMaxfilters .empty }

/-- `PORT`; there is a key if `ncd_key_is_set`. -/
structure Port where
  sPort : Int
  ncdKey : Option (List UInt8)
  ftab : Ftab
  deriving DecidableEq, Repr

def Port.empty : Port := { sPort := 0, ncdKey := none, ftab := .empty }

/-- `PTAB`. -/
structure Ptab where
  nports : Nat
  ports : List Port
  deriving DecidableEq, Repr

/-! ## Items -/

/-- `CAID:ident`, or a further ident. -/
structure Item where
  caid : Option Nat
  prid : Nat
  deriving DecidableEq, Repr

def readItem (ptr3 : List UInt8) : Item :=
  match splitAt 58 (trim ptr3) with
  | some (caid, prid) =>
      { caid := some ((a2i caid 4).getD a2iError % 2 ^ 16)
        prid := readPrid prid }
  | none => { caid := none, prid := readPrid (trim ptr3) }

/-- A provider at place `j`; the counter is one byte. -/
def Filter.store (j prid : Nat) (filt : Filter) : Filter :=
  { filt with
    prids := filt.prids.set j prid, nprids := (filt.nprids + 1) % 2 ^ 8 }

/-- One turn of the loop over the items, with `ifilt`; `none` if the filter is
not in the array. -/
def chkItem (state : Ftab × Nat) (item : Item × Nat) : Option (Ftab × Nat) :=
  match item.1.caid with
  | some caid =>
      let ifilt := state.1.nfilts
      if ifilt < csMaxfilters then
        some
          ({ nfilts := state.1.nfilts + 1
             filts := state.1.filts.modify ifilt fun filt =>
               { filt with caid := caid }.store item.2 item.1.prid },
            ifilt)
      else none
  | none =>
      let ifilt := state.2
      if ifilt < csMaxfilters then
        some
          ({ state.1 with
             filts := state.1.filts.modify ifilt
               (Filter.store item.2 item.1.prid) },
            ifilt)
      else none

/-! ## Ports -/

/-- What the first pass finds between two semicolons. -/
structure Token where
  /-- There is a port. -/
  counted : Bool
  sPort : Int
  ncdKey : Option (List UInt8)
  /-- The string that is left at the begin. -/
  front : List UInt8
  /-- `ptr[i]`, without the items that the second pass leaves out. -/
  items : List Item

def readItems (ptr : List UInt8) : List Item :=
  ((strtok 44 ptr).take csMaxprov).map readItem

/-- The body of the first loop. -/
def readToken (ptr1 : List UInt8) : Token :=
  match splitAt 64 (trim ptr1) with
  | some (ptr1, ptr2) =>
      match splitAt 123 (trim ptr1) with
      | some (front, ptr3) =>
          { counted := true
            sPort := atol ptr1
            ncdKey :=
              if keyAtobLError ptr3 28 then none else some (keyAtobL ptr3 28)
            front := front
            items := readItems ptr2 }
      | none =>
          { counted := true, sPort := atol ptr1, ncdKey := none
            front := trim ptr1, items := readItems ptr2 }
  | none =>
      { counted := false, sPort := 0, ncdKey := none, front := trim ptr1
        items := readItems (trim ptr1) }

/-- The table after the first pass; one single number is a port. -/
def firstPass (portasc : List UInt8) (tokens : List Token) : Ptab :=
  let ports := tokens.map fun token =>
    { sPort := token.sPort, ncdKey := token.ncdKey, ftab := .empty }
  let rest := List.replicate (csMaxports - tokens.length) Port.empty
  match tokens with
  | [token] =>
      let left := portasc.takeWhile (· = 59) ++ token.front
      if left.length < 6 ∧ token.sPort = 0 then
        { nports := 1
          ports := { sPort := atol left, ncdKey := token.ncdKey
                     ftab := .empty } :: rest }
      else
        { nports := tokens.countP (·.counted), ports := ports ++ rest }
  | _ => { nports := tokens.countP (·.counted), ports := ports ++ rest }

/-- The body of the second loop, with `iport` and `ifilt`. -/
def chkToken (state : Ptab × Nat × Nat) (token : Token × Nat) :
    Option (Ptab × Nat × Nat) :=
  let iport := if token.1.sPort ≠ 0 then token.2 else state.2.1
  match state.1.ports[iport]? with
  | none => none
  | some port =>
      (token.1.items.zipIdx.foldlM chkItem (port.ftab, state.2.2)).map
        fun items =>
          ({ state.1 with
             ports := state.1.ports.set iport { port with ftab := items.1 } },
            iport, items.2)

/-- `chk_port_tab`; `none` if it writes behind the filters of a port. -/
def chkPortTab (portasc : List UInt8) : Option Ptab :=
  let tokens := ((strtok 59 portasc).take csMaxports).map readToken
  (tokens.zipIdx.foldlM chkToken (firstPass portasc tokens, 0, 0)).map
    Prod.fst

/-! ## Port strings -/

/-- A number of hexadecimal digits. -/
structure HexText where
  txt : List UInt8
  filled : txt ≠ []
  digits : ∀ c ∈ txt, (gethexval c).isSome

/-- A key of 14 bytes. -/
structure KeyText where
  txt : List UInt8
  length : txt.length = 28
  digits : ∀ c ∈ txt, (gethexval c).isSome

/-- `[CAID:]ident`. -/
structure ItemText where
  caid : Option HexText
  ident : HexText

/-- `port[{key}]@[item][,item]...` with the number of a TCP port. -/
structure PortText where
  port : List UInt8
  digits : ∀ c ∈ port, isDigit c
  nonzero : 0 < leadingNumber port
  small : leadingNumber port < 2 ^ 16
  key : Option KeyText
  items : List ItemText

def ItemText.text (x : ItemText) : List UInt8 :=
  (x.caid.elim [] fun caid => caid.txt ++ [58]) ++ x.ident.txt

def PortText.text (e : PortText) : List UInt8 :=
  (e.port ++ e.key.elim [] fun key => 123 :: key.txt ++ [125]) ++
    64 :: [44].intercalate (e.items.map ItemText.text)

/-- The ports separated by semicolons. -/
def portsText (es : List PortText) : List UInt8 :=
  [59].intercalate (es.map PortText.text)

/-- The numbers of an item. -/
def ItemText.item (x : ItemText) : Item :=
  { caid := x.caid.map fun caid => (a2i caid.txt 4).getD a2iError % 2 ^ 16
    prid := readPrid x.ident.txt }

def PortText.number (e : PortText) : Nat := leadingNumber e.port

def PortText.keyBytes (e : PortText) : Option (List UInt8) :=
  e.key.map fun key => keyAtobL key.txt 28

/-! ## Reading a port string -/

variable {e : PortText} {es : List PortText}

theorem ne_of_hex {c d : UInt8} (digit : (gethexval c).isSome)
    (other : gethexval d = none) : c ≠ d := by
  rintro rfl
  rw [other] at digit
  cases digit

theorem isBlank_of_hex {c : UInt8} (digit : (gethexval c).isSome) :
    isBlank c = false := by
  have space := ne_of_hex (d := 32) digit rfl
  have tab := ne_of_hex (d := 9) digit rfl
  have newline := ne_of_hex (d := 10) digit rfl
  have feed := ne_of_hex (d := 13) digit rfl
  simp [isBlank, space, tab, newline, feed]

theorem not_mem_of_hex {txt : List UInt8} {d : UInt8}
    (digits : ∀ c ∈ txt, (gethexval c).isSome) (other : gethexval d = none) :
    d ∉ txt := fun member => ne_of_hex (digits d member) other rfl

theorem hex_of_isDigit {c : UInt8} (digit : isDigit c) :
    (gethexval c).isSome := by
  unfold isDigit at digit
  unfold gethexval
  rw [if_pos (by simpa using digit)]
  rfl

theorem mem_itemText {x : ItemText} {c : UInt8} (member : c ∈ x.text) :
    (gethexval c).isSome ∨ c = 58 := by
  unfold ItemText.text at member
  rcases List.mem_append.mp member with caid | ident
  · cases given : x.caid with
    | none =>
        rw [given] at caid
        cases caid
    | some number =>
        rw [given] at caid
        rcases List.mem_append.mp caid with digit | colon
        · exact .inl (number.digits c digit)
        · exact .inr (List.mem_singleton.mp colon)
  · exact .inl (x.ident.digits c ident)

theorem itemText_ne_nil (x : ItemText) : x.text ≠ [] :=
  List.append_ne_nil_of_right_ne_nil _ x.ident.filled

theorem readItem_text (x : ItemText) : readItem x.text = x.item := by
  have plain : trim x.text = x.text := by
    apply trim_of_plain
    intro c member
    rcases mem_itemText member with digit | rfl
    · exact isBlank_of_hex digit
    · rfl
  have ident : (58 : UInt8) ∉ x.ident.txt := not_mem_of_hex x.ident.digits rfl
  unfold readItem ItemText.item
  rw [plain]
  unfold ItemText.text
  cases given : x.caid with
  | none =>
      simp only [Option.elim_none, List.nil_append, Option.map_none]
      rw [splitAt_of_not_mem ident]
  | some number =>
      have caid : (58 : UInt8) ∉ number.txt := not_mem_of_hex number.digits rfl
      simp only [Option.elim_some, List.append_assoc, List.singleton_append,
        Option.map_some]
      rw [splitAt_append caid]

theorem readItems_text (items : List ItemText) :
    readItems ([44].intercalate (items.map ItemText.text)) =
      (items.take csMaxprov).map ItemText.item := by
  have tokens : strtok 44 ([44].intercalate (items.map ItemText.text)) =
      items.map ItemText.text := by
    apply strtok_intercalate
    · intro field member comma
      obtain ⟨x, _, rfl⟩ := List.mem_map.mp member
      rcases mem_itemText comma with digit | same
      · exact ne_of_hex digit rfl rfl
      · cases same
    · intro field member
      obtain ⟨x, _, rfl⟩ := List.mem_map.mp member
      exact itemText_ne_nil x
  rw [readItems, tokens, ← List.map_take, List.map_map]
  apply List.map_congr_left
  intro x _
  exact readItem_text x

/-- The number in front of a key. -/
theorem atol_port (e : PortText) {back : List UInt8}
    (stop : ∀ c ∈ back.head?, isDigit c = false) :
    atol (e.port ++ back) = e.number := by
  have filled : e.port ≠ [] := by
    intro none
    have some := e.nonzero
    rw [none] at some
    exact absurd some (by decide)
  have whole : (e.port ++ back).takeWhile isDigit = e.port := by
    rw [List.takeWhile_append_of_pos e.digits]
    cases back with
    | nil => simp
    | cons c back =>
        rw [List.takeWhile_cons_of_neg (by simpa using stop c rfl),
          List.append_nil]
  have same : leadingNumber (e.port ++ back) = e.number := by
    unfold PortText.number leadingNumber
    rw [whole, List.takeWhile_eq_self_iff.mpr e.digits]
  obtain ⟨c, rest, split⟩ := List.exists_cons_of_ne_nil filled
  have first : isDigit c = true := e.digits c (by rw [split]; simp)
  have blank : isSpace c = false := by
    unfold isDigit at first
    unfold isSpace
    grind
  have minus : c ≠ 45 := by
    rintro rfl
    cases first
  have plus : c ≠ 43 := by
    rintro rfl
    cases first
  rw [split] at same ⊢
  unfold atol
  rw [List.cons_append, List.dropWhile_cons_of_neg (by simpa using blank)]
  dsimp only
  rw [if_neg minus, if_neg plus, ← List.cons_append, same]

theorem keyAtobL_append {txt : List UInt8} (length : txt.length = 28)
    (back : List UInt8) : keyAtobL (txt ++ back) 28 = keyAtobL txt 28 := by
  unfold keyAtobL
  apply List.map_congr_left
  intro i member
  have inside := List.mem_range.mp member
  rw [List.getD_append _ _ _ _ (by omega), List.getD_append _ _ _ _ (by omega)]

theorem not_keyAtobLError {key : KeyText} (back : List UInt8) :
    keyAtobLError (key.txt ++ back) 28 = false := by
  unfold keyAtobLError
  rw [List.any_eq_false]
  intro i member
  have inside : i < key.txt.length := by
    rw [key.length]
    exact List.mem_range.mp member
  rw [List.getD_append _ _ _ _ inside, List.getD_eq_getElem _ _ inside]
  have digit := key.digits _ (List.getElem_mem inside)
  simpa [Option.isSome_iff_ne_none] using digit

/-- The string in front of the `@`. -/
def PortText.head (e : PortText) : List UInt8 :=
  e.port ++ e.key.elim [] fun key => 123 :: key.txt ++ [125]

theorem mem_head {c : UInt8} (member : c ∈ e.head) :
    (gethexval c).isSome ∨ c = 123 ∨ c = 125 := by
  rcases List.mem_append.mp member with digit | key
  · exact .inl (hex_of_isDigit (e.digits c digit))
  · cases given : e.key with
    | none =>
        rw [given] at key
        cases key
    | some number =>
        rw [given] at key
        simp only [Option.elim_some, List.cons_append, List.mem_cons,
          List.mem_append, List.not_mem_nil, or_false] at key
        rcases key with same | digit | same
        · exact .inr (.inl same)
        · exact .inl (number.digits c digit)
        · exact .inr (.inr same)

theorem mem_portText {c : UInt8} (member : c ∈ e.text) :
    (gethexval c).isSome ∨ c = 123 ∨ c = 125 ∨ c = 64 ∨ c = 44 ∨ c = 58 := by
  rcases List.mem_append.mp member with front | back
  · rcases mem_head front with digit | same | same
    · exact .inl digit
    · exact .inr (.inl same)
    · exact .inr (.inr (.inl same))
  · rcases List.mem_cons.mp back with same | items
    · exact .inr (.inr (.inr (.inl same)))
    · rcases Separated.mem_intercalate items with same | ⟨field, listed, inside⟩
      · exact .inr (.inr (.inr (.inr (.inl same))))
      · obtain ⟨x, _, rfl⟩ := List.mem_map.mp listed
        rcases mem_itemText inside with digit | same
        · exact .inl digit
        · exact .inr (.inr (.inr (.inr (.inr same))))

theorem isBlank_of_mark {c : UInt8}
    (mark : (gethexval c).isSome ∨ c = 123 ∨ c = 125 ∨ c = 64 ∨ c = 44 ∨
      c = 58) : isBlank c = false := by
  rcases mark with digit | rfl | rfl | rfl | rfl | rfl
  · exact isBlank_of_hex digit
  all_goals rfl

/-- What the first pass finds of a port. -/
theorem readToken_text (e : PortText) :
    ∃ front, readToken e.text =
      { counted := true, sPort := e.number, ncdKey := e.keyBytes
        front := front
        items := (e.items.take csMaxprov).map ItemText.item } := by
  have whole : trim e.text = e.text :=
    trim_of_plain fun c member => isBlank_of_mark (mem_portText member)
  have head : trim e.head = e.head := by
    apply trim_of_plain
    intro c member
    rcases mem_head member with digit | rfl | rfl
    · exact isBlank_of_hex digit
    · rfl
    · rfl
  have noAt : (64 : UInt8) ∉ e.head := by
    intro member
    rcases mem_head member with digit | same | same
    · exact ne_of_hex digit rfl rfl
    · cases same
    · cases same
  have noBrace : (123 : UInt8) ∉ e.port := fun member =>
    ne_of_hex (hex_of_isDigit (e.digits 123 member)) rfl rfl
  have split : splitAt 64 e.text =
      some (e.head, [44].intercalate (e.items.map ItemText.text)) :=
    splitAt_append noAt _
  unfold readToken
  rw [whole, split]
  dsimp only
  rw [head, readItems_text]
  unfold PortText.head PortText.keyBytes
  cases given : e.key with
  | none =>
      simp only [Option.elim_none, List.append_nil, Option.map_none]
      rw [splitAt_of_not_mem noBrace]
      have number := @atol_port e [] (by simp)
      rw [List.append_nil] at number
      exact ⟨_, by rw [number]⟩
  | some key =>
      simp only [Option.elim_some, List.cons_append, Option.map_some]
      rw [splitAt_append noBrace]
      dsimp only
      rw [not_keyAtobLError, keyAtobL_append key.length, atol_port e (by
        intro c first
        cases first
        rfl)]
      exact ⟨_, rfl⟩

theorem strtok_portsText (es : List PortText) :
    strtok 59 (portsText es) = es.map PortText.text := by
  apply strtok_intercalate
  · intro field member semicolon
    obtain ⟨e, _, rfl⟩ := List.mem_map.mp member
    rcases mem_portText semicolon with digit | same
    · exact ne_of_hex digit rfl rfl
    · simp at same
  · intro field member
    obtain ⟨e, _, rfl⟩ := List.mem_map.mp member
    exact List.append_ne_nil_of_right_ne_nil _ (List.cons_ne_nil _ _)

/-! ## The passes -/

/-- The items of a port that are read. -/
def PortText.read (e : PortText) : List Item :=
  (e.items.take csMaxprov).map ItemText.item

/-- A port without filters. -/
def PortText.bare (e : PortText) : Port :=
  { sPort := e.number, ncdKey := e.keyBytes, ftab := .empty }

/-- The filters of ports that are read one after the other. -/
def ftabs : Nat → List PortText → Option (List Ftab)
  | _, [] => some []
  | ifilt, e :: es =>
      (e.read.zipIdx.foldlM chkItem (Ftab.empty, ifilt)).bind fun items =>
        (ftabs items.2 es).map (items.1 :: ·)

/-- The ports with their filters, and the empty ones. -/
def portsOf (es : List PortText) (filled : List Ftab) : List Port :=
  List.zipWith (fun e ftab => { e.bare with ftab := ftab }) es filled ++
    List.replicate (csMaxports - es.length) .empty

theorem firstPass_ports {tokens : List Token} (portasc : List UInt8)
    (ports : ∀ token ∈ tokens, token.counted = true ∧ token.sPort ≠ 0) :
    firstPass portasc tokens =
      { nports := tokens.length
        ports := (tokens.map fun token =>
          { sPort := token.sPort, ncdKey := token.ncdKey, ftab := .empty }) ++
            List.replicate (csMaxports - tokens.length) Port.empty } := by
  have count : tokens.countP (·.counted) = tokens.length := by
    rw [List.countP_eq_length]
    exact fun token member => (ports token member).1
  unfold firstPass
  split
  · rename_i token
    have some := (ports token (List.mem_singleton_self token)).2
    rw [if_neg (fun single => some single.2), count]
  · rw [count]

theorem PortText.number_ne_zero (e : PortText) : (e.number : Int) ≠ 0 := by
  have some := e.nonzero
  unfold PortText.number
  omega

/-- The second pass over ports, when some have their filters already. -/
theorem foldlM_chkToken (es : List PortText) {tokens : List Token}
    (same : List.Forall₂ (fun token e => token.sPort = (e.number : Int) ∧
      token.items = e.read) tokens es) (done behind : List Port)
    (nports iport ifilt : Nat) :
    ((tokens.zipIdx done.length).foldlM chkToken
      ({ nports := nports, ports := done ++ es.map PortText.bare ++ behind },
        iport, ifilt)).map Prod.fst =
      (ftabs ifilt es).map fun filled =>
        { nports := nports
          ports := done ++
            List.zipWith (fun e ftab => { e.bare with ftab := ftab }) es filled ++
            behind } := by
  induction same generalizing done iport ifilt with
  | nil => simp [ftabs]
  | @cons token e tokens es first rest induction =>
      have number : token.sPort ≠ 0 := by
        rw [first.1]
        exact e.number_ne_zero
      have place : (done ++ (e :: es).map PortText.bare ++ behind)[done.length]? =
          some e.bare := by
        simp
      have step : chkToken
          ({ nports := nports
             ports := done ++ (e :: es).map PortText.bare ++ behind },
            iport, ifilt) (token, done.length) =
          (e.read.zipIdx.foldlM chkItem (Ftab.empty, ifilt)).map fun items =>
            ({ nports := nports
               ports := (done ++ [{ e.bare with ftab := items.1 }]) ++
                es.map PortText.bare ++ behind }, done.length, items.2) := by
        unfold chkToken
        dsimp only
        rw [if_pos number, place, first.2]
        dsimp only
        congr 1
        funext items
        simp [PortText.bare]
      rw [List.zipIdx_cons, List.foldlM_cons, step, ftabs]
      cases run : e.read.zipIdx.foldlM chkItem (Ftab.empty, ifilt) with
      | none => rfl
      | some items =>
          have next := induction (done ++ [{ e.bare with ftab := items.1 }])
            done.length items.2
          rw [List.length_append, List.length_singleton] at next
          simp only [Option.map_some, Option.bind_some, Option.map_map] at next ⊢
          show Option.map _ (List.foldlM _ _ _) = _
          rw [next]
          congr 1
          funext filled
          simp

/-- The table of a port string. -/
theorem chkPortTab_portsText (es : List PortText) :
    chkPortTab (portsText es) =
      (ftabs 0 (es.take csMaxports)).map fun filled =>
        { nports := (es.take csMaxports).length
          ports := portsOf (es.take csMaxports) filled } := by
  have tokens : List.Forall₂ (fun token e => token.sPort = (e.number : Int) ∧
      token.items = e.read) ((es.take csMaxports).map
        (readToken ∘ PortText.text)) (es.take csMaxports) := by
    rw [List.forall₂_map_left_iff, List.forall₂_same]
    intro e _
    obtain ⟨front, token⟩ := readToken_text e
    rw [Function.comp_apply, token]
    exact ⟨rfl, rfl⟩
  have ports : ((es.take csMaxports).map (readToken ∘ PortText.text)).map
      (fun token => { sPort := token.sPort, ncdKey := token.ncdKey
                      ftab := Ftab.empty : Port }) =
        (es.take csMaxports).map PortText.bare := by
    rw [List.map_map]
    apply List.map_congr_left
    intro e _
    obtain ⟨front, token⟩ := readToken_text e
    rw [Function.comp_apply, Function.comp_apply, token]
    rfl
  have run := foldlM_chkToken (es.take csMaxports) tokens []
    (List.replicate (csMaxports - (es.take csMaxports).length) .empty)
    (es.take csMaxports).length 0 0
  unfold chkPortTab
  rw [strtok_portsText, ← List.map_take, List.map_map]
  dsimp only
  rw [firstPass_ports _ (by
    intro token member
    obtain ⟨e, _, rfl⟩ := List.mem_map.mp member
    obtain ⟨front, token⟩ := readToken_text e
    rw [Function.comp_apply, token]
    exact ⟨rfl, e.number_ne_zero⟩), ports,
    List.length_map]
  exact run

/-! ## The filters of a port -/

/-- The items of a port from one caid to the next, and the place of the first
one. -/
structure Group where
  caid : Nat
  start : Nat
  prids : List Nat
  deriving DecidableEq, Repr

/-- An item goes to the last group if it has no caid. -/
def addGroup (groups : List Group) (item : Item × Nat) : List Group :=
  match item.1.caid with
  | some caid =>
      groups ++ [{ caid := caid, start := item.2, prids := [item.1.prid] }]
  | none =>
      groups.modify (groups.length - 1) fun group =>
        { group with prids := group.prids ++ [item.1.prid] }

def groupsOf (items : List Item) : List Group :=
  items.zipIdx.foldl addGroup []

/-- The filter that a group is read to: the providers are not at its begin. -/
def Group.filter (group : Group) : Filter :=
  { caid := group.caid
    nprids := group.prids.length
    prids := List.replicate group.start 0 ++ group.prids ++
      List.replicate (csMaxprov - group.start - group.prids.length) 0 }

variable {group : Group} {items : List Item}

theorem store_filter (group : Group) (prid : Nat)
    (room : group.start + group.prids.length < csMaxprov) :
    group.filter.store (group.start + group.prids.length) prid =
      Group.filter { group with prids := group.prids ++ [prid] } := by
  obtain ⟨rest, split⟩ : ∃ rest,
      csMaxprov - group.start - group.prids.length = rest + 1 :=
    ⟨csMaxprov - group.start - group.prids.length - 1, by omega⟩
  have behind : csMaxprov - group.start - (group.prids ++ [prid]).length =
      rest := by
    rw [List.length_append, List.length_singleton]
    omega
  have count : (group.prids.length + 1) % 2 ^ 8 = group.prids.length + 1 := by
    have most : csMaxprov = 32 := rfl
    omega
  have place : (List.replicate group.start 0 ++ group.prids).length =
      group.start + group.prids.length := by simp
  unfold Filter.store Group.filter
  dsimp only
  rw [count, behind, split, List.replicate_succ, ← place,
    List.set_append_right _ _ (le_refl _), Nat.sub_self, List.set_cons_zero]
  simp

theorem store_empty (caid prid j : Nat) (room : j < csMaxprov) :
    Filter.store j prid { Filter.empty with caid := caid } =
      Group.filter { caid := caid, start := j, prids := [prid] } := by
  have empty : { Filter.empty with caid := caid } =
      Group.filter { caid := caid, start := j, prids := [] } := by
    unfold Group.filter Filter.empty
    simp only [List.append_nil, List.length_nil, Nat.sub_zero,
      ← List.replicate_add]
    rw [Nat.add_sub_cancel' (le_of_lt room)]
  have step := store_filter { caid := caid, start := j, prids := [] } prid room
  rw [← empty] at step
  exact step

/-- The groups of `n` items. -/
structure Grouped (groups : List Group) (n : Nat) : Prop where
  some : ∀ group ∈ groups, group.prids ≠ []
  last : ∃ front group, groups = front ++ [group] ∧
    group.start + group.prids.length = n

theorem groupsOf_append (items : List Item) (item : Item) :
    groupsOf (items ++ [item]) =
      addGroup (groupsOf items) (item, items.length) := by
  rw [groupsOf, List.zipIdx_append, List.foldl_append]
  simp [groupsOf]

theorem modify_last {α : Type} (front : List α) (last : α)
    (change : α → α) :
    (front ++ [last]).modify ((front ++ [last]).length - 1) change =
      front ++ [change last] := by
  rw [List.length_append, List.length_singleton, Nat.add_sub_cancel,
    Separated.modify_middle]

theorem grouped_groupsOf (head : ∀ item ∈ items.head?, item.caid ≠ none)
    (some : items ≠ []) : Grouped (groupsOf items) items.length := by
  induction items using List.reverseRecOn with
  | nil => exact absurd rfl some
  | append_singleton items item induction =>
      have before : items ≠ [] → Grouped (groupsOf items) items.length := by
        intro filled
        exact induction (Separated.forall_head_of_append head) filled
      rw [groupsOf_append, List.length_append, List.length_singleton]
      have old : ∀ group ∈ groupsOf items, group.prids ≠ [] := by
        by_cases none : items = []
        · subst none
          intro group member
          cases member
        · exact (before none).some
      cases given : item.caid with
      | some caid =>
          unfold addGroup
          rw [given]
          refine ⟨?_, groupsOf items, _, rfl, rfl⟩
          intro group member
          rcases List.mem_append.mp member with there | new
          · exact old group there
          · rw [List.mem_singleton.mp new]
            exact List.cons_ne_nil _ _
      | none =>
          have filled : items ≠ [] := by
            rintro rfl
            exact head item rfl given
          obtain ⟨front, last, split, size⟩ := (before filled).last
          unfold addGroup
          rw [given]
          dsimp only
          rw [split, modify_last]
          refine ⟨?_, front, _, rfl, ?_⟩
          · intro group member
            rcases List.mem_append.mp member with there | new
            · apply old
              rw [split]
              exact List.mem_append_left _ there
            · rw [List.mem_singleton.mp new]
              exact List.append_ne_nil_of_right_ne_nil _ (List.cons_ne_nil _ _)
          · dsimp only
            rw [List.length_append, List.length_singleton, ← size]
            omega

/-- The table of filters for some groups. -/
def ftabOf (groups : List Group) : Ftab :=
  { nfilts := groups.length
    filts := groups.map Group.filter ++
      List.replicate (csMaxfilters - groups.length) .empty }

/-- The filter of a new caid. -/
theorem chkItem_some {groups : List Group} {item : Item} {caid j : Nat}
    (given : item.caid = some caid) (room : j < csMaxprov) (ifilt : Nat) :
    chkItem (ftabOf groups, ifilt) (item, j) =
      if groups.length < csMaxfilters then
        some (ftabOf (addGroup groups (item, j)), groups.length)
      else none := by
  unfold chkItem
  rw [given]
  dsimp only
  have length : (ftabOf groups).nfilts = groups.length := rfl
  rw [length]
  by_cases free : groups.length < csMaxfilters
  · obtain ⟨rest, split⟩ : ∃ rest, csMaxfilters - groups.length = rest + 1 :=
      ⟨csMaxfilters - groups.length - 1, by omega⟩
    have behind : csMaxfilters - (groups.length + 1) = rest := by omega
    have place : (groups.map Group.filter).length = groups.length :=
      List.length_map _
    rw [if_pos free, if_pos free, addGroup, given]
    unfold ftabOf
    dsimp only
    rw [split, List.replicate_succ, ← place, Separated.modify_middle,
      store_empty caid item.prid j room, List.length_append, List.map_append,
      List.length_singleton, place, behind]
    simp
  · rw [if_neg free, if_neg free]

/-- A provider for the caid that was opened last. -/
theorem chkItem_none {front : List Group} {last : Group} {item : Item}
    (given : item.caid = none) (free : front.length < csMaxfilters)
    (room : last.start + last.prids.length < csMaxprov) :
    chkItem (ftabOf (front ++ [last]), front.length)
        (item, last.start + last.prids.length) =
      some (ftabOf (addGroup (front ++ [last])
        (item, last.start + last.prids.length)), front.length) := by
  have place : (front.map Group.filter).length = front.length :=
    List.length_map _
  unfold chkItem addGroup
  rw [given]
  dsimp only
  rw [if_pos free, modify_last]
  unfold ftabOf
  dsimp only
  conv_lhs => rw [List.map_append, List.map_singleton, List.append_assoc,
    List.singleton_append, ← place, Separated.modify_middle,
    store_filter last item.prid room]
  simp

theorem length_addGroup (groups : List Group) (item : Item × Nat) :
    (addGroup groups item).length =
      groups.length + if item.1.caid = none then 0 else 1 := by
  unfold addGroup
  cases item.1.caid with
  | some caid => simp
  | none => simp

/-- Items that begin with a caid are read to their groups. -/
theorem foldlM_chkItem (head : ∀ item ∈ items.head?, item.caid ≠ none)
    (few : items.length ≤ csMaxprov) (ifilt : Nat) :
    items.zipIdx.foldlM chkItem (Ftab.empty, ifilt) =
      if (groupsOf items).length ≤ csMaxfilters then
        some (ftabOf (groupsOf items),
          if items = [] then ifilt else (groupsOf items).length - 1)
      else none := by
  induction items using List.reverseRecOn with
  | nil => rfl
  | append_singleton items item induction =>
      have earlier : ∀ item ∈ items.head?, item.caid ≠ none :=
        Separated.forall_head_of_append head
      rw [List.length_append, List.length_singleton] at few
      have count := length_addGroup (groupsOf items) (item, items.length)
      rw [List.zipIdx_append, List.foldlM_append, List.zipIdx_singleton,
        Nat.zero_add, groupsOf_append, induction earlier (by omega), count,
        if_neg (by simp : items ++ [item] ≠ [])]
      by_cases before : (groupsOf items).length ≤ csMaxfilters
      · rw [if_pos before]
        show (List.foldlM chkItem _ [(item, items.length)]) = _
        rw [List.foldlM_cons]
        simp only [List.foldlM_nil]
        cases given : item.caid with
        | some caid =>
            have one : (if some caid = none then 0 else 1) = 1 :=
              if_neg (by simp)
            rw [one, chkItem_some given (by omega)]
            by_cases free : (groupsOf items).length < csMaxfilters
            · rw [if_pos free, if_pos (by omega)]
              rfl
            · rw [if_neg free, if_neg (by omega)]
              rfl
        | none =>
            have filled : items ≠ [] := by
              rintro rfl
              exact head item rfl given
            obtain ⟨front, last, split, size⟩ :=
              (grouped_groupsOf earlier filled).last
            have length : (groupsOf items).length = front.length + 1 := by
              rw [split, List.length_append, List.length_singleton]
            rw [if_pos rfl, if_neg filled, Nat.add_zero, if_pos before, length,
              Nat.add_sub_cancel, split, ← size,
              chkItem_none given (by omega) (by omega)]
            rfl
      · rw [if_neg before, if_neg (by omega)]
        rfl

/-! ## Where the providers stand -/

/-- The providers of a port with the caids they are written under. -/
def writtenFrom : Option Nat → List Item → List (Option Nat × Nat)
  | _, [] => []
  | caid, item :: items =>
      (item.caid.or caid, item.prid) :: writtenFrom (item.caid.or caid) items

def PortText.written (e : PortText) : List (Option Nat × Nat) :=
  writtenFrom none (e.items.map ItemText.item)

/-- What stands below `nprids`. -/
def Filter.shown (filt : Filter) : List Nat := filt.prids.take filt.nprids

/-- Every provider of the string stands below `nprids` in the filter of its
caid and its port, and nothing else stands anywhere. -/
structure Placed (es : List PortText) (ptab : Ptab) : Prop where
  each : ∀ (i : Nat) (e : PortText), es[i]? = some e → ∀ x ∈ e.written,
    ∃ port : Port, ptab.ports[i]? = some port ∧ i < ptab.nports ∧
      port.sPort = e.number ∧
      ∃ (f : Nat) (filt : Filter),
        port.ftab.filts[f]? = some filt ∧ f < port.ftab.nfilts ∧
        x.1 = some filt.caid ∧ x.2 ∈ filt.shown
  only : ∀ (i : Nat) (port : Port), ptab.ports[i]? = some port →
    ∀ (f : Nat) (filt : Filter), port.ftab.filts[f]? = some filt →
      ∀ prid ∈ filt.shown, f < port.ftab.nfilts ∧
        ∃ e, es[i]? = some e ∧ (some filt.caid, prid) ∈ e.written

/-- The string is read within the arrays, and to its places. -/
def ReadRight (es : List PortText) : Prop :=
  ∃ ptab, chkPortTab (portsText es) = some ptab ∧ Placed es ptab

/-- What of a group stands below `nprids`: the items in front of the group push
as many providers out behind and leave zeros. -/
def Group.kept (group : Group) : List Nat :=
  List.replicate (min group.start group.prids.length) 0 ++
    group.prids.take (group.prids.length - group.start)

/-- The port begins with a caid and has at most 16 of them, its later caids
have provider 0, and every provider is also one of those that are kept. -/
structure PortText.Kept (e : PortText) : Prop where
  head : ∀ x ∈ e.items.head?, x.caid.isSome
  few : (groupsOf e.read).length ≤ csMaxfilters
  zero : ∀ group ∈ groupsOf e.read, 0 < group.start →
    (some group.caid, 0) ∈ e.written
  kept : ∀ x ∈ e.written, ∃ group ∈ groupsOf e.read,
    x.1 = some group.caid ∧ x.2 ∈ group.kept

/-- The caid behind some items. -/
def caidBehind (caid : Option Nat) (items : List Item) : Option Nat :=
  items.foldl (fun caid item => item.caid.or caid) caid

theorem writtenFrom_append (caid : Option Nat) (items : List Item)
    (item : Item) :
    writtenFrom caid (items ++ [item]) = writtenFrom caid items ++
      [(item.caid.or (caidBehind caid items), item.prid)] := by
  induction items generalizing caid with
  | nil => rfl
  | cons first items induction =>
      rw [List.cons_append, writtenFrom, induction, writtenFrom]
      rfl

theorem caidBehind_eq (items : List Item)
    (head : ∀ item ∈ items.head?, item.caid ≠ none) :
    caidBehind none items = (groupsOf items).getLast?.map Group.caid := by
  induction items using List.reverseRecOn with
  | nil => rfl
  | append_singleton items item induction =>
      have earlier : ∀ item ∈ items.head?, item.caid ≠ none :=
        Separated.forall_head_of_append head
      have step : caidBehind none (items ++ [item]) =
          item.caid.or (caidBehind none items) := by
        simp [caidBehind]
      rw [step, induction earlier, groupsOf_append]
      cases given : item.caid with
      | some caid => simp [addGroup, given]
      | none =>
          have filled : items ≠ [] := by
            rintro rfl
            exact head item rfl given
          obtain ⟨front, last, split, _⟩ :=
            (grouped_groupsOf earlier filled).last
          unfold addGroup
          rw [given, split]
          dsimp only
          rw [modify_last]
          simp

/-- A provider of a group is written under its caid. -/
theorem mem_writtenFrom_of_group
    (head : ∀ item ∈ items.head?, item.caid ≠ none) :
    ∀ group ∈ groupsOf items, ∀ prid ∈ group.prids,
      (some group.caid, prid) ∈ writtenFrom none items := by
  induction items using List.reverseRecOn with
  | nil =>
      intro group member
      cases member
  | append_singleton items item induction =>
      have earlier : ∀ item ∈ items.head?, item.caid ≠ none :=
        Separated.forall_head_of_append head
      have before := induction earlier
      intro group member prid listed
      rw [writtenFrom_append, List.mem_append, List.mem_singleton]
      rw [groupsOf_append] at member
      cases given : item.caid with
      | some caid =>
          rw [addGroup, given] at member
          rcases List.mem_append.mp member with old | new
          · exact .inl (before group old prid listed)
          · obtain rfl := List.mem_singleton.mp new
            rw [List.mem_singleton.mp listed]
            exact .inr rfl
      | none =>
          have filled : items ≠ [] := by
            rintro rfl
            exact head item rfl given
          obtain ⟨front, last, split, _⟩ :=
            (grouped_groupsOf earlier filled).last
          have behind := caidBehind_eq items earlier
          rw [split, List.getLast?_concat, Option.map_some] at behind
          rw [addGroup, given] at member
          dsimp only at member
          rw [split, modify_last] at member
          rw [split] at before
          rcases List.mem_append.mp member with old | new
          · exact .inl (before group (List.mem_append_left _ old) prid listed)
          · obtain rfl := List.mem_singleton.mp new
            rcases List.mem_append.mp listed with old | new
            · exact .inl (before last (by simp) prid old)
            · rw [List.mem_singleton.mp new, behind]
              exact .inr rfl

theorem writtenFrom_prefix (caid : Option Nat) (items : List Item) (n : Nat) :
    ∀ x ∈ writtenFrom caid (items.take n), x ∈ writtenFrom caid items := by
  induction items generalizing caid n with
  | nil =>
      rw [List.take_nil]
      exact fun x member => member
  | cons item items induction =>
      cases n with
      | zero =>
          intro x member
          cases member
      | succ n =>
          intro x member
          rw [List.take_succ_cons] at member
          rcases List.mem_cons.mp member with rfl | later
          · exact List.mem_cons_self
          · exact List.mem_cons_of_mem _ (induction _ n x later)

/-- The filters of a port that begins with a caid. -/
def PortText.filters (e : PortText) : Ftab := ftabOf (groupsOf e.read)

theorem shown_filter (room : group.start + group.prids.length ≤ csMaxprov) :
    group.filter.shown = group.kept := by
  unfold Filter.shown Group.filter Group.kept
  dsimp only
  rw [List.append_assoc, List.take_append, List.length_replicate,
    List.take_replicate, Nat.min_comm, List.take_append_of_le_length (by omega)]

theorem shown_empty : Filter.empty.shown = [] := List.take_zero

/-- The first item of a port names a caid. -/
def PortText.Headed (e : PortText) : Prop :=
  ∀ x ∈ e.items.head?, x.caid.isSome

theorem head_items {n : Nat} (headed : e.Headed) :
    ∀ item ∈ ((e.items.take (n + 1)).map ItemText.item).head?,
      item.caid ≠ none := by
  intro item there
  cases items : e.items with
  | nil =>
      rw [items] at there
      cases there
  | cons x rest =>
      have first := headed x (by rw [items]; rfl)
      rw [items, List.take_succ_cons, List.map_cons, List.head?_cons,
        Option.mem_some] at there
      rw [← there]
      simpa [ItemText.item, Option.isSome_iff_ne_none] using first

theorem length_read_le (e : PortText) : e.read.length ≤ csMaxprov := by
  rw [PortText.read, List.length_map]
  exact List.length_take_le _ _

/-- The groups that are read fit into their filters. -/
theorem place_le (headed : e.Headed) :
    ∀ group ∈ groupsOf e.read,
      group.start + group.prids.length ≤ csMaxprov := by
  have places (items : List Item) : ∀ group ∈ groupsOf items,
      (∀ item ∈ items.head?, item.caid ≠ none) →
        group.start + group.prids.length ≤ items.length := by
    induction items using List.reverseRecOn with
    | nil =>
        intro group member
        cases member
    | append_singleton items item induction =>
        intro group member head
        have earlier := Separated.forall_head_of_append head
        rw [groupsOf_append] at member
        rw [List.length_append, List.length_singleton]
        cases given : item.caid with
        | some caid =>
            rw [addGroup, given] at member
            rcases List.mem_append.mp member with old | new
            · have before := induction group old earlier
              omega
            · rw [List.mem_singleton.mp new]
              exact le_refl _
        | none =>
            have filled : items ≠ [] := by
              rintro rfl
              exact head item rfl given
            obtain ⟨front, last, split, size⟩ :=
              (grouped_groupsOf earlier filled).last
            rw [addGroup, given] at member
            dsimp only at member
            rw [split, modify_last] at member
            rcases List.mem_append.mp member with old | new
            · have before := induction group (by
                rw [split]
                exact List.mem_append_left _ old) earlier
              omega
            · rw [List.mem_singleton.mp new]
              dsimp only
              rw [List.length_append, List.length_singleton]
              omega
  intro group member
  exact (places e.read group member (head_items headed)).trans
    (length_read_le e)

/-- Ports that begin with caids are read one by one. -/
theorem ftabs_eq_some_iff (headed : ∀ e ∈ es, e.Headed) (ifilt : Nat)
    (filled : List Ftab) :
    ftabs ifilt es = some filled ↔
      (∀ e ∈ es, (groupsOf e.read).length ≤ csMaxfilters) ∧
        filled = es.map PortText.filters := by
  induction es generalizing ifilt filled with
  | nil => simp [ftabs, eq_comm]
  | cons e es induction =>
      have head := head_items (n := csMaxprov - 1) (headed e List.mem_cons_self)
      have rest := fun ifilt filled => induction
        (fun e member => headed e (List.mem_cons_of_mem _ member)) ifilt filled
      have run := @foldlM_chkItem e.read head (length_read_le e) ifilt
      rw [ftabs, run]
      by_cases few : (groupsOf e.read).length ≤ csMaxfilters
      · rw [if_pos few, Option.bind_some, Option.map_eq_some_iff]
        constructor
        · rintro ⟨others, read, rfl⟩
          obtain ⟨all, rfl⟩ := (rest _ _).mp read
          exact ⟨List.forall_mem_cons.mpr ⟨few, all⟩, rfl⟩
        · rintro ⟨all, rfl⟩
          exact ⟨_, (rest _ _).mpr ⟨(List.forall_mem_cons.mp all).2, rfl⟩, rfl⟩
      · rw [if_neg few]
        refine iff_of_false (by simp) fun both => few ?_
        exact both.1 e List.mem_cons_self

variable {groups : List Group}

/-- Below `nfilts` there are the filters of the groups. -/
theorem filts_of_lt {f : Nat} (inside : f < groups.length) :
    (ftabOf groups).filts[f]? = groups[f]?.map Group.filter := by
  unfold ftabOf
  rw [List.getElem?_append_left (by rwa [List.length_map]),
    List.getElem?_map]

/-- What stands in a filter belongs to a group. -/
theorem group_of_shown {f : Nat} {filt : Filter} {prid : Nat}
    (there : (ftabOf groups).filts[f]? = some filt)
    (listed : prid ∈ filt.shown) :
    f < groups.length ∧ ∃ group ∈ groups, filt = group.filter := by
  by_cases inside : f < groups.length
  · rw [filts_of_lt inside, Option.map_eq_some_iff] at there
    obtain ⟨group, place, rfl⟩ := there
    exact ⟨inside, group, List.mem_of_getElem? place, rfl⟩
  · unfold ftabOf at there
    rw [List.getElem?_append_right (by rw [List.length_map]; omega)] at there
    have empty := List.eq_of_mem_replicate (List.mem_of_getElem? there)
    rw [empty, shown_empty] at listed
    cases listed

/-- The table of some ports with their filters. -/
def tableOf (ftab : PortText → Ftab) (es : List PortText) : Ptab :=
  { nports := es.length
    ports := (es.map fun e => { e.bare with ftab := ftab e }) ++
      List.replicate (csMaxports - es.length) .empty }

theorem portsOf_map (es : List PortText) (ftab : PortText → Ftab) :
    portsOf es (es.map ftab) = (tableOf ftab es).ports := by
  rw [portsOf, List.zipWith_map_right, List.zipWith_self]
  rfl

variable {ftab : PortText → Ftab}

theorem ports_tableOf {i : Nat} {e : PortText} (there : es[i]? = some e) :
    (tableOf ftab es).ports[i]? = some { e.bare with ftab := ftab e } := by
  have inside : i < es.length := (List.getElem?_eq_some_iff.mp there).1
  unfold tableOf
  rw [List.getElem?_append_left (by rwa [List.length_map]),
    List.getElem?_map, there]
  rfl

/-- A port that stands in the table is one of the string, or empty. -/
theorem port_of_tableOf {i : Nat} {port : Port}
    (there : (tableOf ftab es).ports[i]? = some port) :
    (∃ e, es[i]? = some e ∧ port = { e.bare with ftab := ftab e }) ∨
      port = .empty := by
  by_cases inside : i < es.length
  · have listed : es[i]? = some (es.get ⟨i, inside⟩) := by simp
    rw [ports_tableOf listed, Option.some.injEq] at there
    exact .inl ⟨_, listed, there.symm⟩
  · unfold tableOf at there
    rw [List.getElem?_append_right (by rw [List.length_map]; omega)] at there
    exact .inr (List.eq_of_mem_replicate (List.mem_of_getElem? there))

theorem getElem?_of_take {n i : Nat} {e : PortText}
    (taken : (es.take n)[i]? = some e) : es[i]? = some e := by
  rw [List.getElem?_take] at taken
  split at taken
  · exact taken
  · cases taken

/-- The ports of a string that are read to their places. -/
theorem placed_of_kept (kept : ∀ e ∈ es.take csMaxports, e.Kept)
    (rest : ∀ e ∈ es.drop csMaxports, e.items = []) :
    Placed es (tableOf PortText.filters (es.take csMaxports)) := by
  constructor
  · intro i e there x listed
    by_cases inside : i < csMaxports
    · have taken : (es.take csMaxports)[i]? = some e := by
        rw [List.getElem?_take_of_lt inside, there]
      have right := kept e (List.mem_of_getElem? taken)
      obtain ⟨group, member, caid, shown⟩ := right.kept x listed
      obtain ⟨f, place⟩ := List.mem_iff_getElem?.mp member
      have bound : f < (groupsOf e.read).length :=
        (List.getElem?_eq_some_iff.mp place).1
      refine ⟨_, ports_tableOf taken, (List.getElem?_eq_some_iff.mp taken).1,
        rfl, f, group.filter, ?_, bound, caid, ?_⟩
      · show (ftabOf (groupsOf e.read)).filts[f]? = _
        rw [filts_of_lt bound, place]
        rfl
      · rw [shown_filter (place_le right.head group member)]
        exact shown
    · have later : e ∈ es.drop csMaxports := by
        rw [List.mem_iff_getElem?]
        refine ⟨i - csMaxports, ?_⟩
        rw [List.getElem?_drop, Nat.add_sub_cancel' (by omega), there]
      rw [PortText.written, rest e later] at listed
      cases listed
  · intro i port there f filt found prid listed
    rcases port_of_tableOf there with ⟨e, taken, rfl⟩ | rfl
    · have right := kept e (List.mem_of_getElem? taken)
      obtain ⟨bound, group, member, rfl⟩ := group_of_shown found listed
      refine ⟨bound, e, getElem?_of_take taken, ?_⟩
      · rw [shown_filter (place_le right.head group member)] at listed
        rcases List.mem_append.mp listed with zero | part
        · have some : 0 < group.start := by
            have length := List.length_pos_of_mem zero
            rw [List.length_replicate] at length
            omega
          rw [List.eq_of_mem_replicate zero]
          exact right.zero group member some
        · have items := mem_writtenFrom_of_group
            (head_items (n := csMaxprov - 1) right.head) group member prid
              (List.mem_of_mem_take part)
          unfold PortText.written
          rw [List.map_take] at items
          exact writtenFrom_prefix none _ csMaxprov _ items
    · have empty : filt = .empty :=
        List.eq_of_mem_replicate (List.mem_of_getElem? found)
      rw [empty, shown_empty] at listed
      cases listed

theorem first_mem_written {e : PortText} {x : ItemText} {rest : List ItemText}
    (items : e.items = x :: rest) :
    (x.item.caid, x.item.prid) ∈ e.written := by
  rw [PortText.written, items, List.map_cons, writtenFrom, Option.or_none]
  exact List.mem_cons_self

/-- Every port with items begins with a caid if they all stand somewhere. -/
theorem headed_of_placed {ptab : Ptab} (placed : Placed es ptab) :
    ∀ e ∈ es, e.Headed := by
  intro e member x first
  obtain ⟨i, there⟩ := List.mem_iff_getElem?.mp member
  obtain ⟨items, split⟩ : ∃ items, e.items = x :: items :=
    List.head?_eq_some_iff.mp (Option.mem_def.mp first)
  obtain ⟨port, _, _, _, f, filt, _, _, caid, _⟩ :=
    placed.each i e there _ (first_mem_written split)
  cases given : x.caid with
  | some number => rfl
  | none =>
      have missing : x.item.caid = none := by
        rw [ItemText.item, given]
        rfl
      rw [missing] at caid
      cases caid

/-- What stands at the place of a port is kept. -/
theorem kept_of_placed
    (placed : Placed es (tableOf PortText.filters (es.take csMaxports)))
    (few : ∀ e ∈ es.take csMaxports, (groupsOf e.read).length ≤ csMaxfilters) :
    ∀ e ∈ es.take csMaxports, e.Kept := by
  intro e member
  obtain ⟨i, taken⟩ := List.mem_iff_getElem?.mp member
  have listed := getElem?_of_take taken
  have head := headed_of_placed placed e (List.mem_of_mem_take member)
  refine ⟨head, few e member, fun group inside later => ?_,
    fun x written => ?_⟩
  · -- In front of its providers the filter of a later group shows a zero.
    obtain ⟨f, place⟩ := List.mem_iff_getElem?.mp inside
    have bound : f < (groupsOf e.read).length :=
      (List.getElem?_eq_some_iff.mp place).1
    have found : (ftabOf (groupsOf e.read)).filts[f]? =
        some group.filter := by
      rw [filts_of_lt bound, place]
      rfl
    have items : e.read ≠ [] := by
      intro none
      rw [none] at inside
      cases inside
    have filledGroup := (grouped_groupsOf (head_items (n := csMaxprov - 1)
      head) items).some group inside
    have zero : 0 ∈ group.filter.shown := by
      rw [shown_filter (place_le head group inside)]
      apply List.mem_append_left
      rw [List.mem_replicate]
      have length := List.length_pos_iff.mpr filledGroup
      exact ⟨by omega, rfl⟩
    obtain ⟨_, other, same, there⟩ := placed.only i _ (ports_tableOf taken)
      f _ found 0 zero
    rw [listed, Option.some.injEq] at same
    rw [same]
    exact there
  · obtain ⟨port, there, _, _, f, filt, found, _, caid, shown⟩ :=
      placed.each i e listed x written
    rw [ports_tableOf taken, Option.some.injEq] at there
    subst there
    obtain ⟨_, group, inside, rfl⟩ := group_of_shown found shown
    rw [shown_filter (place_le head group inside)] at shown
    exact ⟨group, inside, caid, shown⟩

/-- Behind the 32nd port there is no place for an item. -/
theorem no_items_of_placed {ftab : PortText → Ftab}
    (placed : Placed es (tableOf ftab (es.take csMaxports))) :
    ∀ e ∈ es.drop csMaxports, e.items = [] := by
  intro e member
  obtain ⟨i, there⟩ := List.mem_iff_getElem?.mp member
  rw [List.getElem?_drop] at there
  cases items : e.items with
  | nil => rfl
  | cons x rest =>
      obtain ⟨port, _, inside, _⟩ :=
        placed.each _ e there _ (first_mem_written items)
      have few : (es.take csMaxports).length ≤ csMaxports :=
        List.length_take_le _ _
      change csMaxports + i < (es.take csMaxports).length at inside
      omega

/-- A port string is read right if and only if its ports are kept and those
behind the 32nd have no items. -/
theorem readRight_iff (es : List PortText) :
    ReadRight es ↔ (∀ e ∈ es.take csMaxports, e.Kept) ∧
      ∀ e ∈ es.drop csMaxports, e.items = [] := by
  unfold ReadRight
  rw [chkPortTab_portsText]
  constructor
  · rintro ⟨ptab, read, placed⟩
    obtain ⟨filled, tables, rfl⟩ := Option.map_eq_some_iff.mp read
    have headed := headed_of_placed placed
    obtain ⟨few, rfl⟩ := (ftabs_eq_some_iff (fun e member =>
      headed e (List.mem_of_mem_take member)) 0 filled).mp tables
    rw [portsOf_map] at placed
    change Placed es (tableOf PortText.filters (es.take csMaxports)) at placed
    exact ⟨kept_of_placed placed few, no_items_of_placed placed⟩
  · rintro ⟨kept, rest⟩
    refine ⟨_, ?_, placed_of_kept kept rest⟩
    rw [Option.map_eq_some_iff]
    refine ⟨_, (ftabs_eq_some_iff (fun e member => (kept e member).head) 0
      _).mpr ⟨fun e member => (kept e member).few, rfl⟩, ?_⟩
    rw [portsOf_map]
    rfl

/-- `CAID:ident` with one digit each. -/
def shortItem (caid ident : UInt8) (first : (gethexval caid).isSome)
    (second : (gethexval ident).isSome) : ItemText :=
  { caid := some
      { txt := [caid], filled := List.cons_ne_nil _ _, digits := by simpa }
    ident := { txt := [ident], filled := List.cons_ne_nil _ _
               digits := by simpa } }

/-- The port string `10000@1:1,2:2`. -/
def twoCaids : PortText :=
  { port := ascii "10000", digits := List.all_eq_true.mp rfl
    nonzero := by decide, small := by decide, key := none
    items := [shortItem 49 49 rfl rfl, shortItem 50 50 rfl rfl] }

/-- The port string `10000@1:1`. -/
def onePort : PortText :=
  { twoCaids with items := [shortItem 49 49 rfl rfl] }

/-- A port with one caid more than there are filters. -/
def manyCaids : PortText :=
  { twoCaids with items := List.replicate 17 (shortItem 49 49 rfl rfl) }

/-- The provider of the second caid stands behind a zero, which is counted in
its place; the 17th caid is written behind the filters. -/
theorem second_caid_misplaced :
    ¬ ReadRight [twoCaids] ∧ chkPortTab (portsText [manyCaids]) = none := by
  constructor
  · rintro ⟨ptab, read, placed⟩
    have table : (chkPortTab (portsText [twoCaids])).map (fun ptab =>
        ptab.ports[0]?.map fun port =>
          (port.ftab.filts.take port.ftab.nfilts).map fun filt =>
            (filt.caid, filt.shown)) =
              some (some [(1, [1]), (2, [0])]) := by decide
    obtain ⟨port, there, _, _, f, filt, found, bound, caid, shown⟩ :=
      placed.each 0 twoCaids rfl (some 2, 2) (by decide)
    rw [read, Option.map_some, there, Option.map_some, Option.some.injEq,
      Option.some.injEq] at table
    have listed : (filt.caid, filt.shown) ∈
        (port.ftab.filts.take port.ftab.nfilts).map fun filt =>
          (filt.caid, filt.shown) := by
      apply List.mem_map_of_mem
      rw [List.mem_iff_getElem?]
      exact ⟨f, by rw [List.getElem?_take_of_lt bound, found]⟩
    rw [table, ← Option.some.inj caid] at listed
    simp only [List.mem_cons, Prod.mk.injEq, List.not_mem_nil, or_false] at listed
    rcases listed with ⟨wrong, _⟩ | ⟨_, only⟩
    · exact absurd wrong (by decide)
    · rw [only] at shown
      exact absurd shown (by decide)
  · decide +kernel

end Oscam.PortTables
