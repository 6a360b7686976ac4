import Mathlib.Algebra.Order.BigOperators.Group.List
import Oscam.Config.PortTables

/-!
# The texts of port tables

`mk_t_newcamd_port` and `mk_t_camd35tcp_port` print the ports of a table with
the caid and the providers of their first filter.  The second one leaves out a
single provider, so that the caid is read back as a provider.
-/

namespace Oscam.PortTables

open Monitor (ascii)
open FilterTables (csMaxfilters csMaxprov readPrid)

/-! ## Printing -/

/-- `ftab.filts[0]`. -/
def Port.first (port : Port) : Filter := port.ftab.filts.headD .empty

/-- `mk_t_newcamd_port` and `mk_t_camd35tcp_port` with the size that a port is
counted with and the body of the loop. -/
def mkPorts (size : Port → Nat) (put : Nat → Print → Port × Nat → Print)
    (ptab : Ptab) : Text :=
  let ports := ptab.ports.take ptab.nports
  let needed := 1 + (ports.map size).sum
  if needed = 1 then .empty
  else
    { needed := needed
      buf := (ports.zipIdx.foldl (put needed) .start).buf }

def newcamdSize (port : Port) : Nat :=
  11 + (if port.ncdKey.isSome then 30 else 0) + port.first.nprids * 7

def putNewcamdKey (needed : Nat) (key : List UInt8) (p : Print) : Print :=
  let p := key.foldl (fun p b => p.printLeft needed (hexadecimal 2 b.toNat))
    (p.printLeft needed [123])
  p.printLeft needed [125]

def putNewcamdPrid (needed : Nat) (p : Print) (prid : Nat × Nat) : Print :=
  p.printLeft needed
    ((if prid.2 = 0 then [58] else [44]) ++ hexadecimal 6 prid.1)

def putNewcamdPort (needed : Nat) (p : Print) (port : Port × Nat) : Print :=
  let p := p.printLeft needed
    ((if port.2 = 0 then [] else [59]) ++ decimal port.1.sPort)
  let p :=
    match port.1.ncdKey with
    | some key => putNewcamdKey needed key p
    | none => p
  let p := p.printLeft needed (64 :: hexadecimal 4 port.1.first.caid)
  if 0 < port.1.first.nprids then
    port.1.first.shown.zipIdx.foldl (putNewcamdPrid needed) p
  else p

def mkTNewcamdPort (ptab : Ptab) : Text :=
  mkPorts newcamdSize putNewcamdPort ptab

def camd35Size (port : Port) : Nat :=
  11 + if 1 < port.first.nprids then port.first.nprids * 7 else 0

def putCamd35Prid (needed : Nat) (p : Print) (prid : Nat × Nat) : Print :=
  p.print needed ((if prid.2 = 0 then [58] else [44]) ++ hexadecimal 1 prid.1)

def putCamd35Port (needed : Nat) (p : Print) (port : Port × Nat) : Print :=
  let p := p.print needed
    ((if port.2 = 0 then [] else [59]) ++ decimal port.1.sPort ++
      64 :: hexadecimal 4 port.1.first.caid)
  if 1 < port.1.first.nprids then
    port.1.first.shown.zipIdx.foldl (putCamd35Prid needed) p
  else p

def mkTCamd35tcpPort (ptab : Ptab) : Text :=
  mkPorts camd35Size putCamd35Port ptab

/-! ## Saving and reading again -/

/-- The number of a port, its key, and the caid and the providers of its first
filter. -/
def Port.listing (port : Port) :
    Int × Option (List UInt8) × Nat × List Nat :=
  (port.sPort, port.ncdKey, port.first.caid, port.first.shown)

/-- The table of the string is printed inside the buffer and read back, and
`same` holds of the two tables. -/
def Saved (mkT : Ptab → Text) (same : Ptab → Ptab → Prop)
    (es : List PortText) : Prop :=
  ∃ ptab again, chkPortTab (portsText es) = some ptab ∧ (mkT ptab).Inside ∧
    chkPortTab (mkT ptab).string = some again ∧ same again ptab

/-- The tables have the same ports with the same keys, caids and providers. -/
def SamePorts (again ptab : Ptab) : Prop :=
  (again.ports.take again.nports).map Port.listing =
    (ptab.ports.take ptab.nports).map Port.listing

instance (again ptab : Ptab) : Decidable (SamePorts again ptab) :=
  inferInstanceAs (Decidable (_ = _))

/-- A port as it is documented: one caid, also alone, and providers of three
bytes. -/
structure PortText.Documented (e : PortText) : Prop where
  filled : e.items ≠ []
  single : ∀ x ∈ e.items.tail, x.caid = none
  prids : ∀ x ∈ e.items, readPrid x.ident.txt < 2 ^ 24

/-! ## Reading documented ports -/

variable {e : PortText} {es : List PortText} {needed : Nat}

/-- The caid of the port, if a provider stands behind it. -/
def PortText.named (e : PortText) : Option Nat := e.read.head?.bind Item.caid

/-- The caid that is read. -/
def PortText.caid (e : PortText) : Nat := e.named.getD 0

/-- The providers that are read. -/
def PortText.prids (e : PortText) : List Nat := e.read.map Item.prid

/-- The one filter of a port, which is counted if its caid has a provider. -/
def PortText.single (e : PortText) : Ftab :=
  { nfilts := if e.named = none then 0 else 1
    filts := Group.filter { caid := e.caid, start := 0, prids := e.prids } ::
      List.replicate (csMaxfilters - 1) .empty }

theorem foldlM_plain {items : List Item}
    (plain : ∀ item ∈ items, item.caid = none) (nfilts : Nat) (group : Group)
    (behind : List Filter)
    (room : group.start + group.prids.length + items.length ≤ csMaxprov) :
    (items.zipIdx (group.start + group.prids.length)).foldlM chkItem
        ({ nfilts := nfilts, filts := group.filter :: behind }, 0) =
      some
        ({ nfilts := nfilts
           filts := Group.filter
             { group with prids := group.prids ++ items.map Item.prid } ::
               behind }, 0) := by
  induction items generalizing group with
  | nil => simp
  | cons item items induction =>
      rw [List.length_cons] at room
      have step : chkItem
          ({ nfilts := nfilts, filts := group.filter :: behind }, 0)
            (item, group.start + group.prids.length) =
          some ({ nfilts := nfilts
                  filts := Group.filter
                    { group with prids := group.prids ++ [item.prid] } ::
                      behind }, 0) := by
        unfold chkItem
        rw [plain item List.mem_cons_self]
        dsimp only
        rw [if_pos (by decide), List.modify_zero_cons,
          store_filter group item.prid (by omega)]
      have next := induction
        (fun other member => plain other (List.mem_cons_of_mem _ member))
        { group with prids := group.prids ++ [item.prid] } (by
          dsimp only
          rw [List.length_append, List.length_singleton]
          omega)
      rw [List.length_append, List.length_singleton, ← Nat.add_assoc,
        List.append_assoc] at next
      rw [List.zipIdx_cons, List.foldlM_cons, step]
      exact next

theorem plain_read_tail (documented : e.Documented) :
    ∃ item rest, e.read = item :: rest ∧
      ∀ other ∈ rest, other.caid = none := by
  obtain ⟨x, more, split⟩ := List.exists_cons_of_ne_nil documented.filled
  have tail := documented.single
  rw [split, List.tail_cons] at tail
  refine ⟨x.item, (more.take (csMaxprov - 1)).map ItemText.item, ?_, ?_⟩
  · rw [PortText.read, split]
    rfl
  · intro other member
    obtain ⟨y, listed, rfl⟩ := List.mem_map.mp member
    rw [ItemText.item, tail y (List.mem_of_mem_take listed)]
    rfl

theorem foldlM_documented (documented : e.Documented) :
    e.read.zipIdx.foldlM chkItem (Ftab.empty, 0) = some (e.single, 0) := by
  obtain ⟨item, rest, split, plain⟩ := plain_read_tail documented
  have few := length_read_le e
  rw [split, List.length_cons] at few
  have first : chkItem (Ftab.empty, 0) (item, 0) =
      some ({ nfilts := if item.caid = none then 0 else 1
              filts := Group.filter { caid := item.caid.getD 0, start := 0
                                      prids := [item.prid] } ::
                List.replicate (csMaxfilters - 1) .empty }, 0) := by
    have stored (caid : Nat) := store_empty caid item.prid 0 (by decide)
    cases given : item.caid with
    | none =>
        unfold chkItem
        rw [given]
        dsimp only
        rw [if_pos (by decide), if_pos rfl]
        exact congrArg (fun filt => some (({
          nfilts := 0
          filts := filt :: List.replicate (csMaxfilters - 1) .empty } : Ftab),
            0)) (stored 0)
    | some caid =>
        unfold chkItem
        rw [given]
        dsimp only
        rw [if_pos (by decide), if_neg (by simp)]
        exact congrArg (fun filt => some (({
          nfilts := 1
          filts := filt :: List.replicate (csMaxfilters - 1) .empty } : Ftab),
            0)) (stored caid)
  have others := foldlM_plain plain (if item.caid = none then 0 else 1)
    { caid := item.caid.getD 0, start := 0, prids := [item.prid] }
    (List.replicate (csMaxfilters - 1) .empty) (by
      show 0 + 1 + rest.length ≤ csMaxprov
      omega)
  unfold PortText.single PortText.caid PortText.named PortText.prids
  rw [split, List.zipIdx_cons, List.foldlM_cons, first]
  exact others

theorem ftabs_documented (documented : ∀ e ∈ es, e.Documented) :
    ftabs 0 es = some (es.map PortText.single) := by
  induction es with
  | nil => rfl
  | cons e es induction =>
      rw [ftabs, foldlM_documented (documented e List.mem_cons_self),
        Option.bind_some, induction fun other member =>
          documented other (List.mem_cons_of_mem _ member)]
      rfl

/-- The table of a documented port string. -/
theorem chkPortTab_documented (documented : ∀ e ∈ es, e.Documented) :
    chkPortTab (portsText es) =
      some (tableOf PortText.single (es.take csMaxports)) := by
  rw [chkPortTab_portsText, ftabs_documented fun e member =>
    documented e (List.mem_of_mem_take member), Option.map_some, portsOf_map]
  rfl

/-- The port in the table. -/
def PortText.entry (e : PortText) : Port := { e.bare with ftab := e.single }

theorem ports_tableOf_single (es : List PortText) :
    (tableOf PortText.single es).ports.take
      (tableOf PortText.single es).nports = es.map PortText.entry := by
  unfold tableOf
  dsimp only
  rw [List.take_append_of_le_length (by rw [List.length_map]),
    List.take_of_length_le (by rw [List.length_map])]
  rfl

theorem length_prids_le (e : PortText) : e.prids.length ≤ csMaxprov := by
  rw [PortText.prids, List.length_map]
  exact length_read_le e

@[simp] theorem sPort_entry (e : PortText) : e.entry.sPort = e.number := rfl

@[simp] theorem ncdKey_entry (e : PortText) : e.entry.ncdKey = e.keyBytes :=
  rfl

@[simp] theorem caid_entry (e : PortText) : e.entry.first.caid = e.caid := rfl

@[simp] theorem nprids_entry (e : PortText) :
    e.entry.first.nprids = e.prids.length := rfl

@[simp] theorem shown_entry (e : PortText) : e.entry.first.shown = e.prids := by
  have shown := @shown_filter
    { caid := e.caid, start := 0, prids := e.prids }
    (by simpa using length_prids_le e)
  have kept : Group.kept { caid := e.caid, start := 0, prids := e.prids } =
      e.prids := by
    simp [Group.kept]
  rw [kept] at shown
  exact shown

theorem listing_entry (e : PortText) :
    e.entry.listing = ((e.number : Int), e.keyBytes, e.caid, e.prids) := by
  rw [Port.listing, shown_entry]
  rfl

/-! ## The printed ports -/

def hexText (width n : Nat) (some : 0 < width) : HexText :=
  { txt := hexadecimal width n, filled := padded_ne_nil some
    digits := fun _ => gethexval_hexadecimal }

theorem caid_digits : 0 < 4 := by decide

theorem length_keyAtobL (asc : List UInt8) :
    (keyAtobL asc 28).length = 14 := by
  rw [keyAtobL, List.length_map, List.length_range]

/-- A key with the digits that are printed. -/
def KeyText.printed (key : KeyText) : KeyText :=
  { txt := keyText (keyAtobL key.txt 28)
    length := by rw [length_keyText, length_keyAtobL]
    digits := fun _ => gethexval_keyText }

theorem leadingNumber_number (e : PortText) :
    leadingNumber (padded 10 1 e.number) = leadingNumber e.port :=
  leadingNumber_padded 1 _

/-- The port with its number as it is printed. -/
def PortText.printed (e : PortText) (key : Option KeyText)
    (items : List ItemText) : PortText :=
  { port := padded 10 1 e.number
    digits := by
      intro c member
      obtain ⟨digit, small, rfl⟩ := mem_padded (by decide) member
      exact isDigit_digitChar small
    nonzero := by
      rw [leadingNumber_number]
      exact e.nonzero
    small := by
      rw [leadingNumber_number]
      exact e.small
    key := key
    items := items }

/-- A caid with its providers. -/
def itemTexts (caid width : Nat) (some : 0 < width) : List Nat → List ItemText
  | [] => []
  | prid :: prids =>
      { caid := Option.some (hexText 4 caid caid_digits)
        ident := hexText width prid some } ::
          prids.map fun prid =>
            { caid := none, ident := hexText width prid some }

/-- What `mk_t_newcamd_port` prints of a port. -/
def PortText.newcamd (e : PortText) : PortText :=
  e.printed (e.key.map KeyText.printed)
    (itemTexts e.caid 6 (by decide) e.prids)

/-- What `mk_t_camd35tcp_port` prints of a port. -/
def PortText.camd35 (e : PortText) : PortText :=
  e.printed none
    (if 1 < e.prids.length then itemTexts e.caid 1 Nat.one_pos e.prids
      else [{ caid := none, ident := hexText 4 e.caid caid_digits }])

/-- The text of a caid with its providers. -/
theorem intercalate_itemTexts (caid width : Nat) (some : 0 < width)
    {prids : List Nat} (filled : prids ≠ []) :
    [44].intercalate ((itemTexts caid width some prids).map ItemText.text) =
      hexadecimal 4 caid ++ 58 ::
        [44].intercalate (prids.map (hexadecimal width)) := by
  obtain ⟨prid, rest, rfl⟩ := List.exists_cons_of_ne_nil filled
  have others : (rest.map fun prid => ({
      caid := none, ident := hexText width prid some } : ItemText)).map
        ItemText.text = rest.map (hexadecimal width) := by
    rw [List.map_map]
    rfl
  have first : ItemText.text {
      caid := Option.some (hexText 4 caid caid_digits)
      ident := hexText width prid some } =
        hexadecimal 4 caid ++ 58 :: hexadecimal width prid := by
    simp [ItemText.text, hexText]
  rw [itemTexts, List.map_cons, others, first, List.map_cons]
  by_cases last : rest = []
  · subst last
    simp
  · have behind : rest.map (hexadecimal width) ≠ [] := by simpa using last
    rw [List.intercalate_cons_of_ne_nil behind,
      List.intercalate_cons_of_ne_nil behind]
    simp

theorem read_printed (e : PortText) (key : Option KeyText)
    {items : List ItemText} (few : items.length ≤ csMaxprov) :
    (e.printed key items).read = items.map ItemText.item := by
  unfold PortText.read
  rw [List.take_of_length_le (by exact few)]
  rfl

theorem readPrid_hexadecimal {width prid : Nat} (some : 0 < width)
    (few : width ≤ 12) (small : prid < 2 ^ 24) :
    readPrid (hexadecimal width prid) = prid := by
  have value : a2i (hexadecimal width prid) 6 = Option.some prid :=
    a2i_hexadecimal_alone some few (by omega) (by omega)
  rw [readPrid, value, Option.getD_some]

theorem item_hexText {caid : Nat} (word : caid < 2 ^ 16) (ident : HexText) :
    ItemText.item { caid := some (hexText 4 caid caid_digits)
                    ident := ident } =
      { caid := some caid, prid := readPrid ident.txt } := by
  have value : a2i (hexadecimal 4 caid) 4 = some caid :=
    a2i_hexadecimal_alone (by decide) (by decide) (by omega) (by omega)
  simp only [ItemText.item, hexText, Option.map_some, value, Option.getD_some]
  rw [Nat.mod_eq_of_lt word]

/-- The items of a caid with its providers. -/
def itemsOf (caid : Nat) : List Nat → List Item
  | [] => []
  | prid :: prids =>
      { caid := some caid, prid := prid } ::
        prids.map fun prid => { caid := none, prid := prid }

/-- The numbers come back. -/
theorem items_itemTexts {caid width : Nat} (some : 0 < width)
    (few : width ≤ 12) (word : caid < 2 ^ 16) {prids : List Nat}
    (small : ∀ prid ∈ prids, prid < 2 ^ 24) :
    (itemTexts caid width some prids).map ItemText.item =
      itemsOf caid prids := by
  cases prids with
  | nil => rfl
  | cons prid prids =>
      rw [itemTexts, itemsOf, List.map_cons, item_hexText word, List.map_map]
      congr 1
      · congr 1
        exact readPrid_hexadecimal some few (small prid List.mem_cons_self)
      · apply List.map_congr_left
        intro other member
        simp only [Function.comp_apply, ItemText.item, Option.map_none]
        congr 1
        exact readPrid_hexadecimal some few
          (small other (List.mem_cons_of_mem _ member))

theorem length_itemTexts (caid width : Nat) (some : 0 < width)
    (prids : List Nat) :
    (itemTexts caid width some prids).length = prids.length := by
  cases prids with
  | nil => rfl
  | cons prid prids => simp [itemTexts]

theorem caid_lt (e : PortText) : e.caid < 2 ^ 16 := by
  unfold PortText.caid
  cases named : e.named with
  | none => decide
  | some caid =>
      obtain ⟨item, first, given⟩ := Option.bind_eq_some_iff.mp named
      obtain ⟨x, _, rfl⟩ := List.mem_map.mp (List.mem_of_head? first)
      obtain ⟨number, _, rfl⟩ := Option.map_eq_some_iff.mp given
      rw [Option.getD_some]
      omega

theorem prids_ne_nil (documented : e.Documented) : e.prids ≠ [] := by
  obtain ⟨item, rest, split, _⟩ := plain_read_tail documented
  rw [PortText.prids, split]
  exact List.cons_ne_nil _ _

theorem prids_lt (documented : e.Documented) :
    ∀ prid ∈ e.prids, prid < 2 ^ 24 := by
  intro prid member
  obtain ⟨item, read, rfl⟩ := List.mem_map.mp member
  obtain ⟨x, listed, rfl⟩ := List.mem_map.mp read
  exact documented.prids x (List.mem_of_mem_take listed)

theorem keyAtobL_printed (key : KeyText) :
    keyAtobL key.printed.txt 28 = keyAtobL key.txt 28 := by
  have back := keyAtobL_keyText (keyAtobL key.txt 28)
  rwa [length_keyAtobL] at back

theorem keyBytes_printed (e : PortText) :
    (e.key.map KeyText.printed).map (fun key => keyAtobL key.txt 28) =
      e.keyBytes := by
  rw [PortText.keyBytes, Option.map_map]
  cases e.key with
  | none => rw [Option.map_none, Option.map_none]
  | some key =>
      rw [Option.map_some, Option.map_some, Function.comp_apply,
        keyAtobL_printed]

theorem number_printed (e : PortText) (key : Option KeyText)
    (items : List ItemText) : (e.printed key items).number = e.number :=
  leadingNumber_number e

/-- A caid with its providers, printed in a documented port. -/
theorem entry_itemTexts (documented : e.Documented) (key : Option KeyText)
    (width : Nat) (some : 0 < width) (few : width ≤ 12) :
    (e.printed key (itemTexts e.caid width some e.prids)).Documented ∧
      (e.printed key (itemTexts e.caid width some e.prids)).named =
        Option.some e.caid ∧
      (e.printed key (itemTexts e.caid width some e.prids)).prids =
        e.prids := by
  obtain ⟨prid, rest, split⟩ :=
    List.exists_cons_of_ne_nil (prids_ne_nil documented)
  have small := prids_lt documented
  have count : (itemTexts e.caid width some e.prids).length ≤ csMaxprov := by
    rw [length_itemTexts]
    exact length_prids_le e
  have read := read_printed e key count
  have values := items_itemTexts some few (caid_lt e) small
  rw [values] at read
  refine ⟨⟨?_, ?_, ?_⟩, ?_, ?_⟩
  · show itemTexts e.caid width some e.prids ≠ []
    rw [split]
    exact List.cons_ne_nil _ _
  · show ∀ x ∈ (itemTexts e.caid width some e.prids).tail, x.caid = none
    rw [split]
    intro x member
    obtain ⟨_, _, rfl⟩ := List.mem_map.mp member
    rfl
  · show ∀ x ∈ itemTexts e.caid width some e.prids,
      readPrid x.ident.txt < 2 ^ 24
    intro x member
    have value : (ItemText.item x).prid ∈ e.prids := by
      have listed : ItemText.item x ∈ (itemTexts e.caid width some
          e.prids).map ItemText.item := List.mem_map_of_mem member
      rw [values, split] at listed
      rw [split]
      rcases List.mem_cons.mp listed with first | later
      · rw [first]
        exact List.mem_cons_self
      · obtain ⟨other, there, same⟩ := List.mem_map.mp later
        rw [← same]
        exact List.mem_cons_of_mem _ there
    exact small _ value
  · rw [PortText.named, read, split]
    rfl
  · have back : (rest.map fun prid => ({ caid := none, prid := prid } :
        Item)).map Item.prid = rest := by
      rw [List.map_map]
      exact List.map_id rest
    rw [PortText.prids, read, split, itemsOf, List.map_cons, back]

/-- What is read of a port that `mk_t_newcamd_port` printed. -/
theorem entry_newcamd (documented : e.Documented) :
    e.newcamd.Documented ∧ e.newcamd.entry =
      { e.entry with ftab := { e.single with nfilts := 1 } } := by
  obtain ⟨again, named, prids⟩ := entry_itemTexts documented
    (e.key.map KeyText.printed) 6 (by decide) (by decide)
  refine ⟨again, ?_⟩
  have caid : e.newcamd.caid = e.caid := by
    rw [PortText.caid]
    exact congrArg (·.getD 0) named
  have number : e.newcamd.number = e.number := number_printed e _ _
  have key : e.newcamd.keyBytes = e.keyBytes := keyBytes_printed e
  change e.newcamd.prids = e.prids at prids
  change e.newcamd.named = some e.caid at named
  unfold PortText.entry PortText.bare PortText.single
  rw [number, key, caid, prids, named]
  rfl

theorem nfilts_single_eq_one_iff (e : PortText) :
    e.single.nfilts = 1 ↔ e.named.isSome := by
  rw [PortText.single]
  cases e.named <;> simp

/-- The whole entry comes back if the caid had a provider. -/
theorem entry_newcamd_eq_iff (documented : e.Documented) :
    e.newcamd.entry = e.entry ↔ e.named.isSome := by
  rw [(entry_newcamd documented).2, ← nfilts_single_eq_one_iff]
  constructor
  · intro same
    exact (congrArg (fun port => port.ftab.nfilts) same).symm
  · intro count
    unfold PortText.entry
    rw [← count]

/-- What is read of a port whose providers `mk_t_camd35tcp_port` printed. -/
theorem entry_camd35_of_many (documented : e.Documented)
    (more : 1 < e.prids.length) :
    e.camd35.Documented ∧ e.camd35.entry =
      { e.entry with ncdKey := none, ftab := { e.single with nfilts := 1 } } := by
  have number : e.camd35.number = e.number := number_printed e _ _
  have key : e.camd35.keyBytes = none := rfl
  obtain ⟨again, named, prids⟩ := entry_itemTexts documented none 1
    (by decide) (by decide)
  have items : e.camd35 =
      e.printed none (itemTexts e.caid 1 Nat.one_pos e.prids) := by
    rw [PortText.camd35, if_pos more]
  rw [← items] at again named prids
  have caid : e.camd35.caid = e.caid := by
    rw [PortText.caid, named]
    rfl
  refine ⟨again, ?_⟩
  unfold PortText.entry PortText.bare PortText.single
  rw [number, key, caid, prids, named]
  rfl

/-- A caid that was printed alone is read as a provider. -/
theorem entry_camd35_of_few (few : ¬ 1 < e.prids.length) :
    e.camd35.Documented ∧ e.camd35.entry =
      { e.entry with
        ncdKey := none
        ftab :=
          { nfilts := 0
            filts := Group.filter { caid := 0, start := 0
                                    prids := [e.caid] } ::
              List.replicate (csMaxfilters - 1) .empty } } := by
  have number : e.camd35.number = e.number := number_printed e _ _
  have key : e.camd35.keyBytes = none := rfl
  have items : e.camd35 = e.printed none
      [{ caid := none, ident := hexText 4 e.caid caid_digits }] := by
    rw [PortText.camd35, if_neg few]
  have small := caid_lt e
  have value : readPrid (hexadecimal 4 e.caid) = e.caid :=
    readPrid_hexadecimal (by decide) (by decide) (by omega)
  have read : e.camd35.read = [{ caid := none, prid := e.caid }] := by
    have one : 1 ≤ csMaxprov := by decide
    rw [items, @read_printed e none
      [{ caid := none, ident := hexText 4 e.caid caid_digits }] one,
      List.map_singleton]
    unfold ItemText.item
    exact congrArg (fun prid => [({ caid := none, prid := prid } : Item)])
      value
  refine ⟨?_, ?_⟩
  · rw [items]
    refine ⟨List.cons_ne_nil _ _, by simp [PortText.printed], ?_⟩
    intro x member
    rw [List.mem_singleton.mp member]
    show readPrid (hexadecimal 4 e.caid) < 2 ^ 24
    omega
  · unfold PortText.entry PortText.bare PortText.single PortText.caid
      PortText.named PortText.prids
    rw [number, key, read]
    rfl

/-- What is read of a port that `mk_t_camd35tcp_port` printed. -/
theorem entry_camd35 (documented : e.Documented) :
    e.camd35.Documented ∧ e.camd35.entry =
      if 1 < e.prids.length then
        { e.entry with ncdKey := none, ftab := { e.single with nfilts := 1 } }
      else
        { e.entry with
          ncdKey := none
          ftab :=
            { nfilts := 0
              filts := Group.filter { caid := 0, start := 0
                                      prids := [e.caid] } ::
                List.replicate (csMaxfilters - 1) .empty } } := by
  split
  · rename_i more
    exact entry_camd35_of_many documented more
  · rename_i few
    exact entry_camd35_of_few few

/-! ## The printed text -/

variable {p : Print} {txt : List UInt8}

theorem decimal_number (e : PortText) :
    decimal (e.number : Int) = padded 10 1 e.number := by
  unfold decimal
  rw [if_neg (by omega)]
  rfl

theorem length_decimal_number_le (e : PortText) :
    (decimal (e.number : Int)).length ≤ 5 := by
  have small := e.small
  rw [decimal_number]
  exact length_padded_le (by decide)
    (by unfold PortText.number; omega) (by decide)

theorem text_newcamd (documented : e.Documented) :
    e.newcamd.text = decimal (e.number : Int) ++
      (e.keyBytes.elim [] fun key => 123 :: keyText key ++ [125]) ++
      64 :: (hexadecimal 4 e.caid ++
        58 :: [44].intercalate (e.prids.map (hexadecimal 6))) := by
  have items := intercalate_itemTexts e.caid 6 (by decide)
    (prids_ne_nil documented)
  have key : (e.key.map KeyText.printed).elim []
      (fun key => 123 :: key.txt ++ [125]) =
        e.keyBytes.elim [] fun key => 123 :: keyText key ++ [125] := by
    unfold PortText.keyBytes
    cases e.key with
    | none => rfl
    | some key => rfl
  rw [decimal_number, ← items, ← key]
  rfl

theorem text_camd35 (documented : e.Documented) :
    e.camd35.text = decimal (e.number : Int) ++
      64 :: (hexadecimal 4 e.caid ++
        if 1 < e.prids.length then
          58 :: [44].intercalate (e.prids.map (hexadecimal 1))
        else []) := by
  have items := intercalate_itemTexts e.caid 1 (by decide)
    (prids_ne_nil documented)
  rw [decimal_number]
  unfold PortText.camd35
  by_cases more : 1 < e.prids.length
  · rw [if_pos more, if_pos more, ← items]
    simp [PortText.text, PortText.printed]
  · rw [if_neg more, if_neg more]
    simp [PortText.text, PortText.printed, ItemText.text, hexText]

theorem fills_putNewcamdKey (fills : p.Fills needed txt)
    (key : List UInt8) :
    (putNewcamdKey needed key p).Fills needed
      (txt ++ (123 :: keyText key ++ [125])) := by
  have bytes (key : List UInt8) : ∀ (p : Print) txt, p.Fills needed txt →
      (key.foldl (fun p b => p.printLeft needed (hexadecimal 2 b.toNat))
        p).Fills needed (txt ++ keyText key) := by
    induction key with
    | nil =>
        intro p txt fills
        simpa [keyText] using fills
    | cons b key induction =>
        intro p txt fills
        have step := induction _ _ (fills.printLeft (hexadecimal 2 b.toNat))
        rw [List.append_assoc] at step
        exact step
  have last := (bytes key _ _ (fills.printLeft [123])).printLeft [125]
  simpa [putNewcamdKey] using last

theorem fills_putNewcamdPort (documented : e.Documented) (i : Nat)
    (fills : p.Fills needed txt) :
    (putNewcamdPort needed p (e.entry, i)).Fills needed
      (txt ++ (if i = 0 then [] else [59]) ++ e.newcamd.text) := by
  have port := fills.printLeft
    ((if i = 0 then [] else [59]) ++ decimal (e.number : Int))
  have some : 0 < e.prids.length :=
    List.length_pos_iff.mpr (prids_ne_nil documented)
  have rest (q : Print) (front : List UInt8) (before : q.Fills needed front) :
      (e.prids.zipIdx.foldl (putNewcamdPrid needed)
        (q.printLeft needed (64 :: hexadecimal 4 e.caid))).Fills needed
        (front ++ 64 :: (hexadecimal 4 e.caid ++
          58 :: [44].intercalate (e.prids.map (hexadecimal 6)))) := by
    have prids := Print.foldl_items [58] 44 (putNewcamdPrid needed)
      (hexadecimal 6) (before.printLeft (64 :: hexadecimal 4 e.caid)) e.prids
      fun p txt i _ prid _ shown => by
        have step := shown.printLeft
          ((if i = 0 then [58] else [44]) ++ hexadecimal 6 prid)
        rwa [← List.append_assoc] at step
    rw [if_neg (prids_ne_nil documented)] at prids
    simpa using prids
  rw [text_newcamd documented]
  unfold putNewcamdPort
  dsimp only
  rw [nprids_entry, if_pos some, ncdKey_entry, sPort_entry, caid_entry,
    shown_entry]
  cases e.keyBytes with
  | none => simpa using rest _ _ port
  | some bytes =>
      have printed := rest _ _ (fills_putNewcamdKey port bytes)
      simpa using printed

/-- A piece of `mk_t_camd35tcp_port` is shorter than the buffer. -/
theorem holds_putCamd35Port (documented : e.Documented) (i : Nat)
    (room : 11 < needed) (holds : p.Holds txt) :
    (putCamd35Port needed p (e.entry, i)).Holds
      (txt ++ (if i = 0 then [] else [59]) ++ e.camd35.text) := by
  have number := length_decimal_number_le e
  have caid : (hexadecimal 4 e.caid).length = 4 :=
    length_padded (by decide) (caid_lt e)
  have lead (i : Nat) (c d : List UInt8) (one : c.length ≤ 1)
      (other : d.length ≤ 1) : (if i = 0 then c else d).length ≤ 1 := by
    split
    · exact one
    · exact other
  have port := holds.print needed ((if i = 0 then [] else [59]) ++
    decimal (e.number : Int) ++ 64 :: hexadecimal 4 e.caid) (by
      have separator := lead i [] [59] (by simp) (by simp)
      simp only [List.length_append, List.length_cons]
      omega)
  have prids := Print.foldl_items [58] 44 (putCamd35Prid needed)
    (hexadecimal 1) port e.prids fun p txt i _ prid member shown => by
      have mark := lead i [58] [44] (by simp) (by simp)
      have small := prids_lt documented prid member
      have digits : (hexadecimal 1 prid).length ≤ 6 :=
        length_padded_le (by decide) (by omega) (by decide)
      have step := shown.print needed
        ((if i = 0 then [58] else [44]) ++ hexadecimal 1 prid) (by
          rw [List.length_append]
          omega)
      rwa [← List.append_assoc] at step
  rw [if_neg (prids_ne_nil documented)] at prids
  rw [text_camd35 documented]
  unfold putCamd35Port
  dsimp only
  rw [nprids_entry, sPort_entry, caid_entry, shown_entry]
  by_cases more : 1 < e.prids.length
  · rw [if_pos more, if_pos more]
    simpa using prids
  · rw [if_neg more, if_neg more]
    simpa using port

/-- The providers with the marks in front of them. -/
theorem length_pridsText_le (width : Nat) {prids : List Nat} (few : width ≤ 6)
    (filled : prids ≠ []) (small : ∀ prid ∈ prids, prid < 2 ^ 24) :
    (([44] : List UInt8).intercalate
      (prids.map (hexadecimal width))).length + 1 ≤ prids.length * 7 := by
  rw [Separated.length_intercalate 44 (by simpa using filled), List.map_map]
  have each : (prids.map
      ((fun field => field.length + 1) ∘ hexadecimal width)).sum ≤
        (prids.map fun _ => 7).sum := by
    apply List.sum_le_sum
    intro prid listed
    have word := small prid listed
    have digits : (hexadecimal width prid).length ≤ 6 :=
      length_padded_le (by decide) (by omega) few
    show (hexadecimal width prid).length + 1 ≤ 7
    omega
  have total : (prids.map fun _ => 7).sum = prids.length * 7 := by simp
  omega

theorem length_newcamd_le (documented : e.Documented) :
    e.newcamd.text.length + 1 ≤ newcamdSize e.entry := by
  have number := length_decimal_number_le e
  have caid : (hexadecimal 4 e.caid).length = 4 :=
    length_padded (by decide) (caid_lt e)
  have prids := length_pridsText_le 6 (le_refl 6) (prids_ne_nil documented)
    (prids_lt documented)
  have key : (e.keyBytes.elim [] fun key => 123 :: keyText key ++ [125]).length
      = if e.keyBytes.isSome then 30 else 0 := by
    unfold PortText.keyBytes
    cases e.key with
    | none => rfl
    | some key =>
        simp only [Option.map_some, Option.elim_some, List.length_append,
          List.length_cons, length_keyText, length_keyAtobL]
        rfl
  rw [text_newcamd documented, newcamdSize, ncdKey_entry, nprids_entry]
  simp only [List.length_append, List.length_cons]
  omega

theorem length_camd35_le (documented : e.Documented) :
    e.camd35.text.length + 1 ≤ camd35Size e.entry := by
  have number := length_decimal_number_le e
  have caid : (hexadecimal 4 e.caid).length = 4 :=
    length_padded (by decide) (caid_lt e)
  have prids := length_pridsText_le 1 (by decide) (prids_ne_nil documented)
    (prids_lt documented)
  rw [text_camd35 documented, camd35Size, nprids_entry]
  by_cases more : 1 < e.prids.length
  · rw [if_pos more, if_pos more]
    simp only [List.length_append, List.length_cons]
    omega
  · rw [if_neg more, if_neg more]
    simp only [List.length_append, List.length_cons, List.length_nil]
    omega

/-- Ports that are printed in what they are counted with. -/
theorem length_portsText_lt {printed : PortText → PortText}
    {size : Port → Nat}
    (each : ∀ e ∈ es, (printed e).text.length + 1 ≤ size e.entry) :
    (portsText (es.map printed)).length <
      1 + ((es.map PortText.entry).map size).sum := by
  have fields := Separated.length_intercalate_le_sum (59 : UInt8)
    ((es.map printed).map PortText.text)
  have sizes : (((es.map printed).map PortText.text).map fun txt =>
      txt.length + 1).sum ≤ ((es.map PortText.entry).map size).sum := by
    rw [List.map_map, List.map_map, List.map_map]
    exact List.sum_le_sum fun e member => each e member
  show (([59] : List UInt8).intercalate _).length < _
  omega

theorem zero_not_mem_portsText (es : List PortText) : 0 ∉ portsText es := by
  apply Separated.not_mem_intercalate (by decide)
  intro field listed inside
  obtain ⟨e, _, rfl⟩ := List.mem_map.mp listed
  rcases mem_portText inside with digit | same
  · exact ne_of_hex digit rfl rfl
  · simp at same

/-- What the loop over the ports prints, when every turn keeps what `R`
says. -/
theorem printed_ports {R : Print → List UInt8 → Prop}
    {put : Print → Port × Nat → Print} {printed : PortText → PortText}
    (begun : R .start [])
    (step : ∀ p txt i, ∀ e ∈ es, R p txt →
      R (put p (e.entry, i))
        (txt ++ (if i = 0 then [] else [59]) ++ (printed e).text)) :
    R ((es.map PortText.entry).zipIdx.foldl put .start)
      (portsText (es.map printed)) := by
  have items := Print.foldl_items [] 59
    (fun p x => put p (PortText.entry x.1, x.2)) (fun e => (printed e).text)
    begun es fun p txt i _ e member before => step p txt i e member before
  have lead : (if es = [] then [] else []) = ([] : List UInt8) := ite_self _
  rw [List.nil_append, lead, List.nil_append] at items
  rw [List.zipIdx_map, List.foldl_map, portsText, List.map_map]
  exact items

/-- `mk_t_newcamd_port` prints inside its buffer. -/
theorem mkTNewcamdPort_documented (documented : ∀ e ∈ es, e.Documented) :
    (mkTNewcamdPort (tableOf PortText.single es)).Inside ∧
      (mkTNewcamdPort (tableOf PortText.single es)).string =
        portsText (es.map PortText.newcamd) := by
  have fits := @length_portsText_lt es PortText.newcamd newcamdSize
    fun e member => length_newcamd_le (documented e member)
  unfold mkTNewcamdPort mkPorts
  rw [ports_tableOf_single]
  dsimp only
  generalize amount :
    1 + ((es.map PortText.entry).map newcamdSize).sum = needed at fits ⊢
  by_cases none : needed = 1
  · have empty : portsText (es.map PortText.newcamd) = [] :=
      List.eq_nil_of_length_eq_zero (by omega)
    rw [if_pos none, empty]
    exact ⟨Text.inside_empty, Text.string_empty⟩
  · rw [if_neg none]
    have fills := @printed_ports es (fun p txt => p.Fills needed txt)
      (putNewcamdPort needed) PortText.newcamd
      (Print.fills_startIn needed .zero)
      fun p txt i e member before =>
        fills_putNewcamdPort (documented e member) i before
    have written := fills.written fits
    have some : es ≠ [] := by
      rintro rfl
      exact none amount.symm
    have filled : portsText (es.map PortText.newcamd) ≠ [] := by
      obtain ⟨e, rest, rfl⟩ := List.exists_cons_of_ne_nil some
      intro empty
      have tokens := strtok_portsText ((e :: rest).map PortText.newcamd)
      rw [empty] at tokens
      cases tokens
    exact ⟨le_trans written fits, Print.string_of_read (fills.shows fits).bytes
      (fills.ended fits filled) (zero_not_mem_portsText _) fits⟩

/-- `mk_t_camd35tcp_port` prints inside its buffer. -/
theorem mkTCamd35tcpPort_documented (documented : ∀ e ∈ es, e.Documented) :
    (mkTCamd35tcpPort (tableOf PortText.single es)).Inside ∧
      (mkTCamd35tcpPort (tableOf PortText.single es)).string =
        portsText (es.map PortText.camd35) := by
  have fits := @length_portsText_lt es PortText.camd35 camd35Size
    fun e member => length_camd35_le (documented e member)
  have counted : ∀ e ∈ es,
      11 ≤ ((es.map PortText.entry).map camd35Size).sum := by
    intro e member
    have part : camd35Size e.entry ≤
        ((es.map PortText.entry).map camd35Size).sum :=
      List.single_le_sum (by simp) _
        (List.mem_map_of_mem (List.mem_map_of_mem member))
    unfold camd35Size at part ⊢
    omega
  unfold mkTCamd35tcpPort mkPorts
  rw [ports_tableOf_single]
  dsimp only
  generalize amount :
    ((es.map PortText.entry).map camd35Size).sum = total at fits counted ⊢
  by_cases none : 1 + total = 1
  · have empty : portsText (es.map PortText.camd35) = [] :=
      List.eq_nil_of_length_eq_zero (by omega)
    rw [if_pos none, empty]
    exact ⟨Text.inside_empty, Text.string_empty⟩
  · rw [if_neg none]
    have holds := @printed_ports es Print.Holds (putCamd35Port (1 + total))
      PortText.camd35 Print.holds_start fun p txt i e member before =>
        holds_putCamd35Port (documented e member) i (by
          have least := counted e member
          omega) before
    exact holds.string (zero_not_mem_portsText _) fits

/-! ## Which port strings are saved -/

/-- A documented string is saved if the printed ports stand for the ports of
the table. -/
theorem saved_iff_same {mkT : Ptab → Text} {printed : PortText → PortText}
    {same : Ptab → Ptab → Prop} (documented : ∀ e ∈ es, e.Documented)
    (again : ∀ e ∈ es, (printed e).Documented)
    (text : (mkT (tableOf PortText.single (es.take csMaxports))).Inside ∧
      (mkT (tableOf PortText.single (es.take csMaxports))).string =
        portsText ((es.take csMaxports).map printed)) :
    Saved mkT same es ↔
      same (tableOf PortText.single ((es.take csMaxports).map printed))
        (tableOf PortText.single (es.take csMaxports)) := by
  have read := chkPortTab_documented documented
  have reread : chkPortTab (portsText ((es.take csMaxports).map printed)) =
      some (tableOf PortText.single ((es.take csMaxports).map printed)) := by
    rw [chkPortTab_documented, List.take_of_length_le]
    · rw [List.length_map]
      exact List.length_take_le _ _
    · intro e member
      obtain ⟨other, listed, rfl⟩ := List.mem_map.mp member
      exact again other (List.mem_of_mem_take listed)
  constructor
  · rintro ⟨ptab, other, first, _, second, right⟩
    rw [read, Option.some.injEq] at first
    subst first
    rw [text.2, reread, Option.some.injEq] at second
    rwa [second]
  · intro right
    exact ⟨_, _, read, text.1, by rw [text.2, reread], right⟩

theorem samePorts_iff (printed : PortText → PortText) (es : List PortText) :
    SamePorts (tableOf PortText.single (es.map printed))
        (tableOf PortText.single es) ↔
      ∀ e ∈ es, (printed e).entry.listing = e.entry.listing := by
  rw [SamePorts, ports_tableOf_single, ports_tableOf_single, List.map_map,
    List.map_map, List.map_map, List.map_inj_left]
  exact Iff.rfl

theorem tableOf_eq_iff (printed : PortText → PortText) (es : List PortText) :
    tableOf PortText.single (es.map printed) = tableOf PortText.single es ↔
      ∀ e ∈ es, (printed e).entry = e.entry := by
  have same := @List.map_inj_left _ _ es
    (fun e => (printed e).entry) PortText.entry
  rw [← same]
  unfold tableOf
  rw [List.map_map, List.length_map, Ptab.mk.injEq, List.append_left_inj]
  exact and_iff_right rfl

theorem listing_newcamd (documented : e.Documented) :
    e.newcamd.entry.listing = e.entry.listing := by
  rw [(entry_newcamd documented).2]
  rfl

theorem keyBytes_eq_none_iff : e.keyBytes = none ↔ e.key = none := by
  rw [PortText.keyBytes, Option.map_eq_none_iff]

/-- The caid of a single provider is read back as the provider. -/
theorem listing_camd35_eq_iff (documented : e.Documented) :
    e.camd35.entry.listing = e.entry.listing ↔
      e.key = none ∧ (1 < e.prids.length ∨ e.caid = 0 ∧ e.prids = [0]) := by
  rw [(entry_camd35 documented).2, listing_entry, ← keyBytes_eq_none_iff]
  by_cases more : 1 < e.prids.length
  · have listing : Port.listing
        { e.entry with ncdKey := none, ftab := { e.single with nfilts := 1 } } =
          ((e.number : Int), none, e.caid, e.prids) := by
      have shown := shown_entry e
      rw [← shown]
      rfl
    rw [if_pos more, listing]
    constructor
    · intro same
      have key : none = e.keyBytes := congrArg (·.2.1) same
      exact ⟨key.symm, .inl more⟩
    · rintro ⟨key, _⟩
      rw [key]
  · have listing : Port.listing
        { e.entry with
          ncdKey := none
          ftab :=
            { nfilts := 0
              filts := Group.filter { caid := 0, start := 0
                                      prids := [e.caid] } ::
                List.replicate (csMaxfilters - 1) .empty } } =
          ((e.number : Int), none, 0, [e.caid]) := rfl
    rw [if_neg more, listing]
    constructor
    · intro same
      have key : none = e.keyBytes := congrArg (·.2.1) same
      have caid : 0 = e.caid := congrArg (·.2.2.1) same
      have prids : [e.caid] = e.prids := congrArg (·.2.2.2) same
      refine ⟨key.symm, .inr ⟨caid.symm, ?_⟩⟩
      rw [← prids, ← caid]
    · rintro ⟨key, many | ⟨caid, prids⟩⟩
      · exact absurd many more
      · rw [key, caid, prids]

theorem entry_camd35_eq_iff (documented : e.Documented) :
    e.camd35.entry = e.entry ↔
      e.key = none ∧ (e.named.isSome ∧ 1 < e.prids.length ∨
        e.named = none ∧ e.prids = [0]) := by
  have counted : e.single.nfilts = if e.named = none then 0 else 1 := rfl
  have parts := listing_camd35_eq_iff documented
  constructor
  · intro same
    obtain ⟨key, shape⟩ := parts.mp (congrArg Port.listing same)
    have count : e.camd35.entry.ftab.nfilts = e.single.nfilts :=
      congrArg (fun port => port.ftab.nfilts) same
    rw [(entry_camd35 documented).2, counted] at count
    refine ⟨key, ?_⟩
    by_cases more : 1 < e.prids.length
    · rw [if_pos more] at count
      have one : e.single.nfilts = 1 := counted.trans count.symm
      exact .inl ⟨(nfilts_single_eq_one_iff e).mp one, more⟩
    · rw [if_neg more] at count
      cases named : e.named with
      | none => exact .inr ⟨rfl, (shape.resolve_left more).2⟩
      | some caid =>
          rw [named] at count
          cases count
  · rintro ⟨key, shape⟩
    have none : e.entry.ncdKey = none := keyBytes_eq_none_iff.mpr key
    rw [(entry_camd35 documented).2]
    rcases shape with ⟨some, more⟩ | ⟨missing, zero⟩
    · have count := (nfilts_single_eq_one_iff e).mpr some
      rw [if_pos more, ← none]
      unfold PortText.entry
      rw [← count]
    · have caid : e.caid = 0 := by
        rw [PortText.caid, missing]
        rfl
      have few : ¬ 1 < e.prids.length := by
        rw [zero]
        decide
      rw [if_neg few, ← none]
      unfold PortText.entry PortText.single
      rw [missing, caid, zero]
      rfl

/-- The table of a documented string comes back from `mk_t_newcamd_port` with
all its ports, keys, caids and providers, and as a whole if every caid has a
provider; from `mk_t_camd35tcp_port` it comes back if no port has a key and
every caid has more than one provider, caid 0 alone apart. -/
theorem portsSaved_iff (documented : ∀ e ∈ es, e.Documented) :
    (Saved mkTNewcamdPort SamePorts es ∧
      (Saved mkTNewcamdPort Eq es ↔
        ∀ e ∈ es.take csMaxports, e.named.isSome)) ∧
    (Saved mkTCamd35tcpPort SamePorts es ↔
      ∀ e ∈ es.take csMaxports, e.key = none ∧
        (1 < e.prids.length ∨ e.caid = 0 ∧ e.prids = [0])) ∧
    (Saved mkTCamd35tcpPort Eq es ↔
      ∀ e ∈ es.take csMaxports, e.key = none ∧
        (e.named.isSome ∧ 1 < e.prids.length ∨
          e.named = none ∧ e.prids = [0])) := by
  have taken : ∀ e ∈ es.take csMaxports, e.Documented := fun e member =>
    documented e (List.mem_of_mem_take member)
  have newcamd {same : Ptab → Ptab → Prop} :=
    @saved_iff_same es mkTNewcamdPort PortText.newcamd same documented
      (fun e member => (entry_newcamd (documented e member)).1)
      (mkTNewcamdPort_documented taken)
  have camd35 {same : Ptab → Ptab → Prop} :=
    @saved_iff_same es mkTCamd35tcpPort PortText.camd35 same documented
      (fun e member => (entry_camd35 (documented e member)).1)
      (mkTCamd35tcpPort_documented taken)
  refine ⟨⟨newcamd.mpr ((samePorts_iff _ _).mpr fun e member =>
    listing_newcamd (taken e member)), ?_⟩, ?_, ?_⟩
  · rw [newcamd, tableOf_eq_iff]
    exact forall₂_congr fun e member => entry_newcamd_eq_iff (taken e member)
  · rw [camd35, samePorts_iff]
    exact forall₂_congr fun e member => listing_camd35_eq_iff (taken e member)
  · rw [camd35, tableOf_eq_iff]
    exact forall₂_congr fun e member => entry_camd35_eq_iff (taken e member)

theorem portsSaved_iff_one : Saved mkTNewcamdPort SamePorts [onePort] := by
  refine (portsSaved_iff fun e member => ?_).1.1
  rw [List.mem_singleton.mp member]
  refine ⟨List.cons_ne_nil _ _, fun x behind => ?_, fun x listed => ?_⟩
  · cases behind
  · rw [List.mem_singleton.mp listed]
    decide

/-- For cs378x the only provider of a port is lost, and its caid with it. -/
theorem only_provider_lost :
    ¬ Saved mkTCamd35tcpPort SamePorts [onePort] := by
  rintro ⟨ptab, again, read, _, reread, same⟩
  have differ : ((chkPortTab (portsText [onePort])).bind fun ptab =>
      (chkPortTab (mkTCamd35tcpPort ptab).string).map fun again =>
        decide (SamePorts again ptab)) = some false := by decide
  rw [read, Option.bind_some, reread, Option.map_some, decide_eq_true same]
    at differ
  cases differ

end Oscam.PortTables
