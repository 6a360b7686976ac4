import Oscam.Reader.Seca

/-!
# Filters for EMMs

`get_emm_filter` of four card systems prepares the filters of the demux, and
`get_emm_type` looks at the sections that come through.  A filter has no bytes
for the length of the section, so that its byte `k` is for byte `k + 2`.
-/

namespace Oscam.EmmFilters

open Seca (getProvIndex secaGetEmmType)

/-! ## Building filters -/

abbrev emmUnique : UInt8 := 1

abbrev emmShared : UInt8 := 2

abbrev emmGlobal : UInt8 := 4

/-- The filters so far, and where the next one goes. -/
structure Build where
  filter : Memory
  idx : Nat

/-- The buffer of the caller is clear. -/
def Build.start : Build :=
  { filter := (Memory.zero.write 0 [0xFF]).write 1 [0], idx := 2 }

/-- One of the bytes that a filter compares all bits of. -/
def putField (idx : Nat) (filter : Memory) (field : Nat × List UInt8) :
    Memory :=
  (filter.write (idx + field.1) field.2).write (idx + field.1 + 16)
    (List.replicate field.2.length 0xFF)

/-- A filter for a table, with the bytes that are compared. -/
def Build.add (b : Build) (type table mask : UInt8)
    (fields : List (Nat × List UInt8)) : Build :=
  let idx := b.idx + 2
  let filter := ((b.filter.write b.idx [type, 0]).write idx [table]).write
    (idx + 16) [mask]
  let filter := fields.foldl (putField idx) filter
  { filter := filter.write 1 [filter 1 + 1], idx := idx + 32 }

/-- A loop over providers, which ends with the tenth filter. -/
def Build.addProviders (skips : Nat → Bool) (add : Nat → Build → Build) :
    List Nat → Build → Build
  | [], b => b
  | i :: provs, b =>
      if skips i then addProviders skips add provs b
      else if (add i b).filter 1 ≥ 10 then add i b
      else addProviders skips add provs (add i b)

/-! ## The card systems -/

/-- `viaccess_get_emm_filter`. -/
def viaccessGetEmmFilter (rdr : CardReader) : Memory :=
  (((Build.start.add emmGlobal 0x8D 0xFE []).add emmShared 0x8E 0xFF
    [(1, (rdr.sa 0).read 0 3)]).add emmUnique 0x88 0xFF
    [(1, rdr.hexserial.read 1 4)]).filter

/-- `seca_get_emm_filter`. -/
def secaGetEmmFilter (rdr : CardReader) : Memory :=
  ((Build.start.add emmUnique 0x82 0xFF
    [(1, rdr.hexserial.read 0 6)]).addProviders (fun _ => false)
      (fun prov b => b.add emmShared 0x84 0xFF
        [(1, (rdr.prid prov).read 2 2), (3, (rdr.sa prov).read 0 3)])
      (List.range rdr.nprov)).filter

/-- `irdeto_get_emm_filter`. -/
def irdetoGetEmmFilter (rdr : CardReader) : Memory :=
  let emmG := rdr.hexserial 3 * 8
  (((((Build.start.add emmGlobal 0x82 0xFF [(1, [emmG])]).add
    emmGlobal 0x82 0xFF [(1, [0x81]), (2, rdr.hexserial.read 0 1)]).add
    emmUnique 0x82 0xFF [(1, [emmG + 3]), (2, rdr.hexserial.read 0 3)]).add
    emmShared 0x82 0xFF [(1, [emmG + 2]), (2, rdr.hexserial.read 0 2)]
    ).addProviders (fun i => rdr.prid i 1 == 0xFF)
      (fun i b => b.add emmShared 0x82 0xFF [(2, (rdr.prid i).read 1 2)])
      (List.range rdr.nprov)).filter

/-- `cryptoworks_get_emm_filter`. -/
def cryptoworksGetEmmFilter (rdr : CardReader) : Memory :=
  ((((Build.start.add emmGlobal 0x88 0xFE [(1, [0xA9]), (2, [0xFF])]).add
    emmShared 0x86 0xFF [(1, [0xA9]), (2, [0xFF])]).add
    emmShared 0x84 0xFF
      [(1, [0xA9]), (2, [0xFF]), (3, rdr.hexserial.read 0 4)]).add
    emmUnique 0x82 0xFF
      [(1, [0xA9]), (2, [0xFF]), (3, rdr.hexserial.read 0 5)]).filter

/-- `viaccess_get_emm_type`. -/
def viaccessGetEmmType (ep : EmmPacket) (rdr : CardReader) :
    EmmPacket × Bool :=
  let ep :=
    if ep.emm 3 = 0x90 ∧ ep.emm 4 = 0x03 then
      { ep with
        provid := ep.provid.write 0 [0, ep.emm 5, ep.emm 6, ep.emm 7 &&& 0xFE] }
    else ep
  if ep.emm 0 = 0x88 then
    ({ ep with
        type := .unique, hexserial := Memory.zero.write 0 (ep.emm.read 4 4) },
      rdr.hexserial.read 1 4 == ep.emm.read 4 4)
  else if ep.emm 0 = 0x8A ∨ ep.emm 0 = 0x8B then
    ({ ep with type := .global }, true)
  else if ep.emm 0 = 0x8C ∨ ep.emm 0 = 0x8D then
    ({ ep with type := .shared }, false)
  else if ep.emm 0 = 0x8E then
    ({ ep with
        type := .shared, hexserial := Memory.zero.write 0 (ep.emm.read 3 3) },
      -- a provider is checked as the serial as well
      (List.range rdr.nprov).any (fun i =>
          (rdr.prid i).read 1 3 == ep.emm.read 3 3) ||
        (rdr.sa 0).read 0 3 == ep.emm.read 3 3)
  else ({ ep with type := .unknown }, true)

/-- `irdeto_get_emm_type`. -/
def irdetoGetEmmType (ep : EmmPacket) (rdr : CardReader) : EmmPacket × Bool :=
  let l := (ep.emm 3).toNat % 8
  let base := (ep.emm 3).toNat / 8
  if l = 0 then ({ ep with type := .global }, true)
  else if l = 2 then
    ({ ep with
        type := .shared, hexserial := Memory.zero.write 0 (ep.emm.read 4 l) },
      if base &&& 0x10 ≠ 0 then
        base == (rdr.hexserial 3).toNat &&
          ep.emm.read 4 l == rdr.hexserial.read 0 l
      else
        base == 0 || (List.range rdr.nprov).any fun i =>
          base == (rdr.prid i 0).toNat &&
            ep.emm.read 4 l == (rdr.prid i).read 1 l)
  else if l = 3 then
    ({ ep with
        type := .unique, hexserial := Memory.zero.write 0 (ep.emm.read 4 l) },
      base == (rdr.hexserial 3).toNat &&
        ep.emm.read 4 l == rdr.hexserial.read 0 l)
  else ({ ep with type := .unknown }, true)

/-- `cryptoworks_get_emm_provid`; each nano has two bytes at least. -/
def cryptoworksGetEmmProvid (buffer : Memory) (len i : Int) : UInt8 :=
  if i < len then
    if buffer i.toNat = 0x83 then buffer (i.toNat + 2) &&& 0xFC
    else
      cryptoworksGetEmmProvid buffer len (i + (buffer (i.toNat + 1)).toNat + 2)
  else 0
termination_by (len - i).toNat
decreasing_by omega

/-- The provider of an EMM, looked for from some byte on. -/
def EmmPacket.withProvid (ep : EmmPacket) (start : Nat) : EmmPacket :=
  { ep with
    provid := ep.provid.write 0 [0, 0, 0,
      cryptoworksGetEmmProvid (ep.emm.shift start) (ep.l - start) 0] }

/-- `cryptoworks_get_emm_type`. -/
def cryptoworksGetEmmType (ep : EmmPacket) (rdr : CardReader) :
    EmmPacket × Bool :=
  let emm := ep.emm
  let addressed := emm 3 = 0xA9 ∧ emm 4 = 0xFF
  if emm 0 = 0x82 then
    if addressed ∧ emm 13 = 0x80 ∧ emm 14 = 0x05 then
      (EmmPacket.withProvid { ep with
          type := .unique, hexserial := Memory.zero.write 0 (emm.read 5 5) } 12,
        emm.read 5 5 == rdr.hexserial.read 0 5)
    else (ep, false)
  else if emm 0 = 0x84 then
    if addressed ∧ emm 12 = 0x80 ∧ emm 13 = 0x04 then
      (EmmPacket.withProvid { ep with
          type := .shared, hexserial := Memory.zero.write 0 (emm.read 5 4) } 12,
        emm.read 5 4 == rdr.hexserial.read 0 4)
    else (ep, false)
  else if emm 0 = 0x86 then
    if addressed ∧ emm 5 = 0x83 ∧ emm 6 = 0x01 ∧ emm 8 = 0x85 then
      (EmmPacket.withProvid { ep with type := .shared } 8, false)
    else (ep, false)
  else if emm 0 = 0x88 ∨ emm 0 = 0x89 then
    if addressed ∧ emm 8 = 0x83 ∧ emm 9 = 0x01 then
      (EmmPacket.withProvid { ep with type := .global } 8, true)
    else (ep, false)
  else if emm 0 = 0x8F then
    let ep := { ep with type := EmmType.unknown }
    (if emm 4 = 0x44 then
        EmmPacket.withProvid { ep with type := .global } 8
      else if emm 4 = 0x48 then
        EmmPacket.withProvid { ep with type := .shared } 12
      else if emm 4 = 0x42 then
        EmmPacket.withProvid { ep with type := .unique } 12
      else ep, true)
  else ({ ep with type := .unknown }, false)

/-- The four systems. -/
inductive CardSystem where
  | viaccess
  | seca
  | irdeto
  | cryptoworks
  deriving DecidableEq, Repr

/-- `ph->get_emm_filter`. -/
def CardSystem.getEmmFilter : CardSystem → CardReader → Memory
  | viaccess => viaccessGetEmmFilter
  | seca => secaGetEmmFilter
  | irdeto => irdetoGetEmmFilter
  | cryptoworks => cryptoworksGetEmmFilter

/-- `ph->get_emm_type`. -/
def CardSystem.getEmmType : CardSystem → EmmPacket → CardReader →
    EmmPacket × Bool
  | viaccess => viaccessGetEmmType
  | seca => secaGetEmmType
  | irdeto => irdetoGetEmmType
  | cryptoworks => cryptoworksGetEmmType

/-! ## Filtering -/

/-- One of the filters in a buffer, with its bytes and their masks. -/
structure Filter where
  type : UInt8
  filter : Memory
  mask : Memory

/-- The byte of a section that a byte of a filter is for. -/
def sectionByte (emm : Memory) (k : Nat) : UInt8 :=
  if k = 0 then emm 0 else emm (k + 2)

/-- The filter asks for the table of the section. -/
def Filter.Asks (f : Filter) (emm : Memory) : Prop :=
  emm 0 &&& f.mask 0 = f.filter 0 &&& f.mask 0

/-- The demux lets a section pass. -/
def Filter.Accepts (f : Filter) (emm : Memory) : Prop :=
  ∀ k < 16, sectionByte emm k &&& f.mask k = f.filter k &&& f.mask k

/-- The filter at some place of a buffer. -/
def filterAt (dmxFilter : Memory) (j : Nat) : Filter :=
  { type := dmxFilter (2 + 34 * j)
    filter := dmxFilter.shift (4 + 34 * j)
    mask := dmxFilter.shift (4 + 34 * j + 16) }

/-- The filter for unique EMMs. -/
def uniqueFilter (dmxFilter : Memory) : Option Filter :=
  ((List.range (dmxFilter 1).toNat).map (filterAt dmxFilter)).find?
    fun f => f.type == emmUnique

/-- The filter for unique EMMs asks for the table of a section. -/
def AsksUnique (dmxFilter emm : Memory) : Prop :=
  ∃ f, uniqueFilter dmxFilter = some f ∧ f.Asks emm

/-- The filter for unique EMMs lets a section pass. -/
def PassesUnique (dmxFilter emm : Memory) : Prop :=
  ∃ f, uniqueFilter dmxFilter = some f ∧ f.Accepts emm

/-! ### One filter -/

variable {fields : List (Nat × List UInt8)} {b : Build} {n idx k : Nat}
  {type table mask : UInt8} {emm : Memory}

/-- The byte that the fields of a filter have at some place. -/
def fieldAt (fields : List (Nat × List UInt8)) (k : Nat) : Option UInt8 :=
  fields.foldl
    (fun found field =>
      if field.1 ≤ k ∧ k < field.1 + field.2.length then
        some (field.2.getD (k - field.1) 0)
      else found)
    none

theorem fieldAt_append (fields : List (Nat × List UInt8))
    (field : Nat × List UInt8) (k : Nat) :
    fieldAt (fields ++ [field]) k =
      if field.1 ≤ k ∧ k < field.1 + field.2.length then
        some (field.2.getD (k - field.1) 0)
      else fieldAt fields k := by
  rw [fieldAt, List.foldl_append]
  rfl

/-- The fields of a filter are within its 16 bytes, behind the table. -/
def Fields (fields : List (Nat × List UInt8)) : Prop :=
  ∀ field ∈ fields, 1 ≤ field.1 ∧ field.1 + field.2.length ≤ 16

/-- What the fields of a filter leave of the memory. -/
structure PutFields (idx : Nat) (fields : List (Nat × List UInt8))
    (before after : Memory) : Prop where
  filter : ∀ k < 16, after (idx + k) =
    (fieldAt fields k).getD (before (idx + k))
  mask : ∀ k < 16, after (idx + 16 + k) =
    if (fieldAt fields k).isSome then 0xFF else before (idx + 16 + k)
  other : ∀ i, i < idx ∨ idx + 32 ≤ i → after i = before i

theorem putFields (within : Fields fields) (idx : Nat) (before : Memory) :
    PutFields idx fields before (fields.foldl (putField idx) before) := by
  induction fields using List.reverseRecOn with
  | nil =>
      exact { filter := fun _ _ => rfl, mask := fun _ _ => rfl
              other := fun _ _ => rfl }
  | append_singleton fields field induction =>
      have earlier := induction fun other member =>
        within other (List.mem_append_left _ member)
      obtain ⟨behind, room⟩ := within field (by simp)
      have put (m : Memory) (i : Nat) : putField idx m field i =
          if idx + field.1 + 16 ≤ i ∧
              i < idx + field.1 + 16 + field.2.length then
            (List.replicate field.2.length (0xFF : UInt8)).getD
              (i - (idx + field.1 + 16)) 0
          else if idx + field.1 ≤ i ∧ i < idx + field.1 + field.2.length then
            field.2.getD (i - (idx + field.1)) 0
          else m i := by
        unfold putField Memory.write
        rw [List.length_replicate]
      rw [List.foldl_append, List.foldl_cons, List.foldl_nil]
      constructor
      · intro k small
        rw [put, if_neg (by omega), fieldAt_append]
        by_cases here : field.1 ≤ k ∧ k < field.1 + field.2.length
        · rw [if_pos (by omega), if_pos here, Option.getD_some]
          congr 1
          omega
        · rw [if_neg (by omega), if_neg here, earlier.filter k small]
      · intro k small
        rw [put, fieldAt_append]
        by_cases here : field.1 ≤ k ∧ k < field.1 + field.2.length
        · rw [if_pos (by omega), if_pos here, Option.isSome_some, if_pos rfl,
            List.getD_eq_getElem _ _ (by rw [List.length_replicate]; omega),
            List.getElem_replicate]
        · rw [if_neg (by omega), if_neg (by omega), if_neg here,
            earlier.mask k small]
      · intro i outside
        rw [put, if_neg (by omega), if_neg (by omega), earlier.other i outside]

/-- The filters built so far, with nothing behind them. -/
structure Built (b : Build) (n : Nat) : Prop where
  idx : b.idx = 2 + 34 * n
  count : (b.filter 1).toNat = n
  few : n ≤ 10
  clear : ∀ i, b.idx ≤ i → b.filter i = 0

theorem built_start : Built .start 0 where
  idx := rfl
  count := rfl
  few := Nat.zero_le 10
  clear := by
    intro i behind
    have place : 2 ≤ i := behind
    show ((Memory.zero.write 0 [0xFF]).write 1 [0]) i = 0
    rw [Memory.write_byte_apply, Memory.write_byte_apply, if_neg (by omega),
      if_neg (by omega)]
    rfl

/-- A filter as it was asked for. -/
structure Is (f : Filter) (type table mask : UInt8)
    (fields : List (Nat × List UInt8)) : Prop where
  type : f.type = type
  table : f.filter 0 = table ∧ f.mask 0 = mask
  filter : ∀ k, 0 < k → k < 16 → f.filter k = (fieldAt fields k).getD 0
  mask : ∀ k, 0 < k → k < 16 →
    f.mask k = if (fieldAt fields k).isSome then 0xFF else 0

/-- What a further filter leaves of the others. -/
structure Added (b after : Build) (n : Nat) (type table mask : UInt8)
    (fields : List (Nat × List UInt8)) : Prop where
  built : Built after (n + 1)
  same : ∀ i, 2 ≤ i → i < b.idx → after.filter i = b.filter i
  added : Is (filterAt after.filter n) type table mask fields

theorem Built.add (built : Built b n) (few : n < 10) (within : Fields fields)
    (type table mask : UInt8) :
    Added b (b.add type table mask fields) n type table mask fields := by
  have idx := built.idx
  -- the buffer in front of the fields
  have head (i : Nat) : (((b.filter.write b.idx [type, 0]).write (b.idx + 2)
      [table]).write (b.idx + 2 + 16) [mask]) i =
        if i = b.idx + 2 + 16 then mask
        else if i = b.idx + 2 then table
        else if i = b.idx then type
        else if i = b.idx + 1 then 0
        else b.filter i := by
    rw [Memory.write_byte_apply, Memory.write_byte_apply]
    congr 2
    by_cases first : i = b.idx
    · rw [if_pos first, first, Memory.write_head]
    · rw [if_neg first]
      by_cases second : i = b.idx + 1
      · rw [if_pos second, second, Memory.write_inside (by simp)]
        rfl
      · rw [if_neg second]
        apply if_neg
        rw [List.length_cons, List.length_singleton]
        omega
  have put := putFields within (b.idx + 2)
    (((b.filter.write b.idx [type, 0]).write (b.idx + 2) [table]).write
      (b.idx + 2 + 16) [mask])
  have one : fields.foldl (putField (b.idx + 2))
      (((b.filter.write b.idx [type, 0]).write (b.idx + 2) [table]).write
        (b.idx + 2 + 16) [mask]) 1 = b.filter 1 := by
    rw [put.other 1 (by omega), head, if_neg (by omega), if_neg (by omega),
      if_neg (by omega), if_neg (by omega)]
  have last (i : Nat) : (b.add type table mask fields).filter i =
      if i = 1 then b.filter 1 + 1
      else fields.foldl (putField (b.idx + 2))
        (((b.filter.write b.idx [type, 0]).write (b.idx + 2) [table]).write
          (b.idx + 2 + 16) [mask]) i := by
    unfold Build.add
    dsimp only
    rw [Memory.write_byte_apply, one]
  have none : fieldAt fields 0 = none := by
    clear put last one
    induction fields using List.reverseRecOn with
    | nil => rfl
    | append_singleton fields field induction =>
        have behind := (within field (by simp)).1
        rw [fieldAt_append, if_neg (by omega)]
        exact induction fun other member =>
          within other (List.mem_append_left _ member)
  constructor
  · constructor
    · show b.idx + 2 + 32 = _
      omega
    · rw [last, if_pos rfl, UInt8.toNat_add, built.count]
      show (n + 1) % 256 = n + 1
      omega
    · omega
    · intro i behind
      have far : b.idx + 2 + 32 ≤ i := behind
      rw [last, if_neg (by omega), put.other i (by omega), head,
        if_neg (by omega), if_neg (by omega), if_neg (by omega),
        if_neg (by omega), built.clear i (by omega)]
  · intro i low high
    rw [last, if_neg (by omega), put.other i (by omega), head,
      if_neg (by omega), if_neg (by omega), if_neg (by omega),
      if_neg (by omega)]
  · have filter (k : Nat) : (filterAt (b.add type table mask fields).filter
        n).filter k = (b.add type table mask fields).filter (b.idx + 2 + k) := by
      show (b.add type table mask fields).filter (4 + 34 * n + k) = _
      congr 1
      omega
    have masks (k : Nat) : (filterAt (b.add type table mask fields).filter
        n).mask k =
          (b.add type table mask fields).filter (b.idx + 2 + 16 + k) := by
      show (b.add type table mask fields).filter (4 + 34 * n + 16 + k) = _
      congr 1
      omega
    constructor
    · show (b.add type table mask fields).filter (2 + 34 * n) = type
      rw [← idx, last, if_neg (by omega), put.other b.idx (by omega), head,
        if_neg (by omega), if_neg (by omega), if_pos rfl]
    · constructor
      · rw [filter, last, if_neg (by omega), put.filter 0 (by decide), none,
          Option.getD_none, head, if_neg (by omega), if_pos (by omega)]
      · rw [masks, last, if_neg (by omega), put.mask 0 (by decide), none, head,
          if_neg (by decide), if_pos (by omega)]
    · intro k some small
      rw [filter, last, if_neg (by omega), put.filter k small, head,
        if_neg (by omega), if_neg (by omega), if_neg (by omega),
        if_neg (by omega), built.clear _ (by omega)]
    · intro k some small
      have zero : (((b.filter.write b.idx [type, 0]).write (b.idx + 2)
          [table]).write (b.idx + 2 + 16) [mask]) (b.idx + 2 + 16 + k) = 0 := by
        rw [head, if_neg (by omega), if_neg (by omega), if_neg (by omega),
          if_neg (by omega), built.clear _ (by omega)]
      rw [masks, last, if_neg (by omega), put.mask k small, zero]

/-- What a filter is asked for. -/
structure Spec where
  type : UInt8
  table : UInt8
  mask : UInt8
  fields : List (Nat × List UInt8)

/-- The buffer has these filters, one behind the other. -/
structure Lists (b : Build) (specs : List Spec) : Prop where
  built : Built b specs.length
  entry : ∀ j spec, specs[j]? = some spec →
    Is (filterAt b.filter j) spec.type spec.table spec.mask spec.fields

theorem lists_start : Lists .start [] where
  built := built_start
  entry := by
    intro j spec none
    cases none

/-- A filter is as it was where its bytes are. -/
theorem Is.congr {before after : Memory} {j : Nat}
    (is : Is (filterAt before j) type table mask fields)
    (same : ∀ i, 2 + 34 * j ≤ i → i < 2 + 34 * (j + 1) → after i = before i) :
    Is (filterAt after j) type table mask fields := by
  have filter (k : Nat) (small : k < 16) :
      (filterAt after j).filter k = (filterAt before j).filter k :=
    same (4 + 34 * j + k) (by omega) (by omega)
  have masks (k : Nat) (small : k < 16) :
      (filterAt after j).mask k = (filterAt before j).mask k :=
    same (4 + 34 * j + 16 + k) (by omega) (by omega)
  constructor
  · exact (same (2 + 34 * j) (by omega) (by omega)).trans is.type
  · rw [filter 0 (by decide), masks 0 (by decide)]
    exact is.table
  · intro k some small
    rw [filter k small, is.filter k some small]
  · intro k some small
    rw [masks k small, is.mask k some small]

variable {specs : List Spec}

theorem Lists.add (lists : Lists b specs) (few : specs.length < 10)
    (within : Fields fields) (type table mask : UInt8) :
    Lists (b.add type table mask fields)
      (specs ++ [⟨type, table, mask, fields⟩]) := by
  have added := lists.built.add few within type table mask
  constructor
  · rw [List.length_append, List.length_singleton]
    exact added.built
  · intro j spec listed
    rcases Nat.lt_trichotomy j specs.length with front | last | behind
    · rw [List.getElem?_append_left front] at listed
      apply (lists.entry j spec listed).congr
      intro i low high
      exact added.same i (by omega) (by rw [lists.built.idx]; omega)
    · subst last
      rw [List.getElem?_append_right (Nat.le_refl _), Nat.sub_self] at listed
      cases listed
      exact added.added
    · have none : (specs ++ [(⟨type, table, mask, fields⟩ : Spec)])[j]? =
          none := by
        apply List.getElem?_eq_none
        rw [List.length_append, List.length_singleton]
        omega
      rw [none] at listed
      cases listed

/-- Providers are added behind the filters that are there. -/
theorem Lists.addProviders (skips : Nat → Bool) (spec : Nat → Spec)
    (within : ∀ i, Fields (spec i).fields) (lists : Lists b specs)
    (few : specs.length < 10) (provs : List Nat) :
    ∃ more, (∀ s ∈ more, ∃ i, s = spec i) ∧
      Lists (b.addProviders skips
        (fun i b => b.add (spec i).type (spec i).table (spec i).mask
          (spec i).fields) provs) (specs ++ more) := by
  induction provs generalizing b specs with
  | nil =>
      refine ⟨[], fun _ none => absurd none List.not_mem_nil, ?_⟩
      rwa [List.append_nil]
  | cons i provs induction =>
      rw [Build.addProviders]
      split
      · exact induction lists few
      · have next := lists.add few (within i) (spec i).type (spec i).table
          (spec i).mask
        split
        · refine ⟨[spec i], ?_, next⟩
          intro s member
          exact ⟨i, List.mem_singleton.mp member⟩
        · rename_i more
          have count := next.built.count
          rw [ge_iff_le, UInt8.le_iff_toNat_le, count] at more
          have ten : (10 : UInt8).toNat = 10 := rfl
          obtain ⟨others, known, after⟩ := induction next (by omega)
          refine ⟨spec i :: others, ?_, ?_⟩
          · rw [List.forall_mem_cons]
            exact ⟨⟨i, rfl⟩, known⟩
          · rwa [List.append_assoc, List.singleton_append] at after

/-- The filter for unique EMMs is the first one of its type. -/
theorem Lists.unique (front behind : List Spec)
    (lists : Lists b
      (front ++ ⟨emmUnique, table, mask, fields⟩ :: behind))
    (others : ∀ s ∈ front, s.type ≠ emmUnique) :
    ∃ f, uniqueFilter b.filter = some f ∧
      Is f emmUnique table mask fields := by
  have entry := lists.entry front.length ⟨emmUnique, table, mask, fields⟩ (by
    rw [List.getElem?_append_right (Nat.le_refl _), Nat.sub_self]
    rfl)
  have count := lists.built.count
  refine ⟨_, ?_, entry⟩
  have place : (List.range (b.filter 1).toNat).find?
      (fun j => (filterAt b.filter j).type == emmUnique) =
        some front.length := by
    rw [List.find?_range_eq_some]
    refine ⟨beq_iff_eq.mpr entry.type, ?_, ?_⟩
    · rw [List.mem_range, count, List.length_append, List.length_cons]
      omega
    · intro j less
      have here : front[j]? = some (front.get ⟨j, less⟩) :=
        List.getElem?_eq_getElem less
      have is := lists.entry j _ (by
        rw [List.getElem?_append_left less, here])
      rw [Bool.not_eq_true', beq_eq_false_iff_ne, is.type]
      exact others _ (List.get_mem front ⟨j, less⟩)
  rw [uniqueFilter, List.find?_map]
  show Option.map _ (List.find? (fun j =>
    (filterAt b.filter j).type == emmUnique) _) = _
  rw [place]
  rfl

/-! ### What passes -/

variable {f : Filter}

theorem Is.asks_iff (is : Is f type table mask fields) :
    f.Asks emm ↔ emm 0 &&& mask = table &&& mask := by
  rw [Filter.Asks, is.table.1, is.table.2]

/-- A section passes if it has the bytes of all fields. -/
theorem Is.accepts_iff (is : Is f type table mask fields) :
    f.Accepts emm ↔ f.Asks emm ∧
      ∀ k, 0 < k → k < 16 → ∀ byte, fieldAt fields k = some byte →
        emm (k + 2) = byte := by
  constructor
  · intro accepts
    refine ⟨accepts 0 (by decide), ?_⟩
    intro k some small byte here
    have same := accepts k small
    have all : (0xFF : UInt8) = -1 := rfl
    rwa [sectionByte, if_neg (by omega), is.filter k some small,
      is.mask k some small, here, Option.isSome_some, if_pos rfl,
      Option.getD_some, all, UInt8.and_neg_one, UInt8.and_neg_one] at same
  · rintro ⟨asks, bytes⟩ k small
    rcases Nat.eq_zero_or_pos k with rfl | some
    · exact asks
    · rw [sectionByte, if_neg (by omega), is.filter k some small,
        is.mask k some small]
      cases here : fieldAt fields k with
      | none => simp
      | some byte =>
          rw [bytes k some small byte here]
          rfl

/-- A byte of a field is one of a field that is there. -/
theorem fieldAt_some {byte : UInt8} (here : fieldAt fields k = some byte) :
    ∃ field ∈ fields, field.1 ≤ k ∧ k < field.1 + field.2.length ∧
      field.2.getD (k - field.1) 0 = byte := by
  induction fields using List.reverseRecOn with
  | nil => cases here
  | append_singleton fields field induction =>
      rw [fieldAt_append] at here
      split at here
      · rename_i inside
        exact ⟨field, by simp, inside.1, inside.2, Option.some.inj here⟩
      · obtain ⟨other, member, found⟩ := induction here
        exact ⟨other, List.mem_append_left _ member, found⟩

theorem Is.accepts_of_fields (is : Is f type table mask fields)
    (asks : f.Asks emm)
    (fields' : ∀ field ∈ fields,
      emm.read (field.1 + 2) field.2.length = field.2) : f.Accepts emm := by
  rw [is.accepts_iff]
  refine ⟨asks, ?_⟩
  intro k some small byte here
  obtain ⟨field, member, low, high, rfl⟩ := fieldAt_some here
  have byte := Memory.getD_read emm (field.1 + 2)
    (show k - field.1 < field.2.length by omega)
  rw [fields' field member] at byte
  rw [byte]
  congr 1
  omega

/-! ## The four systems -/

variable {rdr : CardReader} {ep : EmmPacket}

theorem fields_nil : Fields [] :=
  fun _ none => absurd none List.not_mem_nil

theorem fields_cons (start : Nat) (bytes : List UInt8) (low : 1 ≤ start)
    (high : start + bytes.length ≤ 16) (rest : Fields fields) :
    Fields ((start, bytes) :: fields) :=
  List.forall_mem_cons.mpr ⟨⟨low, high⟩, rest⟩

theorem fields_read (start : Nat) (m : Memory) (off size : Nat)
    (low : 1 ≤ start) (high : start + size ≤ 16) (rest : Fields fields) :
    Fields ((start, m.read off size) :: fields) :=
  fields_cons start _ low (by rwa [Memory.length_read]) rest

/-- What a system compares for a unique EMM, behind the table. -/
def CardSystem.uniqueFields : CardSystem → CardReader → List (Nat × List UInt8)
  | viaccess, rdr => [(1, rdr.hexserial.read 1 4)]
  | seca, rdr => [(1, rdr.hexserial.read 0 6)]
  | irdeto, rdr =>
      [(1, [rdr.hexserial 3 * 8 + 3]), (2, rdr.hexserial.read 0 3)]
  | cryptoworks, rdr =>
      [(1, [0xA9]), (2, [0xFF]), (3, rdr.hexserial.read 0 5)]

/-- The table of its unique EMMs. -/
def CardSystem.uniqueTable : CardSystem → UInt8
  | viaccess => 0x88
  | _ => 0x82

/-- The filters of viaccess. -/
theorem unique_viaccess (rdr : CardReader) :
    ∃ f, uniqueFilter (viaccessGetEmmFilter rdr) = some f ∧
      Is f emmUnique 0x88 0xFF [(1, rdr.hexserial.read 1 4)] := by
  have first := lists_start.add (by decide) fields_nil emmGlobal 0x8D 0xFE
  have second := first.add (by decide) (fields_read 1 (rdr.sa 0) 0 3
    (Nat.le_refl 1) (by decide) fields_nil) emmShared 0x8E 0xFF
  have third := second.add (by simp) (fields_read 1 rdr.hexserial 1 4
    (Nat.le_refl 1) (by decide) fields_nil) emmUnique 0x88 0xFF
  refine third.unique [_, _] [] ?_
  simp only [List.forall_mem_cons]
  exact ⟨by decide, by decide, List.forall_mem_nil _⟩

theorem unique_seca (rdr : CardReader) :
    ∃ f, uniqueFilter (secaGetEmmFilter rdr) = some f ∧
      Is f emmUnique 0x82 0xFF [(1, rdr.hexserial.read 0 6)] := by
  have first := lists_start.add (by decide) (fields_read 1 rdr.hexserial 0 6
    (Nat.le_refl 1) (by decide) fields_nil) emmUnique 0x82 0xFF
  obtain ⟨more, -, all⟩ := first.addProviders (fun _ => false)
    (fun prov => ⟨emmShared, 0x84, 0xFF,
      [(1, (rdr.prid prov).read 2 2), (3, (rdr.sa prov).read 0 3)]⟩)
    (fun prov => fields_read 1 _ 2 2 (Nat.le_refl 1) (by decide)
      (fields_read 3 _ 0 3 (by decide) (by decide) fields_nil))
    (by simp) (List.range rdr.nprov)
  exact all.unique [] _ (List.forall_mem_nil _)

theorem unique_irdeto (rdr : CardReader) :
    ∃ f, uniqueFilter (irdetoGetEmmFilter rdr) = some f ∧
      Is f emmUnique 0x82 0xFF
        [(1, [rdr.hexserial 3 * 8 + 3]), (2, rdr.hexserial.read 0 3)] := by
  have first := lists_start.add (by decide)
    (fields_cons 1 [rdr.hexserial 3 * 8] (Nat.le_refl 1) (by simp) fields_nil)
    emmGlobal 0x82 0xFF
  have second := first.add (by simp)
    (fields_cons 1 [0x81] (Nat.le_refl 1) (by simp)
      (fields_read 2 rdr.hexserial 0 1 (by decide) (by decide) fields_nil))
    emmGlobal 0x82 0xFF
  have third := second.add (by simp)
    (fields_cons 1 [rdr.hexserial 3 * 8 + 3] (Nat.le_refl 1) (by simp)
      (fields_read 2 rdr.hexserial 0 3 (by decide) (by decide) fields_nil))
    emmUnique 0x82 0xFF
  have fourth := third.add (by simp)
    (fields_cons 1 [rdr.hexserial 3 * 8 + 2] (Nat.le_refl 1) (by simp)
      (fields_read 2 rdr.hexserial 0 2 (by decide) (by decide) fields_nil))
    emmShared 0x82 0xFF
  obtain ⟨more, -, all⟩ := fourth.addProviders
    (fun i => rdr.prid i 1 == 0xFF)
    (fun i => ⟨emmShared, 0x82, 0xFF, [(2, (rdr.prid i).read 1 2)]⟩)
    (fun i => fields_read 2 _ 1 2 (by decide) (by decide) fields_nil) (by simp)
    (List.range rdr.nprov)
  refine all.unique [_, _] _ ?_
  simp only [List.forall_mem_cons]
  exact ⟨by decide, by decide, List.forall_mem_nil _⟩

theorem unique_cryptoworks (rdr : CardReader) :
    ∃ f, uniqueFilter (cryptoworksGetEmmFilter rdr) = some f ∧
      Is f emmUnique 0x82 0xFF
        [(1, [0xA9]), (2, [0xFF]), (3, rdr.hexserial.read 0 5)] := by
  have lead {fields : List (Nat × List UInt8)} (rest : Fields fields) :
      Fields ((1, [0xA9]) :: (2, [0xFF]) :: fields) :=
    fields_cons 1 _ (Nat.le_refl 1) (by simp)
      (fields_cons 2 _ (by decide) (by simp) rest)
  have first := lists_start.add (by decide) (lead fields_nil) emmGlobal 0x88
    0xFE
  have second := first.add (by simp) (lead fields_nil) emmShared 0x86 0xFF
  have third := second.add (by simp) (lead (fields_read 3 rdr.hexserial 0 4
    (by decide) (by decide) fields_nil)) emmShared 0x84 0xFF
  have fourth := third.add (by simp) (lead (fields_read 3 rdr.hexserial 0 5
    (by decide) (by decide) fields_nil)) emmUnique 0x82 0xFF
  refine fourth.unique [_, _, _] [] ?_
  simp only [List.forall_mem_cons]
  exact ⟨by decide, by decide, by decide, List.forall_mem_nil _⟩

theorem uniqueFilter_is (system : CardSystem) (rdr : CardReader) :
    ∃ f, uniqueFilter (system.getEmmFilter rdr) = some f ∧
      Is f emmUnique system.uniqueTable 0xFF (system.uniqueFields rdr) := by
  cases system with
  | viaccess => exact unique_viaccess rdr
  | seca => exact unique_seca rdr
  | irdeto => exact unique_irdeto rdr
  | cryptoworks => exact unique_cryptoworks rdr

/-! ### Unique EMMs -/

theorem viaccess_unique
    (unique : (viaccessGetEmmType ep rdr).1.type = .unique)
    (accepted : (viaccessGetEmmType ep rdr).2 = true) :
    rdr.hexserial.read 1 4 = ep.emm.read 4 4 := by
  have emm : (if ep.emm 3 = 0x90 ∧ ep.emm 4 = 0x03 then
      { ep with
        provid := ep.provid.write 0 [0, ep.emm 5, ep.emm 6, ep.emm 7 &&& 0xFE] }
      else ep).emm = ep.emm := by
    split <;> rfl
  unfold viaccessGetEmmType at unique accepted
  dsimp only at unique accepted
  rw [emm] at unique accepted
  split at unique
  · rename_i table
    rw [if_pos table] at accepted
    exact beq_iff_eq.mp accepted
  split at unique
  · cases unique
  split at unique
  · cases unique
  split at unique
  · cases unique
  · cases unique

theorem seca_unique (unique : (secaGetEmmType ep rdr).1.type = .unique)
    (accepted : (secaGetEmmType ep rdr).2 = true) :
    rdr.hexserial.read 0 6 = ep.emm.read 3 6 := by
  unfold secaGetEmmType at unique accepted
  split at unique
  · rename_i table
    rw [if_pos table] at accepted
    exact beq_iff_eq.mp accepted
  split at unique
  · cases unique
  split at unique
  · cases unique
  · cases unique

theorem irdeto_unique (unique : (irdetoGetEmmType ep rdr).1.type = .unique)
    (accepted : (irdetoGetEmmType ep rdr).2 = true) :
    ep.emm 3 = rdr.hexserial 3 * 8 + 3 ∧
      ep.emm.read 4 3 = rdr.hexserial.read 0 3 := by
  unfold irdetoGetEmmType at unique accepted
  dsimp only at unique accepted
  split at unique
  · cases unique
  split at unique
  · cases unique
  split at unique
  · rename_i zero two three
    rw [if_neg zero, if_neg two, if_pos three] at accepted
    obtain ⟨base, same⟩ := (Bool.and_eq_true _ _).mp accepted
    have base := beq_iff_eq.mp base
    have same := beq_iff_eq.mp same
    rw [three] at same
    refine ⟨?_, same⟩
    have low : (ep.emm 3).toNat < 2 ^ 8 := UInt8.toNat_lt (ep.emm 3)
    have packed : (rdr.hexserial 3 * 8 + 3).toNat =
        ((rdr.hexserial 3).toNat * 8 % 256 + 3) % 256 := by
      rw [UInt8.toNat_add, UInt8.toNat_mul]
      rfl
    apply UInt8.toNat_inj.mp
    rw [packed]
    omega
  · cases unique

theorem cryptoworks_unique
    (table : ep.emm 0 = 0x82)
    (accepted : (cryptoworksGetEmmType ep rdr).2 = true) :
    ep.emm 3 = 0xA9 ∧ ep.emm 4 = 0xFF ∧
      ep.emm.read 5 5 = rdr.hexserial.read 0 5 := by
  unfold cryptoworksGetEmmType at accepted
  dsimp only at accepted
  rw [if_pos table] at accepted
  split at accepted
  · rename_i addressed
    exact ⟨addressed.1.1, addressed.1.2, beq_iff_eq.mp accepted⟩
  · cases accepted

/-- What a filter of viaccess compares is one byte in front of what the type is
told from. -/
theorem viaccess_accepts_iff {f : Filter}
    (is : Is f emmUnique 0x88 0xFF [(1, rdr.hexserial.read 1 4)])
    (asks : f.Asks ep.emm)
    (same : rdr.hexserial.read 1 4 = ep.emm.read 4 4) :
    f.Accepts ep.emm ↔ ∀ i < 4, rdr.hexserial (1 + i) = ep.emm 3 := by
  have serial (i : Nat) (inside : i < 4) :
      rdr.hexserial (1 + i) = ep.emm (4 + i) :=
    Memory.apply_of_read same inside
  have field (i : Nat) (inside : i < 4) :
      fieldAt [(1, rdr.hexserial.read 1 4)] (1 + i) =
        some (rdr.hexserial (1 + i)) := by
    have here : 1 ≤ 1 + i ∧ 1 + i < 1 + (rdr.hexserial.read 1 4).length := by
      rw [Memory.length_read]
      omega
    show (if _ then some _ else none) = _
    rw [if_pos here, Nat.add_sub_cancel_left, Memory.getD_read _ _ inside]
  constructor
  · intro accepts
    have bytes := (is.accepts_iff.mp accepts).2
    have before (i : Nat) (inside : i < 4) :
        ep.emm (3 + i) = rdr.hexserial (1 + i) := by
      have byte := bytes (1 + i) (by omega) (by omega) _ (field i inside)
      rwa [show 1 + i + 2 = 3 + i by omega] at byte
    intro i inside
    induction i with
    | zero => exact (before 0 inside).symm
    | succ i induction =>
        have last := induction (by omega)
        rw [← before (i + 1) inside, ← last, serial i (by omega)]
        congr 1
        omega
  · intro equal
    apply is.accepts_of_fields asks
    rw [List.forall_mem_singleton]
    show ep.emm.read 3 (rdr.hexserial.read 1 4).length = _
    rw [Memory.length_read]
    apply Memory.read_of_apply
    intro i inside
    rw [equal i inside]
    cases i with
    | zero => rfl
    | succ i =>
        rw [← equal i (by omega), serial i (by omega)]
        congr 1
        omega

/-- A unique EMM that its type says is for the reader passes the filter for
unique EMMs, except that the one of viaccess wants other bytes. -/
theorem uniqueFilter_passes_iff (system : CardSystem)
    (unique : (system.getEmmType ep rdr).1.type = .unique)
    (accepted : (system.getEmmType ep rdr).2 = true)
    (asked : AsksUnique (system.getEmmFilter rdr) ep.emm) :
    PassesUnique (system.getEmmFilter rdr) ep.emm ↔
      (system = .viaccess → ∀ i < 4, rdr.hexserial (1 + i) = ep.emm 3) := by
  obtain ⟨f, found, is⟩ := uniqueFilter_is system rdr
  obtain ⟨other, same, asks⟩ := asked
  rw [found] at same
  cases same
  have passes : PassesUnique (system.getEmmFilter rdr) ep.emm ↔
      f.Accepts ep.emm := by
    constructor
    · rintro ⟨other, same, accepts⟩
      rw [found] at same
      cases same
      exact accepts
    · exact fun accepts => ⟨f, found, accepts⟩
  rw [passes]
  cases system with
  | viaccess =>
      have same := viaccess_unique unique accepted
      rw [viaccess_accepts_iff is asks same]
      exact (true_imp_iff).symm.trans (by simp)
  | seca =>
      refine iff_of_true (is.accepts_of_fields asks ?_) fun wrong => by
        cases wrong
      rw [CardSystem.uniqueFields, List.forall_mem_singleton,
        Memory.length_read]
      exact (seca_unique unique accepted).symm
  | irdeto =>
      obtain ⟨base, serial⟩ := irdeto_unique unique accepted
      refine iff_of_true (is.accepts_of_fields asks ?_) fun wrong => by
        cases wrong
      rw [CardSystem.uniqueFields, List.forall_mem_cons,
        List.forall_mem_singleton, Memory.length_read]
      refine ⟨?_, serial⟩
      show [ep.emm 3] = _
      rw [base]
  | cryptoworks =>
      have table : ep.emm 0 = 0x82 := by
        have all : (0xFF : UInt8) = -1 := rfl
        have asks := is.asks_iff.mp asks
        rwa [all, UInt8.and_neg_one, UInt8.and_neg_one] at asks
      obtain ⟨first, second, serial⟩ := cryptoworks_unique table accepted
      refine iff_of_true (is.accepts_of_fields asks ?_) fun wrong => by
        cases wrong
      rw [CardSystem.uniqueFields, List.forall_mem_cons, List.forall_mem_cons,
        List.forall_mem_singleton, Memory.length_read]
      refine ⟨?_, ?_, serial⟩
      · show [ep.emm 3] = _
        rw [first]
      · show [ep.emm 4] = _
        rw [second]

/-- A reader with no provider and some serial. -/
def serialReader (serial : List UInt8) : CardReader :=
  { Seca.emptyReader with hexserial := Memory.zero.write 0 serial }

/-- A section that is looked at for the first time. -/
def sectionEmm (bytes : List UInt8) : EmmPacket :=
  { emm := Memory.zero.write 0 bytes, l := bytes.length, type := .unknown
    hexserial := Memory.zero, provid := Memory.zero }

theorem uniqueFilter_passes_iff_seca :
    PassesUnique (secaGetEmmFilter (serialReader []))
        (sectionEmm [0x82, 0x70, 0x06]).emm ↔
      (CardSystem.seca = .viaccess →
        ∀ i < 4, (serialReader []).hexserial (1 + i) =
          (sectionEmm [0x82, 0x70, 0x06]).emm 3) := by
  have asked : AsksUnique (secaGetEmmFilter (serialReader []))
      (sectionEmm [0x82, 0x70, 0x06]).emm := by
    obtain ⟨f, found, is⟩ := unique_seca (serialReader [])
    exact ⟨f, found, is.asks_iff.mpr rfl⟩
  exact uniqueFilter_passes_iff .seca rfl rfl asked

/-- The filter has the serial at the bytes 3 to 6 of the section, which are
0, 1, 2 and 3 here. -/
theorem serial_not_passes :
    ¬ ∀ (system : CardSystem) (rdr : CardReader) (ep : EmmPacket),
      (system.getEmmType ep rdr).1.type = .unique →
      (system.getEmmType ep rdr).2 = true →
      AsksUnique (system.getEmmFilter rdr) ep.emm →
      PassesUnique (system.getEmmFilter rdr) ep.emm := by
  intro always
  obtain ⟨f, found, is⟩ := unique_viaccess (serialReader [0, 1, 2, 3, 4])
  have asks : f.Asks (sectionEmm [0x88, 0x70, 0x05, 0, 1, 2, 3, 4]).emm :=
    is.asks_iff.mpr rfl
  obtain ⟨other, same, accepts⟩ := always .viaccess
    (serialReader [0, 1, 2, 3, 4]) (sectionEmm [0x88, 0x70, 0x05, 0, 1, 2, 3, 4])
    rfl rfl ⟨f, found, asks⟩
  cases found.symm.trans same
  have equal := (viaccess_accepts_iff is asks rfl).mp accepts 0 (by decide)
  cases equal

end Oscam.EmmFilters
