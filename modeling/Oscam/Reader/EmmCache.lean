import Oscam.Lib.RingBuffer
import Oscam.Stat.Records

/-!
# The EMM cache of a reader

`reader_do_emm` keeps the digests of the last EMMs in a ring and counts how
often each of them came.  The digest is that of the first `emm[2]` bytes,
while an EMM has three bytes more.
-/

namespace Oscam.EmmCache

/-- An EMM: its third byte is the number of bytes behind it. -/
structure Emm where
  bytes : List UInt8
  length_eq : bytes.length = (bytes.getD 2 0).toNat + 3
  deriving DecidableEq

/-- The bytes that `MD5(ep->emm, ep->emm[2], md5tmp)` reads. -/
def Emm.hashed (emm : Emm) : List UInt8 :=
  emm.bytes.take (emm.bytes.getD 2 0).toNat

/-- `EMM_PACKET`. -/
structure EmmPacket where
  emm : Emm
  type : UInt8
  deriving DecidableEq

/-- `struct s_emm`. -/
structure EmmCell (δ : Type) where
  emmd5 : δ
  type : UInt8
  count : Int
  deriving DecidableEq

/-- `CS_EMMCACHESIZE`. -/
abbrev csEmmcachesize : Nat := 64

/-- `cl->emmcache`, with `cl->rotate` behind the place written last. -/
abbrev Cells (δ : Type) := RingBuffer (EmmCell δ) csEmmcachesize

/-- The settings of `emmcache` of a reader. -/
structure EmmReader where
  cachemm : Bool
  rewritemm : Int
  deriving DecidableEq, Repr

section

variable {δ : Type} [DecidableEq δ] (md5 : List UInt8 → δ)

/-- `reader_store_emm`. -/
def readerStoreEmm (cells : Cells δ) (ep : EmmPacket) : Cells δ :=
  cells.push { emmd5 := md5 ep.emm.hashed, type := ep.type, count := 1 }

/-- The search of `reader_do_emm`: the first cell with the digest of the EMM,
and its place. -/
def findEmm (cells : Cells δ) (emm : Emm) : Option (EmmCell δ × Nat) :=
  cells.cells.zipIdx.find? fun entry => entry.1.emmd5 == md5 emm.hashed

/-- What `reader_do_emm` returns and leaves.  `ecs` is 0 for an EMM that was
not found, 1 for one that is passed on again and 2 for one that is skipped. -/
structure DoneEmm (δ : Type) where
  rc : Int
  ecs : Nat
  cells : Cells δ

/-- `ecs` for an EMM whose digest was found in a cell. -/
def ecsOf (rdr : EmmReader) (cell : EmmCell δ) : Nat :=
  if rdr.cachemm then if rdr.rewritemm > cell.count then 1 else 2 else 1

/-- `reader_do_emm`.  `passed` is what `reader_emm` or `c_send_emm` returns
when the EMM is passed on. -/
def readerDoEmm (rdr : EmmReader) (cells : Cells δ) (ep : EmmPacket)
    (passed : Int) : DoneEmm δ :=
  match findEmm md5 cells ep.emm with
  | none => { rc := passed, ecs := 0, cells := readerStoreEmm md5 cells ep }
  | some (cell, i) =>
      { rc := if ecsOf rdr cell < 2 then passed else 2
        ecs := ecsOf rdr cell
        cells := cells.modify i fun cell =>
          { cell with count := Stat.int32 (cell.count + 1) } }

/-! ## Runs -/

/-- A call of `reader_do_emm`, with what passing the EMM on would return. -/
structure EmmCall where
  ep : EmmPacket
  passed : Int
  deriving DecidableEq

/-- A reader after some calls, with all EMMs that were stored since its start,
the last one at the end. -/
structure EmmRun (δ : Type) where
  cells : Cells δ
  stored : List Emm

/-- `cs_malloc` leaves zeros in all cells. -/
def startEmm (zero : δ) : EmmRun δ :=
  { cells :=
      RingBuffer.untouched csEmmcachesize
        { emmd5 := zero, type := 0, count := 0 } (by decide)
    stored := [] }

/-- What a call does with its EMM. -/
def EmmRun.ecs (rdr : EmmReader) (s : EmmRun δ) (call : EmmCall) : Nat :=
  (readerDoEmm md5 rdr s.cells call.ep call.passed).ecs

def EmmRun.step (rdr : EmmReader) (s : EmmRun δ) (call : EmmCall) :
    EmmRun δ :=
  { cells := (readerDoEmm md5 rdr s.cells call.ep call.passed).cells
    stored :=
      if s.ecs md5 rdr call = 0 then s.stored ++ [call.ep.emm] else s.stored }

def emmRun (rdr : EmmReader) (zero : δ) (calls : List EmmCall) : EmmRun δ :=
  calls.foldl (EmmRun.step md5 rdr) (startEmm zero)

omit [DecidableEq δ] in
/-- The EMM that each cell was written for, if it was written. -/
def EmmRun.held (s : EmmRun δ) : RingBuffer (Option Emm) csEmmcachesize :=
  (s.stored.map some).foldl RingBuffer.push
    (RingBuffer.untouched csEmmcachesize none (by decide))

/-- The digest in a cell. -/
def digestOf (zero : δ) : Option Emm → δ
  | none => zero
  | some emm => md5 emm.hashed

/-! ## One call -/

variable {md5} {rdr : EmmReader} {zero : δ} {s : EmmRun δ} {call : EmmCall}

theorem findEmm_none {cells : Cells δ} {emm : Emm}
    (none : findEmm md5 cells emm = none) (i : Nat) :
    (cells.map EmmCell.emmd5).cells[i]? ≠ some (md5 emm.hashed) := by
  intro found
  rw [RingBuffer.map, List.getElem?_map, Option.map_eq_some_iff] at found
  obtain ⟨cell, here, digest⟩ := found
  have member : (cell, i) ∈ cells.cells.zipIdx :=
    List.mem_zipIdx_iff_getElem?.mpr here
  have different := List.find?_eq_none.mp none (cell, i) member
  exact different (beq_iff_eq.mpr digest)

theorem findEmm_some {cells : Cells δ} {emm : Emm} {cell : EmmCell δ}
    {i : Nat} (found : findEmm md5 cells emm = some (cell, i)) :
    cells.cells[i]? = some cell ∧
      (cells.map EmmCell.emmd5).cells[i]? = some (md5 emm.hashed) := by
  have here : cells.cells[i]? = some cell :=
    List.mem_zipIdx_iff_getElem?.mp (List.mem_of_find?_eq_some found)
  have digest : cell.emmd5 = md5 emm.hashed := by
    simpa using List.find?_some found
  refine ⟨here, ?_⟩
  rw [RingBuffer.map, List.getElem?_map, here, ← digest]
  rfl

omit [DecidableEq δ] in
theorem ecsOf_pos (cell : EmmCell δ) : ecsOf rdr cell ≠ 0 := by
  unfold ecsOf
  split
  · split <;> decide
  · decide

/-- An EMM that is not found is stored, and one that is found only changes a
count. -/
theorem step_cases (md5 : List UInt8 → δ) (rdr : EmmReader) (s : EmmRun δ)
    (call : EmmCall) :
    (findEmm md5 s.cells call.ep.emm = none ∧ s.ecs md5 rdr call = 0 ∧
      s.step md5 rdr call =
        { cells := readerStoreEmm md5 s.cells call.ep
          stored := s.stored ++ [call.ep.emm] }) ∨
    ∃ cell i, findEmm md5 s.cells call.ep.emm = some (cell, i) ∧
      s.ecs md5 rdr call = ecsOf rdr cell ∧
      s.step md5 rdr call =
        { s with
          cells := s.cells.modify i fun cell =>
            { cell with count := Stat.int32 (cell.count + 1) } } := by
  unfold EmmRun.step EmmRun.ecs readerDoEmm
  cases found : findEmm md5 s.cells call.ep.emm with
  | none => exact Or.inl ⟨rfl, rfl, rfl⟩
  | some entry =>
      obtain ⟨cell, i⟩ := entry
      refine Or.inr ⟨cell, i, rfl, rfl, ?_⟩
      simp only [ecsOf_pos, if_false]

/-! ## What the cells hold -/

omit [DecidableEq δ] in
theorem held_append (cells cells' : Cells δ) (stored : List Emm) (emm : Emm) :
    EmmRun.held { cells := cells', stored := stored ++ [emm] } =
      (EmmRun.held { cells := cells, stored := stored }).push (some emm) := by
  simp only [EmmRun.held, List.map_append, List.map_cons, List.map_nil,
    List.foldl_append, List.foldl_cons, List.foldl_nil]

theorem eq_of_getElem?_set {α : Type} {cells : List α} {i : Nat}
    {value found : α} (here : (cells.set i value)[i]? = some found) :
    found = value := by
  rw [List.getElem?_set_self'] at here
  obtain ⟨_, _, same⟩ := Option.map_eq_some_iff.mp here
  exact same.symm

omit [DecidableEq δ] in
/-- What a cell holds was stored. -/
theorem stored_of_held {i : Nat} {emm : Emm}
    (found : s.held.cells[i]? = some (some emm)) : emm ∈ s.stored := by
  obtain ⟨cells, stored⟩ := s
  induction stored using List.reverseRecOn generalizing i with
  | nil =>
      have untouched := List.mem_of_getElem? found
      simp [EmmRun.held, RingBuffer.untouched] at untouched
  | append_singleton stored last induction =>
      rw [held_append cells, RingBuffer.cells_push] at found
      rcases List.mem_or_eq_of_mem_set (List.mem_of_getElem? found) with
        older | new
      · obtain ⟨j, here⟩ := List.mem_iff_getElem?.mp older
        exact List.mem_append_left _ (induction here)
      · cases new
        exact List.mem_append_right _ (List.mem_singleton_self _)

/-- The digests are those of the EMMs that the cells were written for, and no
other cell has the digest of a cell that was written. -/
structure Tracks (md5 : List UInt8 → δ) (zero : δ) (s : EmmRun δ) : Prop where
  digests : s.cells.map EmmCell.emmd5 = s.held.map (digestOf md5 zero)
  distinct : ∀ (i j : Nat) (emm : Emm), s.held.cells[i]? = some (some emm) →
    (s.cells.map EmmCell.emmd5).cells[j]? = some (md5 emm.hashed) → j = i

namespace Tracks

omit [DecidableEq δ] in
theorem start : Tracks md5 zero (startEmm zero) := by
  constructor
  · simp [startEmm, EmmRun.held, RingBuffer.map_untouched, digestOf]
  · intro i j emm found
    have stored := stored_of_held found
    simp [startEmm] at stored

omit [DecidableEq δ] in
theorem digest_of_held (tracks : Tracks md5 zero s) {i : Nat}
    {entry : Option Emm} (found : s.held.cells[i]? = some entry) :
    (s.cells.map EmmCell.emmd5).cells[i]? = some (digestOf md5 zero entry) := by
  rw [tracks.digests, RingBuffer.map, List.getElem?_map, found]
  rfl

omit [DecidableEq δ] in
theorem held_of_digest (tracks : Tracks md5 zero s) {i : Nat} {digest : δ}
    (found : (s.cells.map EmmCell.emmd5).cells[i]? = some digest) :
    ∃ entry, s.held.cells[i]? = some entry ∧
      digestOf md5 zero entry = digest := by
  rwa [tracks.digests, RingBuffer.map, List.getElem?_map,
    Option.map_eq_some_iff] at found

theorem store (tracks : Tracks md5 zero s)
    (new : findEmm md5 s.cells call.ep.emm = none) :
    Tracks md5 zero
      { cells := readerStoreEmm md5 s.cells call.ep
        stored := s.stored ++ [call.ep.emm] } := by
  have held := held_append s.cells (readerStoreEmm md5 s.cells call.ep)
    s.stored call.ep.emm
  have digests : (readerStoreEmm md5 s.cells call.ep).map EmmCell.emmd5 =
      (s.cells.map EmmCell.emmd5).push (md5 call.ep.emm.hashed) :=
    RingBuffer.map_push _ _ _
  have absent := findEmm_none new
  constructor
  · rw [held, digests, tracks.digests, RingBuffer.map_push]
    rfl
  · intro i j emm
    rw [held, digests, RingBuffer.cells_push, RingBuffer.cells_push]
    have place : ((s.cells.map EmmCell.emmd5).push
        (md5 call.ep.emm.hashed)).place =
          (s.held.push (some call.ep.emm)).place := by
      rw [tracks.digests]
      rfl
    rw [place]
    generalize (s.held.push (some call.ep.emm)).place = next
    intro found same
    by_cases first : next = i
    · by_cases second : next = j
      · exact second.symm.trans first
      · rw [← first] at found
        cases eq_of_getElem?_set found
        rw [List.getElem?_set_ne second] at same
        exact absurd same (absent j)
    · rw [List.getElem?_set_ne first] at found
      by_cases second : next = j
      · rw [← second] at same
        have old := tracks.digest_of_held found
        rw [digestOf, eq_of_getElem?_set same] at old
        exact absurd old (absent i)
      · rw [List.getElem?_set_ne second] at same
        exact tracks.distinct i j emm found same

omit [DecidableEq δ] in
theorem count (tracks : Tracks md5 zero s) (i : Nat) :
    Tracks md5 zero
      { s with
        cells := s.cells.modify i fun cell =>
          { cell with count := Stat.int32 (cell.count + 1) } } := by
  have digests : (s.cells.modify i fun cell =>
      { cell with count := Stat.int32 (cell.count + 1) }).map EmmCell.emmd5 =
        s.cells.map EmmCell.emmd5 :=
    RingBuffer.map_modify _ _ fun _ => rfl
  constructor
  · rw [digests]
    exact tracks.digests
  · rw [digests]
    exact tracks.distinct

theorem step (tracks : Tracks md5 zero s) (rdr : EmmReader)
    (call : EmmCall) : Tracks md5 zero (s.step md5 rdr call) := by
  rcases step_cases md5 rdr s call with ⟨new, _, stored⟩ | ⟨_, i, _, _, found⟩
  · rw [stored]
    exact tracks.store new
  · rw [found]
    exact tracks.count i

theorem run (md5 : List UInt8 → δ) (rdr : EmmReader) (zero : δ)
    (calls : List EmmCall) : Tracks md5 zero (emmRun md5 rdr zero calls) := by
  induction calls using List.reverseRecOn with
  | nil => exact start
  | append_singleton calls call induction =>
      rw [emmRun, List.foldl_append]
      exact induction.step rdr call

end Tracks

/-! ## Mistaken EMMs -/

/-- A call skips only what was stored, and takes its EMM for no other one. -/
def NeverMistaken (md5 : List UInt8 → δ) (rdr : EmmReader) (s : EmmRun δ)
    (call : EmmCall) : Prop :=
  (s.ecs md5 rdr call = 2 → call.ep.emm ∈ s.stored) ∧
    ∀ cell i, findEmm md5 s.cells call.ep.emm = some (cell, i) →
      s.held.cells[i]? = some (some call.ep.emm)

/-- No cell holds another EMM with the same first `emm[2]` bytes, and the
digest is not that of a cell that was never written. -/
def NoLookalike (md5 : List UInt8 → δ) (zero : δ) (s : EmmRun δ)
    (call : EmmCall) : Prop :=
  (∀ emm, some emm ∈ s.held.cells → emm.hashed = call.ep.emm.hashed →
    emm = call.ep.emm) ∧
  (none ∈ s.held.cells → md5 call.ep.emm.hashed ≠ zero)

theorem neverMistaken_iff (injective : Function.Injective md5)
    (tracks : Tracks md5 zero s) :
    NeverMistaken md5 rdr s call ↔ NoLookalike md5 zero s call := by
  constructor
  · intro never
    -- a digest like this one is in the cell that holds the EMM itself
    have only : ∀ j : Nat, (s.cells.map EmmCell.emmd5).cells[j]? =
        some (md5 call.ep.emm.hashed) →
          s.held.cells[j]? = some (some call.ep.emm) := by
      intro j same
      cases found : findEmm md5 s.cells call.ep.emm with
      | none => exact absurd same (findEmm_none found j)
      | some entry =>
          obtain ⟨cell, i⟩ := entry
          have held := never.2 cell i found
          rw [tracks.distinct i j call.ep.emm held same]
          exact held
    constructor
    · intro emm member alike
      obtain ⟨j, here⟩ := List.mem_iff_getElem?.mp member
      have same := tracks.digest_of_held here
      rw [digestOf, alike] at same
      have held := only j same
      rw [here] at held
      exact Option.some.inj (Option.some.inj held)
    · intro member digest
      obtain ⟨j, here⟩ := List.mem_iff_getElem?.mp member
      have same := tracks.digest_of_held here
      rw [digestOf, ← digest] at same
      have held := only j same
      rw [here] at held
      cases Option.some.inj held
  · intro alone
    have held : ∀ cell i, findEmm md5 s.cells call.ep.emm = some (cell, i) →
        s.held.cells[i]? = some (some call.ep.emm) := by
      intro cell i found
      obtain ⟨entry, here, digest⟩ :=
        tracks.held_of_digest (findEmm_some found).2
      have member := List.mem_of_getElem? here
      cases entry with
      | none => exact absurd digest.symm (alone.2 member)
      | some emm => rw [here, alone.1 emm member (injective digest)]
    refine ⟨fun skipped => ?_, held⟩
    rcases step_cases md5 rdr s call with ⟨_, new, _⟩ | ⟨cell, i, found, _⟩
    · rw [new] at skipped
      cases skipped
    · exact stored_of_held (held cell i found)

/-- In every run no EMM is mistaken for another one, exactly when none comes
while another one with the same first `emm[2]` bytes is in the cache. -/
theorem emms_never_mistaken_iff (injective : Function.Injective md5)
    (rdr : EmmReader) (zero : δ) (calls : List EmmCall) :
    (∀ earlier call, earlier ++ [call] <+: calls →
      NeverMistaken md5 rdr (emmRun md5 rdr zero earlier) call) ↔
    ∀ earlier call, earlier ++ [call] <+: calls →
      NoLookalike md5 zero (emmRun md5 rdr zero earlier) call := by
  apply forall_congr'
  intro earlier
  apply forall_congr'
  intro call
  exact imp_congr_right fun _ =>
    neverMistaken_iff injective (Tracks.run md5 rdr zero earlier)

end

/-! Two EMMs that differ in their last byte, with a digest that is the hashed
text itself. -/

def someEmm (last : UInt8) : EmmCall :=
  { ep :=
      { emm := { bytes := [0x82, 0x70, 3, 1, 2, last], length_eq := rfl }
        type := 1 }
    passed := 1 }

def writeOnce : EmmReader := { cachemm := true, rewritemm := 1 }

theorem emms_never_mistaken_repeat :
    (∀ earlier call, earlier ++ [call] <+: [someEmm 3, someEmm 3] →
      NeverMistaken id writeOnce (emmRun id writeOnce [] earlier) call) ↔
    ∀ earlier call, earlier ++ [call] <+: [someEmm 3, someEmm 3] →
      NoLookalike id [] (emmRun id writeOnce [] earlier) call :=
  emms_never_mistaken_iff Function.injective_id writeOnce []
    [someEmm 3, someEmm 3]

/-- The second EMM is skipped, and it was never stored. -/
theorem lookalike_skipped :
    ¬∀ (md5 : List UInt8 → List UInt8) (rdr : EmmReader) (zero : List UInt8)
      (earlier : List EmmCall) (call : EmmCall), Function.Injective md5 →
        rdr.cachemm = true →
          (emmRun md5 rdr zero earlier).ecs md5 rdr call = 2 →
            call.ep.emm ∈ (emmRun md5 rdr zero earlier).stored := by
  intro stored
  have second := stored id writeOnce [] [someEmm 3] (someEmm 4)
    Function.injective_id rfl (by decide)
  exact absurd second (by decide)

end Oscam.EmmCache
