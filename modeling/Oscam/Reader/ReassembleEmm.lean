import Oscam.Dvbapi.SortNanos
import Oscam.Lib.Reach

/-!
# EMMs in two parts

Viaccess and Cryptoworks send the nanos of a shared EMM in two sections.  The
first one is kept in a static buffer until the second one comes, and the nanos
of both are sorted into one EMM.
-/

namespace Oscam.EmmParts

open Dvbapi (nanos nanosEnd nanoLen tag dvbapiSortNanos Nanos IsNano)
open StableOrder (Stable)

/-! ## Sections -/

/-- The length field of a section. -/
def sectionLen (m : Memory) : Nat := (m 1).toNat % 16 * 256 + (m 2).toNat

/-- A section in the buffer that it was read to. -/
structure EmmPart where
  buffer : Memory
  len : Nat
  complete : sectionLen buffer + 3 = len

/-- The static variables `emm_global` and `emm_global_len`. -/
structure EmmGlobal where
  emmGlobal : Memory
  emmGlobalLen : Nat

/-- What a call hands on, and whether it read and wrote only inside of its
buffers. -/
structure Reassembled where
  state : EmmGlobal
  emm : Option (List UInt8)
  inside : Bool

/-- The size of `emm_global`, and of `emmbuf`. -/
abbrev workSize : Nat := 512

/-- The size of the buffer that sections are read to. -/
abbrev sectionSize : Nat := 1024

/-- The size of `EMM_PACKET.emm`. -/
abbrev emmSize : Nat := 258

/-! ## The code -/

/-- The first part is kept, when it is not there already. -/
def EmmGlobal.store (g : EmmGlobal) (part : EmmPart) : EmmGlobal :=
  if g.emmGlobal.read 0 part.len = part.buffer.read 0 part.len then g
  else
    { emmGlobal := g.emmGlobal.write 0 (part.buffer.read 0 part.len)
      emmGlobalLen := part.len }

/-- The loops of `viaccess_reassemble_emm` that copy nanos behind those that
are in `emmbuf` already. -/
def extractNanos (m : Memory) (stop i : Nat) (emmbuf : List UInt8) :
    List UInt8 :=
  if i < stop then
    extractNanos m stop (i + nanoLen m i) (emmbuf ++ m.read i (nanoLen m i))
  else emmbuf
  termination_by stop - i
  decreasing_by unfold nanoLen; omega

/-- The nanos of the second part behind those of the first one: `emmbuf`, and
up to where the second part is read. -/
def secondNanos (part : EmmPart) (emmbuf : List UInt8) : List UInt8 × Nat :=
  if part.buffer 2 = 0x2c then
    (emmbuf ++ ([0x9e, 0x20] ++ part.buffer.read 7 32) ++
      ([0xf0, 0x08] ++ part.buffer.read 39 8), 47)
  else
    (extractNanos part.buffer part.len 7 emmbuf,
      nanosEnd part.buffer part.len 7)

/-- The nanos of `emmbuf` sorted into the buffer of the second part. -/
def assembleViaccess (part : EmmPart) (emmbuf : List UInt8) : Memory :=
  (part.buffer.write 7
    (dvbapiSortNanos (Memory.zero.write 0 emmbuf) emmbuf.length)).write 2
      [UInt8.ofNat (emmbuf.length + 7 - 3)]

/-- `viaccess_reassemble_emm`. -/
def viaccessReassembleEmm (g : EmmGlobal) (part : EmmPart) : Reassembled :=
  if 500 < part.len then { state := g, emm := none, inside := true }
  else if part.buffer 0 = 0x8c ∨ part.buffer 0 = 0x8d then
    { state := g.store part, emm := none, inside := true }
  else if part.buffer 0 = 0x8e then
    if g.emmGlobalLen = 0 then { state := g, emm := none, inside := true }
    else
      let first := extractNanos g.emmGlobal g.emmGlobalLen 3 []
      let (emmbuf, read) := secondNanos part first
      { state := g
        emm := some ((assembleViaccess part emmbuf).read 0 (emmbuf.length + 7))
        inside :=
          nanosEnd g.emmGlobal g.emmGlobalLen 3 ≤ workSize ∧
            read ≤ sectionSize ∧ emmbuf.length ≤ workSize ∧
            nanosEnd (Memory.zero.write 0 emmbuf) emmbuf.length 0 ≤ workSize ∧
            7 + emmbuf.length ≤ sectionSize }
  else
    { state := g, emm := some (part.buffer.read 0 part.len), inside := true }

/-- `assembled_EMM` for the nanos in `tmp`. -/
def assembleCryptoworks (g : EmmGlobal) (tmp : Memory) (emmLen : Nat) :
    Memory :=
  (((Memory.zero.write 0 (g.emmGlobal.read 0 12)).write 12
    (dvbapiSortNanos tmp emmLen)).write 1
      [UInt8.ofNat ((emmLen + 9) / 256) ||| 0x70]).write 2
        [UInt8.ofNat (emmLen + 9)]

/-- `cryptoworks_reassemble_emm`.  Behind the assembly a byte is read from
memory that was freed, which is never inside; `freed` is what is found there.
There is no memory for a negative `emm_len`. -/
def cryptoworksReassembleEmm (freed : UInt8) (g : EmmGlobal)
    (part : EmmPart) : Reassembled :=
  if 500 < part.len then { state := g, emm := none, inside := true }
  else if part.buffer 0 = 0x84 then
    { state := g.store part, emm := none, inside := true }
  else if part.buffer 0 = 0x86 then
    if g.emmGlobalLen = 0 ∨ part.len + g.emmGlobalLen < 17 then
      { state := g, emm := none, inside := true }
    else
      let emmLen := part.len + g.emmGlobalLen - 17
      let tmp := (Memory.zero.write 0 (part.buffer.read 5 (part.len - 5))).write
        (part.len - 5) (g.emmGlobal.read 12 (g.emmGlobalLen - 12))
      { state := { g with emmGlobalLen := 0 }
        emm :=
          if freed.toNat = emmLen then
            some ((assembleCryptoworks g tmp emmLen).read 0 (emmLen + 12))
          else none
        inside := false }
  else
    { state := g, emm := some (part.buffer.read 0 part.len), inside := true }

/-! ## Runs -/

def EmmGlobal.unset : EmmGlobal := { emmGlobal := .zero, emmGlobalLen := 0 }

/-- The states after any sections of a Viaccess provider. -/
abbrev ViaccessReached : EmmGlobal → Prop :=
  StepSystem.Reach (fun g part => (viaccessReassembleEmm g part).state)
    (fun _ _ => True) (· = .unset)

/-- The states after any sections of a Cryptoworks provider, each with the byte
that was found in the freed memory. -/
abbrev CryptoworksReached : EmmGlobal → Prop :=
  StepSystem.Reach
    (fun g (event : UInt8 × EmmPart) =>
      (cryptoworksReassembleEmm event.1 g event.2).state)
    (fun _ _ => True) (· = .unset)

/-! ## What is expected -/

/-- An EMM with the given nanos behind its header, in a stable order, with the
right length, and short enough for the packet. -/
structure Assembled (header : Nat) (ns : List (List UInt8))
    (emm : List UInt8) : Prop where
  content : ∃ order, Stable tag order ns ∧ emm.drop header = order.flatten
  length : (emm.getD 1 0).toNat % 16 * 256 + (emm.getD 2 0).toNat + 3 =
    emm.length
  fits : emm.length ≤ emmSize

/-- The nanos from `off` on add up exactly to the length of the section. -/
def EmmPart.Whole (part : EmmPart) (off : Nat) : Prop :=
  nanosEnd part.buffer part.len off = part.len

/-- A first and a second part of at most 500 bytes, the second one in its
variable form. -/
structure ViaccessPair (first second : EmmPart) : Prop where
  firstId : first.buffer 0 = 0x8c ∨ first.buffer 0 = 0x8d
  secondId : second.buffer 0 = 0x8e
  notFixed : second.buffer 2 ≠ 0x2c
  firstShort : first.len ≤ 500
  secondShort : second.len ≤ 500

structure CryptoworksPair (first second : EmmPart) : Prop where
  firstId : first.buffer 0 = 0x84
  secondId : second.buffer 0 = 0x86
  firstShort : first.len ≤ 500
  secondShort : second.len ≤ 500

/-- What both calls have to do for two parts: the EMM that is handed on for
whole nanos, and no access outside of the buffers for others. -/
def ViaccessRight (g : EmmGlobal) (first second : EmmPart) : Prop :=
  let call := viaccessReassembleEmm (viaccessReassembleEmm g first).state second
  (first.Whole 3 ∧ second.Whole 7 → ∀ emm, call.emm = some emm →
    Assembled 7 (nanos first.buffer first.len 3 ++
      nanos second.buffer second.len 7) emm ∧ call.inside = true) ∧
  (¬ (first.Whole 3 ∧ second.Whole 7) → call.inside = true)

def CryptoworksRight (before freed : UInt8) (g : EmmGlobal)
    (first second : EmmPart) : Prop :=
  let call := cryptoworksReassembleEmm freed
    (cryptoworksReassembleEmm before g first).state second
  (first.Whole 12 ∧ second.Whole 5 → ∀ emm, call.emm = some emm →
    Assembled 12 (nanos second.buffer second.len 5 ++
      nanos first.buffer first.len 12) emm) ∧
  (¬ (first.Whole 12 ∧ second.Whole 5) → call.inside = true)

/-! ## Nanos in the buffers -/

variable {m other : Memory} {stop i off : Nat} {ns : List (List UInt8)}
  {emmbuf : List UInt8} {g : EmmGlobal} {first second part : EmmPart}
  {before freed : UInt8}

theorem extractNanos_eq (m : Memory) (stop i : Nat) (emmbuf : List UInt8) :
    extractNanos m stop i emmbuf = emmbuf ++ (nanos m stop i).flatten := by
  fun_induction extractNanos m stop i emmbuf with
  | case1 i emmbuf inside induction =>
      rw [induction, Dvbapi.nanos_of_lt m inside, List.flatten_cons,
        List.append_assoc]
  | case2 i emmbuf outside =>
      rw [Dvbapi.nanos_of_not_lt m outside]
      exact (List.append_nil emmbuf).symm

theorem le_nanosEnd (m : Memory) (stop i : Nat) : i ≤ nanosEnd m stop i := by
  rw [Dvbapi.nanosEnd_eq]
  exact Nat.le_add_right _ _

/-- The last nano begins before the end and has at most 257 bytes. -/
theorem nanosEnd_le (m : Memory) (stop i : Nat) :
    nanosEnd m stop i ≤ max i (stop + 256) := by
  fun_induction nanosEnd m stop i with
  | case1 i inside induction =>
      have length : nanoLen m i ≤ 257 := by
        have byte := UInt8.toNat_lt (m (i + 1))
        unfold nanoLen
        omega
      omega
  | case2 i outside => exact Nat.le_max_left i _

/-- Equal bytes have the same nanos. -/
theorem nanos_congr (same : ∀ j, i ≤ j → j < nanosEnd m stop i →
    other j = m j) : nanos other stop i = nanos m stop i := by
  fun_induction nanosEnd m stop i with
  | case1 i inside induction =>
      have bound := le_nanosEnd m stop (i + nanoLen m i)
      have two : 2 ≤ nanoLen m i := Nat.le_add_left 2 _
      have length : nanoLen other i = nanoLen m i := by
        unfold nanoLen
        rw [same (i + 1) (by omega) (by omega)]
      have bytes : other.read i (nanoLen m i) = m.read i (nanoLen m i) :=
        Memory.read_congr fun j low high => same j low (by omega)
      have behind := induction fun j low high => same j (by omega) high
      rw [Dvbapi.nanos_of_lt other inside, Dvbapi.nanos_of_lt m inside, length,
        bytes, behind]
  | case2 i outside =>
      rw [Dvbapi.nanos_of_not_lt other outside,
        Dvbapi.nanos_of_not_lt m outside]

/-- Whole nanos end where they end. -/
theorem nanosEnd_whole (stream : Nanos m off ns) :
    nanosEnd m (off + ns.flatten.length) off = off + ns.flatten.length := by
  induction ns generalizing off with
  | nil =>
      rw [nanosEnd, if_neg (by simp)]
      rfl
  | cons nano ns induction =>
      obtain ⟨_, long, _, behind⟩ := stream.head
      have two := stream.two_le
      have rest := induction behind
      rw [Nat.add_assoc] at rest
      rw [List.flatten_cons, List.length_append, nanosEnd,
        if_pos (by omega), long]
      exact rest

theorem nanos_written (whole : ∀ nano ∈ ns, IsNano nano) :
    Nanos (Memory.zero.write 0 ns.flatten) 0 ns where
  whole := whole
  bytes := Memory.read_write _ 0 _

/-! ## The first part -/

theorem sectionLen_congr (same : ∀ j < 3, other j = m j) :
    sectionLen other = sectionLen m := by
  unfold sectionLen
  rw [same 1 (by omega), same 2 (by omega)]

/-- What is kept is a section. -/
def EmmGlobal.Kept (g : EmmGlobal) : Prop :=
  g.emmGlobalLen ≠ 0 → sectionLen g.emmGlobal + 3 = g.emmGlobalLen

theorem read_store (g : EmmGlobal) (part : EmmPart) :
    (g.store part).emmGlobal.read 0 part.len =
      part.buffer.read 0 part.len := by
  unfold EmmGlobal.store
  split
  · next same => exact same
  · have written := Memory.read_write g.emmGlobal 0
      (part.buffer.read 0 part.len)
    rwa [Memory.length_read] at written

theorem store_apply (g : EmmGlobal) (part : EmmPart) {j : Nat}
    (inside : j < part.len) :
    (g.store part).emmGlobal j = part.buffer j := by
  have byte := Memory.apply_of_read (read_store g part) inside
  rwa [Nat.zero_add] at byte

/-- The section that is kept behind the first call is the first part, as far
as one is kept. -/
theorem len_store (kept : g.Kept) (part : EmmPart)
    (filled : (g.store part).emmGlobalLen ≠ 0) :
    (g.store part).emmGlobalLen = part.len := by
  have size := part.complete
  have bytes := fun j inside => store_apply (j := j) g part inside
  unfold EmmGlobal.store at filled bytes ⊢
  split at filled
  · next same =>
      rw [if_pos same] at bytes ⊢
      rw [← kept filled, sectionLen_congr (fun j low => bytes j (by omega)),
        size]
  · next different => rw [if_neg different]

theorem kept_store (kept : g.Kept) (part : EmmPart) :
    (g.store part).Kept := by
  intro filled
  have size := part.complete
  rw [len_store kept part filled, ← size,
    sectionLen_congr fun j low => store_apply g part (by omega)]

/-- At first there is nothing, and its first byte is zero. -/
def EmmGlobal.KeptViaccess (g : EmmGlobal) : Prop :=
  g.Kept ∧ (g.emmGlobalLen = 0 → g.emmGlobal 0 = 0)

theorem keptViaccess_store (kept : g.KeptViaccess) (part : EmmPart)
    (id : part.buffer 0 ≠ 0) :
    (g.store part).KeptViaccess ∧ (g.store part).emmGlobalLen = part.len := by
  have size := part.complete
  have filled : (g.store part).emmGlobalLen ≠ 0 := by
    have byte := store_apply g part (j := 0) (by omega)
    unfold EmmGlobal.store at byte ⊢
    split at byte
    · next same =>
        rw [if_pos same]
        intro empty
        exact id (byte ▸ kept.2 empty)
    · next different =>
        rw [if_neg different]
        show part.len ≠ 0
        omega
  exact ⟨⟨kept_store kept.1 part, fun empty => absurd empty filled⟩,
    len_store kept.1 part filled⟩

theorem ViaccessReached.kept (reached : ViaccessReached g) :
    g.KeptViaccess := by
  apply reached.invariant
  · rintro _ rfl
    exact ⟨fun filled => absurd rfl filled, fun _ => rfl⟩
  · intro g part kept _
    show (viaccessReassembleEmm g part).state.KeptViaccess
    unfold viaccessReassembleEmm
    split
    · exact kept
    split
    · next _ id =>
        refine (keptViaccess_store kept part ?_).1
        rcases id with id | id
        · rw [id]
          decide
        · rw [id]
          decide
    split
    · split
      · exact kept
      · exact kept
    · exact kept

theorem CryptoworksReached.kept (reached : CryptoworksReached g) :
    g.Kept := by
  apply reached.invariant
  · rintro _ rfl
    exact fun filled => absurd rfl filled
  · rintro g ⟨freed, part⟩ kept _
    show (cryptoworksReassembleEmm freed g part).state.Kept
    unfold cryptoworksReassembleEmm
    split
    · exact kept
    split
    · exact kept_store kept part
    split
    · split
      · exact kept
      · exact fun filled => absurd rfl filled
    · exact kept

end Oscam.EmmParts
