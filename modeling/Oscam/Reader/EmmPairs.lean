import Oscam.Reader.ReassembleEmm

/-!
# Pairs of EMM sections

When a first and a second section give the EMM that is expected of them.
-/

namespace Oscam.EmmParts

open Dvbapi (nanos nanosEnd nanoLen tag dvbapiSortNanos Nanos IsNano sorted)
open StableOrder (Stable)

variable {m : Memory} {off header : Nat} {ns : List (List UInt8)}
  {g : EmmGlobal} {first second : EmmPart} {before freed : UInt8}

/-! ## EMMs -/

theorem read_drop (m : Memory) (header n : Nat) :
    (m.read 0 (n + header)).drop header = m.read header n := by
  rw [Nat.add_comm, Memory.read_add, Nat.zero_add]
  exact List.drop_left' (Memory.length_read m 0 header)

/-- An EMM in the memory, with its nanos behind the header. -/
theorem assembled_read
    (content : m.read header ns.flatten.length = (sorted ns).flatten)
    (field : sectionLen m + 3 = ns.flatten.length + header)
    (short : ns.flatten.length + header ≤ emmSize) :
    Assembled header ns (m.read 0 (ns.flatten.length + header)) where
  content :=
    ⟨sorted ns, Dvbapi.sorted_stable ns, (read_drop m header _).trans content⟩
  length := by
    rw [Memory.getD_read m 0 (by omega), Memory.getD_read m 0 (by omega),
      Memory.length_read, ← field]
    rfl
  fits := by
    rw [Memory.length_read]
    exact short

/-! ## Viaccess -/

/-- The nanos that are found in both parts. -/
def viaccessNanos (g : EmmGlobal) (first second : EmmPart) :
    List (List UInt8) :=
  nanos (g.store first).emmGlobal first.len 3 ++
    nanos second.buffer second.len 7

theorem whole_viaccessNanos (g : EmmGlobal) (first second : EmmPart) :
    ∀ nano ∈ viaccessNanos g first second, IsNano nano := by
  intro nano member
  rcases List.mem_append.mp member with front | behind
  · exact (Dvbapi.nanos_whole _ _ _).whole nano front
  · exact (Dvbapi.nanos_whole _ _ _).whole nano behind

theorem length_viaccessNanos (g : EmmGlobal) (first second : EmmPart) :
    (viaccessNanos g first second).flatten.length + 10 =
      nanosEnd (g.store first).emmGlobal first.len 3 +
        nanosEnd second.buffer second.len 7 := by
  rw [Dvbapi.nanosEnd_eq, Dvbapi.nanosEnd_eq, viaccessNanos,
    List.flatten_append, List.length_append]
  omega

/-- What the second call gives. -/
theorem viaccess_second (kept : g.KeptViaccess)
    (pair : ViaccessPair first second) :
    let emmbuf := (viaccessNanos g first second).flatten
    let call :=
      viaccessReassembleEmm (viaccessReassembleEmm g first).state second
    call.emm = some ((assembleViaccess second emmbuf).read 0
      (emmbuf.length + 7)) ∧
    (call.inside = true ↔
      nanosEnd (g.store first).emmGlobal first.len 3 ≤ workSize ∧
        emmbuf.length ≤ workSize) := by
  have size := first.complete
  have id : first.buffer 0 ≠ 0 := by
    rcases pair.firstId with id | id
    · rw [id]
      decide
    · rw [id]
      decide
  have stored : (viaccessReassembleEmm g first).state = g.store first := by
    unfold viaccessReassembleEmm
    rw [if_neg (Nat.not_lt_of_le pair.firstShort), if_pos pair.firstId]
  have len := (keptViaccess_store kept first id).2
  have other : ¬ (second.buffer 0 = 0x8c ∨ second.buffer 0 = 0x8d) := by
    rw [pair.secondId]
    decide
  have filled : (g.store first).emmGlobalLen ≠ 0 := by omega
  have emmbuf : secondNanos second
      (extractNanos (g.store first).emmGlobal first.len 3 []) =
        ((viaccessNanos g first second).flatten,
          nanosEnd second.buffer second.len 7) := by
    unfold secondNanos viaccessNanos
    rw [if_neg pair.notFixed, extractNanos_eq, extractNanos_eq,
      List.flatten_append]
    rfl
  have sort : nanosEnd
      (Memory.zero.write 0 (viaccessNanos g first second).flatten)
      (viaccessNanos g first second).flatten.length 0 =
        (viaccessNanos g first second).flatten.length := by
    have whole := nanosEnd_whole
      (nanos_written (whole_viaccessNanos g first second))
    rwa [Nat.zero_add] at whole
  have bound := nanosEnd_le second.buffer second.len 7
  have short := pair.secondShort
  intro found call
  have result : call = viaccessReassembleEmm (g.store first) second := by
    rw [← stored]
  rw [result]
  unfold viaccessReassembleEmm
  rw [if_neg (Nat.not_lt_of_le short), if_neg other, if_pos pair.secondId,
    if_neg filled]
  simp only [len, emmbuf, sort, decide_eq_true_eq]
  refine ⟨rfl, ?_⟩
  constructor
  · rintro ⟨inFirst, _, fits, _⟩
    exact ⟨inFirst, fits⟩
  · rintro ⟨inFirst, fits⟩
    have limit : found.length ≤ 512 := fits
    refine ⟨inFirst, ?_, fits, fits, ?_⟩
    · show _ ≤ (1024 : Nat)
      omega
    · show 7 + found.length ≤ (1024 : Nat)
      omega

/-- Whole parts give a whole EMM, when it is short enough. -/
theorem assembled_viaccess (second : EmmPart)
    (whole : ∀ nano ∈ ns, IsNano nano)
    (short : ns.flatten.length + 7 ≤ emmSize) (fits : second.len ≤ emmSize) :
    Assembled 7 ns ((assembleViaccess second ns.flatten).read 0
      (ns.flatten.length + 7)) := by
  have size := second.complete
  have limit : ns.flatten.length + 7 ≤ 258 := short
  have sort := Dvbapi.dvbapiSortNanos_eq (nanos_written whole)
  have nibble : (second.buffer 1).toNat % 16 = 0 := by
    have bound : second.len ≤ 258 := fits
    unfold sectionLen at size
    omega
  refine assembled_read ?_ ?_ short
  · unfold assembleViaccess
    rw [sort]
    have written := Memory.read_write second.buffer 7 (sorted ns).flatten
    rw [Dvbapi.length_sorted] at written
    refine (Memory.read_congr fun i low _ => ?_).trans written
    exact Memory.write_of_le (Nat.le_trans (by simp) low)
  · have high : assembleViaccess second ns.flatten 1 = second.buffer 1 := by
      unfold assembleViaccess
      rw [Memory.write_of_lt (by omega), Memory.write_of_lt (by omega)]
    have low : assembleViaccess second ns.flatten 2 =
        UInt8.ofNat (ns.flatten.length + 7 - 3) := Memory.write_head _ _ _ _
    unfold sectionLen
    rw [high, low, nibble, UInt8.toNat_ofNat']
    omega

/-- For whole parts the EMM has to fit into the packet, and for others the
nanos have to fit into the buffers. -/
def ViaccessFits (g : EmmGlobal) (first second : EmmPart) : Prop :=
  (first.Whole 3 ∧ second.Whole 7 → first.len + second.len ≤ emmSize + 3) ∧
  (¬ (first.Whole 3 ∧ second.Whole 7) →
    nanosEnd (g.store first).emmGlobal first.len 3 ≤ workSize ∧
    nanosEnd (g.store first).emmGlobal first.len 3 +
      nanosEnd second.buffer second.len 7 ≤ workSize + 10)

/-- Whole nanos of the first part are found where it is kept. -/
theorem nanos_store (g : EmmGlobal) (whole : first.Whole off) :
    nanos (g.store first).emmGlobal first.len off =
      nanos first.buffer first.len off := by
  refine nanos_congr fun j _ below => store_apply g first ?_
  rwa [whole] at below

theorem viaccessRight_iff (kept : g.KeptViaccess)
    (pair : ViaccessPair first second) :
    ViaccessRight g first second ↔ ViaccessFits g first second := by
  obtain ⟨emm, inside⟩ := viaccess_second kept pair
  have length := length_viaccessNanos g first second
  unfold ViaccessRight ViaccessFits
  simp only [emm, inside, Option.some.injEq, forall_eq']
  have size := first.complete
  refine and_congr (forall_congr' fun whole => ?_)
    (forall_congr' fun _ => and_congr_right fun _ => ?_)
  · -- the nanos are those of the sections, and all their bytes count
    have same := nanos_store g whole.1
    have ends : nanosEnd (g.store first).emmGlobal first.len 3 =
        first.len := by
      rw [Dvbapi.nanosEnd_eq, same, ← Dvbapi.nanosEnd_eq, whole.1]
    have back : nanosEnd second.buffer second.len 7 = second.len := whole.2
    rw [ends, back] at length
    rw [ends]
    constructor
    · rintro ⟨right, _⟩
      have fits := right.fits
      rw [Memory.length_read] at fits
      omega
    · intro short
      have limit : first.len + second.len ≤ 261 := short
      have inSecond := le_nanosEnd second.buffer second.len 7
      have right := assembled_viaccess second
        (whole_viaccessNanos g first second)
        (show _ ≤ (258 : Nat) by omega) (show _ ≤ (258 : Nat) by omega)
      refine ⟨?_, show _ ≤ (512 : Nat) by omega, show _ ≤ (512 : Nat) by omega⟩
      rw [viaccessNanos, same] at right ⊢
      exact right
  · rw [← length]
    omega

/-! ## Cryptoworks -/

/-- What the second call gives when a first part is kept and there is memory
for both. -/
theorem cryptoworks_second (kept : g.Kept) (before freed : UInt8)
    (pair : CryptoworksPair first second)
    (filled : (g.store first).emmGlobalLen ≠ 0)
    (enough : 17 ≤ second.len + first.len) :
    let tmp := (Memory.zero.write 0
      (second.buffer.read 5 (second.len - 5))).write (second.len - 5)
        ((g.store first).emmGlobal.read 12 (first.len - 12))
    let emmLen := second.len + first.len - 17
    let call := cryptoworksReassembleEmm freed
      (cryptoworksReassembleEmm before g first).state second
    call.emm = (if freed.toNat = emmLen then
      some ((assembleCryptoworks (g.store first) tmp emmLen).read 0
        (emmLen + 12))
      else none) ∧ call.inside = false := by
  have stored : (cryptoworksReassembleEmm before g first).state =
      g.store first := by
    unfold cryptoworksReassembleEmm
    rw [if_neg (Nat.not_lt_of_le pair.firstShort), if_pos pair.firstId]
  have len := len_store kept first filled
  have other : second.buffer 0 ≠ 0x84 := by
    rw [pair.secondId]
    decide
  have goes : ¬ ((g.store first).emmGlobalLen = 0 ∨
      second.len + (g.store first).emmGlobalLen < 17) := by omega
  intro tmp emmLen call
  have result : call =
      cryptoworksReassembleEmm freed (g.store first) second := by
    rw [← stored]
  rw [result]
  unfold cryptoworksReassembleEmm
  rw [if_neg (Nat.not_lt_of_le pair.secondShort), if_neg other,
    if_pos pair.secondId, if_neg goes]
  simp only [len]
  exact ⟨rfl, trivial⟩

/-- Otherwise nothing is done. -/
theorem cryptoworks_nothing (kept : g.Kept) (before freed : UInt8)
    (pair : CryptoworksPair first second)
    (short : (g.store first).emmGlobalLen = 0 ∨
      second.len + first.len < 17) :
    let call := cryptoworksReassembleEmm freed
      (cryptoworksReassembleEmm before g first).state second
    call.emm = none ∧ call.inside = true := by
  have stored : (cryptoworksReassembleEmm before g first).state =
      g.store first := by
    unfold cryptoworksReassembleEmm
    rw [if_neg (Nat.not_lt_of_le pair.firstShort), if_pos pair.firstId]
  have other : second.buffer 0 ≠ 0x84 := by
    rw [pair.secondId]
    decide
  have stops : (g.store first).emmGlobalLen = 0 ∨
      second.len + (g.store first).emmGlobalLen < 17 := by
    by_cases empty : (g.store first).emmGlobalLen = 0
    · exact .inl empty
    · rw [len_store kept first empty]
      omega
  intro call
  have result : call =
      cryptoworksReassembleEmm freed (g.store first) second := by
    rw [← stored]
  rw [result]
  unfold cryptoworksReassembleEmm
  rw [if_neg (Nat.not_lt_of_le pair.secondShort), if_neg other,
    if_pos pair.secondId, if_pos stops]
  exact ⟨rfl, rfl⟩

theorem nibble_or (n : Nat) (small : n < 16) :
    (UInt8.ofNat n ||| 0x70).toNat % 16 = n := by
  have all : ∀ n : Fin 16, (UInt8.ofNat n ||| 0x70).toNat % 16 = n := by decide
  exact all ⟨n, small⟩

/-- The nanos in `tmp` are assembled, with their length in the header. -/
theorem assembled_cryptoworks (g : EmmGlobal) {tmp : Memory}
    (stream : Nanos tmp 0 ns) (short : ns.flatten.length + 12 ≤ emmSize) :
    Assembled 12 ns ((assembleCryptoworks g tmp ns.flatten.length).read 0
      (ns.flatten.length + 12)) := by
  have limit : ns.flatten.length + 12 ≤ 258 := short
  refine assembled_read ?_ ?_ short
  · unfold assembleCryptoworks
    rw [Dvbapi.dvbapiSortNanos_eq stream]
    have written := Memory.read_write
      (Memory.zero.write 0 (g.emmGlobal.read 0 12)) 12 (sorted ns).flatten
    rw [Dvbapi.length_sorted] at written
    refine (Memory.read_congr fun i low _ => ?_).trans written
    rw [Memory.write_of_le (Nat.le_trans (by simp) low),
      Memory.write_of_le (Nat.le_trans (by simp) low)]
  · have high : assembleCryptoworks g tmp ns.flatten.length 1 =
        UInt8.ofNat ((ns.flatten.length + 9) / 256) ||| 0x70 := by
      unfold assembleCryptoworks
      rw [Memory.write_of_lt (by omega), Memory.write_head]
    have low : assembleCryptoworks g tmp ns.flatten.length 2 =
        UInt8.ofNat (ns.flatten.length + 9) := Memory.write_head _ _ _ _
    unfold sectionLen
    rw [high, low, nibble_or _ (by omega), UInt8.toNat_ofNat']
    omega

/-- The nanos of the second part and then those of the first one. -/
def cryptoworksNanos (first second : EmmPart) : List (List UInt8) :=
  nanos second.buffer second.len 5 ++ nanos first.buffer first.len 12

/-- Whole parts are the nanos that are sorted. -/
theorem cryptoworks_whole (g : EmmGlobal) (inFirst : first.Whole 12)
    (inSecond : second.Whole 5) :
    (cryptoworksNanos first second).flatten.length =
      second.len + first.len - 17 ∧ 17 ≤ second.len + first.len ∧
    Nanos ((Memory.zero.write 0
      (second.buffer.read 5 (second.len - 5))).write (second.len - 5)
        ((g.store first).emmGlobal.read 12 (first.len - 12))) 0
      (cryptoworksNanos first second) := by
  have front := Dvbapi.nanos_whole second.buffer second.len 5
  have behind := Dvbapi.nanos_whole (g.store first).emmGlobal first.len 12
  have frontEnd := Dvbapi.nanosEnd_eq second.buffer second.len 5
  have behindEnd := Dvbapi.nanosEnd_eq first.buffer first.len 12
  rw [inSecond] at frontEnd
  rw [inFirst] at behindEnd
  rw [nanos_store g inFirst] at behind
  have frontLen : (nanos second.buffer second.len 5).flatten.length =
      second.len - 5 := by omega
  have behindLen : (nanos first.buffer first.len 12).flatten.length =
      first.len - 12 := by omega
  refine ⟨?_, by omega, ?_⟩
  · rw [cryptoworksNanos, List.flatten_append, List.length_append]
    omega
  · have bytes := front.bytes
    have rest := behind.bytes
    rw [frontLen] at bytes
    rw [behindLen] at rest
    rw [bytes, rest, ← frontLen]
    have joined := Memory.write_write Memory.zero 0
      (nanos second.buffer second.len 5).flatten
      (nanos first.buffer first.len 12).flatten
    rw [Nat.zero_add, ← List.flatten_append] at joined
    rw [joined]
    refine nanos_written fun nano member => ?_
    rcases List.mem_append.mp member with inFront | inRest
    · exact front.whole nano inFront
    · exact behind.whole nano inRest

/-- When the first part is kept, an EMM of whole parts that is handed on has
to fit into the packet, and others must not be assembled. -/
def CryptoworksFits (freed : UInt8) (g : EmmGlobal)
    (first second : EmmPart) : Prop :=
  (g.store first).emmGlobalLen ≠ 0 →
    (first.Whole 12 ∧ second.Whole 5 →
      ¬ (freed.toNat = second.len + first.len - 17 ∧
        emmSize < second.len + first.len - 17 + 12)) ∧
    (¬ (first.Whole 12 ∧ second.Whole 5) → second.len + first.len < 17)

theorem cryptoworksRight_iff (kept : g.Kept) (before freed : UInt8)
    (pair : CryptoworksPair first second) :
    CryptoworksRight before freed g first second ↔
      CryptoworksFits freed g first second := by
  unfold CryptoworksRight CryptoworksFits
  by_cases filled : (g.store first).emmGlobalLen = 0
  · obtain ⟨emm, inside⟩ :=
      cryptoworks_nothing kept before freed pair (.inl filled)
    simp [emm, inside, filled]
  by_cases enough : 17 ≤ second.len + first.len
  · obtain ⟨emm, inside⟩ :=
      cryptoworks_second kept before freed pair filled enough
    simp only [emm, inside, ne_eq, filled, not_false_eq_true, true_implies]
    refine and_congr (forall_congr' fun whole => ?_)
      (forall_congr' fun _ => ?_)
    · obtain ⟨length, _, stream⟩ := cryptoworks_whole g whole.1 whole.2
      constructor
      · rintro right ⟨found, long⟩
        have fits := (right _ (if_pos found)).fits
        rw [Memory.length_read] at fits
        omega
      · intro fits emm handed
        by_cases found : freed.toNat = second.len + first.len - 17
        · rw [if_pos found, Option.some.injEq] at handed
          rw [← handed, ← length]
          refine assembled_cryptoworks (g.store first) stream ?_
          show (cryptoworksNanos first second).flatten.length + 12 ≤ _
          rw [length]
          exact Nat.le_of_not_lt fun long => fits ⟨found, long⟩
        · rw [if_neg found] at handed
          cases handed
    · constructor
      · intro no
        cases no
      · intro short
        omega
  · obtain ⟨emm, inside⟩ := cryptoworks_nothing kept before freed pair
      (.inr (Nat.lt_of_not_le enough))
    have none : ¬ (first.Whole 12 ∧ second.Whole 5) := fun whole =>
      enough (cryptoworks_whole g whole.1 whole.2).2.1
    simp only [emm, inside, ne_eq, filled, not_false_eq_true, true_implies,
      none, false_implies, implies_true, true_and]
    exact ⟨fun _ => Nat.lt_of_not_le enough, fun _ => trivial⟩

/-! ## Both -/

/-- For a first and a second part, behind any other sections, the EMM is right
if and only if the nanos fit. -/
theorem reassembled_iff {viaccess cryptoworks : EmmGlobal}
    (viaccessReached : ViaccessReached viaccess)
    (cryptoworksReached : CryptoworksReached cryptoworks)
    (first second : EmmPart) (before freed : UInt8) :
    (ViaccessPair first second →
      (ViaccessRight viaccess first second ↔
        ViaccessFits viaccess first second)) ∧
    (CryptoworksPair first second →
      (CryptoworksRight before freed cryptoworks first second ↔
        CryptoworksFits freed cryptoworks first second)) :=
  ⟨viaccessRight_iff viaccessReached.kept,
    cryptoworksRight_iff cryptoworksReached.kept before freed⟩

/-- A section of a header and some nanos. -/
def EmmPart.ofNanos (header : List UInt8) (ns : List (List UInt8))
    (complete : sectionLen (Memory.zero.write 0 (header ++ ns.flatten)) + 3 =
      (header ++ ns.flatten).length) : EmmPart where
  buffer := Memory.zero.write 0 (header ++ ns.flatten)
  len := (header ++ ns.flatten).length
  complete := complete

theorem whole_ofNanos {front : List UInt8} {complete}
    (whole : ∀ nano ∈ ns, IsNano nano) :
    (EmmPart.ofNanos front ns complete).Whole front.length := by
  have stream : Nanos (Memory.zero.write 0 (front ++ ns.flatten))
      front.length ns := by
    refine ⟨whole, ?_⟩
    rw [← Memory.write_write, Nat.zero_add]
    exact Memory.read_write _ _ _
  have ends := nanosEnd_whole stream
  rwa [← List.length_append] at ends

/-- Short parts of both systems. -/
theorem reassembled_iff_short :
    let viaccessFirst : EmmPart :=
      .ofNanos [0x8c, 0x70, 4] [[0x20, 2, 1, 1]] rfl
    let viaccessSecond : EmmPart :=
      .ofNanos [0x8e, 0x70, 9, 0, 0, 0, 0] [[0x10, 3, 9, 9, 9]] rfl
    let cryptoworksFirst : EmmPart :=
      .ofNanos [0x84, 0x70, 13, 0, 0, 0, 0, 0, 0, 0, 0, 9] [[0x20, 2, 1, 1]] rfl
    let cryptoworksSecond : EmmPart :=
      .ofNanos [0x86, 0x70, 7, 0, 0] [[0x10, 3, 9, 9, 9]] rfl
    ViaccessRight .unset viaccessFirst viaccessSecond ∧
      CryptoworksRight 0 9 .unset cryptoworksFirst cryptoworksSecond := by
  have first : ∀ nano ∈ [[0x20, 2, 1, (1 : UInt8)]], IsNano nano := by decide
  have second : ∀ nano ∈ [[0x10, 3, 9, 9, (9 : UInt8)]], IsNano nano := by
    decide
  intro viaccessFirst viaccessSecond cryptoworksFirst cryptoworksSecond
  constructor
  · refine ((reassembled_iff (.start rfl) (.start rfl) viaccessFirst
      viaccessSecond 0 9).1
        ⟨.inl rfl, rfl, by decide, by decide, by decide⟩).mpr ⟨?_, ?_⟩
    · intro _
      show 7 + 12 ≤ (261 : Nat)
      decide
    · intro no
      exact absurd ⟨whole_ofNanos first, whole_ofNanos second⟩ no
  · refine ((reassembled_iff (.start rfl) (.start rfl) cryptoworksFirst
      cryptoworksSecond 0 9).2
        ⟨rfl, rfl, by decide, by decide⟩).mpr fun _ => ⟨?_, ?_⟩
    · rintro _ ⟨_, long⟩
      have no : ¬ 258 < 10 + 16 - 17 + 12 := by decide
      exact no long
    · intro no
      exact absurd ⟨whole_ofNanos first, whole_ofNanos second⟩ no

/-- A nano with 128 bytes. -/
def longNano : List UInt8 := 0x20 :: 128 :: List.replicate 128 1

/-- With one such nano in each part the EMM does not fit into the packet. -/
theorem not_reassembled_long :
    ¬ ∀ (viaccess cryptoworks : EmmGlobal) (first second : EmmPart)
      (before freed : UInt8), ViaccessReached viaccess →
      CryptoworksReached cryptoworks →
      (ViaccessPair first second → ViaccessRight viaccess first second) ∧
        (CryptoworksPair first second →
          CryptoworksRight before freed cryptoworks first second) := by
  intro all
  have whole : ∀ nano ∈ [longNano], IsNano nano := by
    intro nano member
    rw [List.mem_singleton.mp member]
    rfl
  let first : EmmPart :=
    .ofNanos [0x8c, 0x70, 130] [longNano] (by decide +kernel)
  let second : EmmPart :=
    .ofNanos [0x8e, 0x70, 134, 0, 0, 0, 0] [longNano] (by decide +kernel)
  have pair : ViaccessPair first second :=
    ⟨.inl (by decide +kernel), by decide +kernel, by decide +kernel,
      by decide +kernel, by decide +kernel⟩
  have right := (all .unset .unset first second 0 0 (.start rfl)
    (.start rfl)).1 pair
  have reached : ViaccessReached .unset := .start rfl
  have fits := ((viaccessRight_iff reached.kept pair).mp right).1
    ⟨whole_ofNanos whole, whole_ofNanos whole⟩
  have long : ¬ first.len + second.len ≤ emmSize + 3 := by decide +kernel
  exact long fits

end Oscam.EmmParts
