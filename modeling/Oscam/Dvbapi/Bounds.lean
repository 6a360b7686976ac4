import Oscam.Dvbapi.Loops

/-!
# What the parsers of the dvbapi read

The parsers look at some bytes of every message, stream and descriptor that they
come to, whatever the lengths around it say.  They keep inside a buffer if and
only if each of these pieces does.
-/

namespace Oscam.Dvbapi

/-- All places lie in a buffer of `len` bytes. -/
def Inside (len : Nat) (reads : List Nat) : Prop := ∀ p ∈ reads, p < len

@[simp] theorem inside_nil (len : Nat) : Inside len [] := by
  intro p member
  cases member

@[simp] theorem inside_cons {len p : Nat} {reads : List Nat} :
    Inside len (p :: reads) ↔ p < len ∧ Inside len reads :=
  List.forall_mem_cons

@[simp] theorem inside_append {len : Nat} {first second : List Nat} :
    Inside len (first ++ second) ↔ Inside len first ∧ Inside len second :=
  List.forall_mem_append

theorem inside_flatMap {len : Nat} {places : List Nat}
    {reads : Nat → List Nat} :
    Inside len (places.flatMap reads) ↔ ∀ p ∈ places, Inside len (reads p) := by
  simp only [Inside, List.mem_flatMap]
  constructor
  · intro all p member o read
    exact all o ⟨p, member, read⟩
  · rintro all o ⟨p, member, read⟩
    exact all p member o read

/-- The bytes from some place on. -/
theorem inside_range {len base : Nat} (n : Nat) (start : base ≤ len) :
    Inside len ((List.range n).map (base + ·)) ↔ base + n ≤ len := by
  simp only [Inside, List.mem_map, List.mem_range]
  constructor
  · intro all
    cases n with
    | zero => exact start
    | succ n =>
        have last := all (base + n) ⟨n, Nat.lt_succ_self n, rfl⟩
        omega
  · rintro fits p ⟨i, inside, rfl⟩
    omega

/-! ## Descriptors -/

/-- The number of bytes that are looked at in a descriptor. -/
def descriptorEnd (m : Memory) (p : Nat) : Nat :=
  let length := (m (p + 1)).toNat
  let system := (m (p + 2)).toNat
  if m p ≠ 0x09 then 6
  else if system = 0x01 then
    if length ≤ 2 then 6 else 8 + 15 * ((length - 3) / 15)
  else if system = 0x05 ∧ length = 0x0F then
    if m (p + 12) = 0x14 then 17 else 13
  else if system = 0x18 ∧ length = 0x07 then 9
  else if system = 0x4A ∧ length = 0x05 then 7
  else 6

/-- Every descriptor that the loop comes to lies in the buffer; with a full
table only six bytes are looked at. -/
def DescriptorsFit (m : Memory) (len : Nat) : List Nat → Demux → Prop
  | [], _ => True
  | p :: rest, d =>
      if ecmPids ≤ d.ecmPidCount then p + 6 ≤ len
      else p + descriptorEnd m p ≤ len ∧
        DescriptorsFit m len rest (addDescriptor m d p)

/-- All descriptors of a program or a stream. -/
def AreaFits (m : Memory) (len base infoLength : Nat) (d : Demux) : Prop :=
  1 ≤ infoLength → base < len ∧
    DescriptorsFit m len (descriptorPlaces m base infoLength) d

theorem mem_secaPids {length u : Nat} :
    u ∈ secaPids length ↔ u < length ∧ ∃ n, u = 2 + n * 15 :=
  Places.mem_places_add 15 (by omega) (by omega)

theorem inside_secaPids (length p : Nat) {len : Nat} (first : p + 6 ≤ len) :
    Inside len ((secaPids length).flatMap fun u =>
        [p + 2 + u, p + 2 + u + 1, p + 2 + u + 2, p + 2 + u + 3]) ↔
      p + (if length ≤ 2 then 6 else 8 + 15 * ((length - 3) / 15)) ≤ len := by
  rw [inside_flatMap]
  simp only [inside_cons, inside_nil, and_true, mem_secaPids]
  constructor
  · intro all
    split
    · exact first
    · have last := all (2 + (length - 3) / 15 * 15)
        ⟨by omega, (length - 3) / 15, rfl⟩
      omega
  · rintro fits u ⟨below, n, rfl⟩
    rw [if_neg (by omega)] at fits
    have few : n ≤ (length - 3) / 15 := by omega
    omega

theorem inside_systemReads {m : Memory} {p len : Nat} (tag : m p = 0x09)
    (first : p + 6 ≤ len) :
    Inside len (systemReads m p) ↔ p + descriptorEnd m p ≤ len := by
  unfold systemReads descriptorEnd
  dsimp only
  rw [if_neg (not_not.mpr tag)]
  split
  · exact inside_secaPids _ p first
  split
  · split
    · simp only [inside_cons, inside_nil, and_true]
      omega
    · simp only [inside_cons, inside_nil, and_true]
      omega
  split
  · simp only [inside_cons, inside_nil, and_true]
    omega
  split
  · simp only [inside_cons, inside_nil, and_true]
    omega
  · simpa using first

theorem six_le_descriptorEnd (m : Memory) (p : Nat) :
    6 ≤ descriptorEnd m p := by
  unfold descriptorEnd
  dsimp only
  split_ifs <;> omega

theorem inside_descriptors (m : Memory) (len : Nat) (places : List Nat)
    (d : Demux) :
    Inside len (descriptorsRead m places d) ↔
      DescriptorsFit m len places d := by
  induction places generalizing d with
  | nil => exact iff_of_true (inside_nil len) trivial
  | cons p rest induction =>
      have six := six_le_descriptorEnd m p
      rw [descriptorsRead, DescriptorsFit]
      by_cases full : ecmPids ≤ d.ecmPidCount
      · simp only [if_pos full, inside_append, inside_cons, inside_nil,
          and_true]
        omega
      · simp only [if_neg full, inside_append, inside_cons, inside_nil,
          and_true, induction]
        by_cases tag : m p = 0x09
        · rw [if_neg (not_not.mpr tag)]
          constructor
          · rintro ⟨head, _tag, system, later⟩
            exact ⟨(inside_systemReads tag (by omega)).mp system, later⟩
          · rintro ⟨fits, later⟩
            exact ⟨by omega, by omega,
              (inside_systemReads tag (by omega)).mpr fits, later⟩
        · have short : descriptorEnd m p = 6 := if_pos tag
          rw [if_pos tag, short]
          simp only [inside_nil, true_and]
          constructor
          · rintro ⟨head, _tag, later⟩
            exact ⟨by omega, later⟩
          · rintro ⟨fits, later⟩
            exact ⟨by omega, by omega, later⟩

theorem inside_parseDescriptor (m : Memory) (len base infoLength : Nat)
    (d : Demux) :
    Inside len (parseDescriptorReads m base infoLength d) ↔
      AreaFits m len base infoLength d := by
  unfold parseDescriptorReads AreaFits
  split
  · rename_i none
    exact iff_of_true (inside_nil len) (fun some => absurd none (by omega))
  · rename_i some
    rw [inside_cons, inside_descriptors]
    exact ⟨fun both _ => both, fun both => both (by omega)⟩

/-! ## The PMT -/

/-- Every stream that the loop comes to lies in the buffer with its five bytes,
and its descriptors do. -/
def StreamsFit (m : Memory) (len length : Nat) : List Nat → Demux → Prop
  | [], _ => True
  | p :: rest, d =>
      p + 5 ≤ len ∧
        if room : d.streamPids.length < ecmPids then
          let added := addStream d room (UInt16.ofNat (bits13 m (p + 1)))
          let esInfoLength := bits12 m (p + 3)
          if esInfoLength ≠ 0 ∧ esInfoLength < length then
            AreaFits m len (p + 5) esInfoLength added ∧
              StreamsFit m len length rest
                (parseDescriptor m (p + 5) esInfoLength added)
          else StreamsFit m len length rest added
        else True

/-- The descriptors of the program, and the streams. -/
def PidsFit (m : Memory) (len base length : Nat) (d : Demux) : Prop :=
  let programInfoLength := bits12 m (base + 4)
  if programInfoLength > 1 ∧ programInfoLength < length then
    AreaFits m len (base + 9) (programInfoLength - 1) d ∧
      StreamsFit m len length (streamPlaces m base length)
        (parseDescriptor m (base + 9) (programInfoLength - 1) d)
  else StreamsFit m len length (streamPlaces m base length) d

/-- The number of bytes that are looked at in the head of a message. -/
def headEnd (m : Memory) (base : Nat) : Nat :=
  if m (base + 17) = 0x82 then if m (base + 18) = 0x02 then 21 else 19 else 18

/-- With a QBOXHD one byte more may be looked at. -/
def deviceEnd (cfg : Cfg) (m : Memory) (base : Nat) : Nat :=
  if cfg.boxtype = .qboxhd ∧ m (base + 17) = 0x82 ∧ m (base + 18) = 0x03 then
    22
  else 18

/-- A message has at least the bytes of the head that are looked at, and all
that it says it has if they are dumped to the log; its pids fit if there is a
demux for them. -/
def CapmtFits (cfg : Cfg) (m : Memory) (len base length : Nat) (connfd : Int)
    (s : State) : Prop :=
  base + headEnd m base ≤ len ∧
    (cfg.debug = true ∧ length < 2 ^ 31 → base + length ≤ len) ∧
    match findDemux (m base) connfd s with
    | (_, none) => True
    | (s, some i) =>
        base + deviceEnd cfg m base ≤ len ∧
          PidsFit m len base length
            ((s i).program m base (demuxDevice cfg m base i) connfd)

theorem inside_streams (m : Memory) (len length : Nat) (places : List Nat)
    (d : Demux) :
    Inside len (streamsRead m length places d) ↔
      StreamsFit m len length places d := by
  induction places generalizing d with
  | nil => exact iff_of_true (inside_nil len) trivial
  | cons p rest induction =>
      have five : Inside len [p, p + 1, p + 2, p + 3, p + 4] ↔
          p + 5 ≤ len := by
        simp only [inside_cons, inside_nil, and_true]
        omega
      rw [streamsRead, StreamsFit, inside_append, five]
      refine and_congr_right fun _fits => ?_
      split
      · dsimp only
        split
        · rw [inside_append, inside_parseDescriptor, induction]
        · exact induction _
      · exact iff_of_true (inside_nil len) trivial

theorem inside_addPids (m : Memory) (len base length : Nat) (d : Demux) :
    Inside len (addPidsReads m base length d) ↔
      PidsFit m len base length d := by
  unfold addPidsReads PidsFit
  dsimp only
  split
  · rw [inside_append, inside_parseDescriptor, inside_streams]
  · exact inside_streams m len length _ d

theorem inside_headReads (cfg : Cfg) (m : Memory) (len base length : Nat) :
    Inside len (headReads cfg m base length) ↔
      base + headEnd m base ≤ len ∧
        (cfg.debug = true ∧ length < 2 ^ 31 → base + length ≤ len) := by
  have front : Inside len
      ([base, base + 1, base + 2, base + 4, base + 5, base + 17] ++
        if m (base + 17) = 0x82 then
          (base + 18) ::
            if m (base + 18) = 0x02 then [base + 19, base + 20] else []
        else []) ↔ base + headEnd m base ≤ len := by
    unfold headEnd
    split
    · split
      · simp only [inside_append, inside_cons, inside_nil, and_true]
        omega
      · simp only [inside_append, inside_cons, inside_nil, and_true]
        omega
    · simp only [inside_append, inside_cons, inside_nil, and_true]
      omega
  unfold headReads
  rw [inside_append, front]
  refine and_congr_right fun fits => ?_
  split
  · rename_i dumped
    rw [inside_range length (by omega)]
    exact ⟨fun all _ => all, fun all => all dumped⟩
  · rename_i silent
    exact iff_of_true (inside_nil len) (fun dumped => absurd dumped silent)

theorem inside_deviceReads (cfg : Cfg) (m : Memory) {len base : Nat}
    (head : base + headEnd m base ≤ len) :
    Inside len (deviceReads cfg m base) ↔
      base + deviceEnd cfg m base ≤ len := by
  have eighteen : 18 ≤ headEnd m base := by
    unfold headEnd
    split_ifs <;> omega
  unfold deviceReads deviceEnd
  cases box : cfg.boxtype with
  | qboxhd =>
      by_cases tag : m (base + 17) = 0x82
      · have nineteen : 19 ≤ headEnd m base := by
          unfold headEnd
          rw [if_pos tag]
          split <;> omega
        by_cases size : m (base + 18) = 0x03
        · simp only [tag, size, if_true, inside_cons, inside_nil, and_true]
          omega
        · simp only [tag, size, if_true, if_false, inside_cons, inside_nil,
            and_true, and_false]
          omega
      · simp only [tag, if_false, inside_cons, inside_nil, and_true, false_and,
          and_false]
        omega
  | pc =>
      simp only [inside_cons, inside_nil, and_true, reduceCtorEq, false_and,
        if_false]
      omega
  | ipbox | ipboxPmt | other =>
      simp only [inside_nil, reduceCtorEq, false_and, if_false, true_iff]
      omega

theorem inside_parseCapmt (cfg : Cfg) (m : Memory) (len base length : Nat)
    (connfd : Int) (s : State) :
    Inside len (parseCapmtReads cfg m base length connfd s) ↔
      CapmtFits cfg m len base length connfd s := by
  unfold parseCapmtReads CapmtFits
  rw [inside_append, inside_headReads, and_assoc]
  refine and_congr_right fun head => and_congr_right fun _dumped => ?_
  rcases findDemux (m base) connfd s with ⟨found, _ | i⟩
  · exact iff_of_true (inside_nil len) trivial
  · dsimp only
    rw [inside_append, inside_deviceReads cfg m head, inside_addPids]

/-! ## Commands -/

/-- What is looked at to see whether a command begins lies in the buffer. -/
def StartFits (m : Memory) (len k : Nat) : Prop :=
  m k = 0x9F → k + 2 ≤ len

/-- A command lies in the buffer with its length and with what is looked at
behind it. -/
def CommandFits (cfg : Cfg) (m : Memory) (len k : Nat) (connfd : Int)
    (s : State) : Prop :=
  k + 4 + longSize m k ≤ len ∧
    (m (k + 2) = 0x32 →
      CapmtFits cfg m len (k + 4 + longSize m k) (commandVal m k) connfd s) ∧
    (m (k + 2) = 0x3F ∧ cfg.boxtype = .ipbox → k + 8 ≤ len)

theorem inside_startReads {m : Memory} {len k : Nat} (inside : k < len) :
    Inside len (startReads m k) ↔ StartFits m len k := by
  unfold startReads StartFits
  split
  · rename_i first
    simp only [inside_cons, inside_nil, and_true, first, true_imp_iff]
    omega
  · rename_i other
    simp only [inside_cons, inside_nil, and_true, other, false_imp_iff,
      iff_true]
    exact inside

theorem inside_commandReads (cfg : Cfg) (m : Memory) (len k : Nat)
    (connfd : Int) (s : State) :
    Inside len (commandReads cfg m k connfd s) ↔
      CommandFits cfg m len k connfd s := by
  have front : Inside len ([k + 3] ++
      (List.range (longSize m k)).map (k + 4 + ·) ++ [k + 2]) ↔
        k + 4 + longSize m k ≤ len := by
    simp only [inside_append, inside_cons, inside_nil, and_true]
    constructor
    · rintro ⟨⟨third, rest⟩, _second⟩
      exact (inside_range _ (by omega)).mp rest
    · intro fits
      exact ⟨⟨by omega, (inside_range _ (by omega)).mpr fits⟩, by omega⟩
  unfold commandReads CommandFits
  rw [inside_append, front]
  refine and_congr_right fun fits => ?_
  by_cases capmt : m (k + 2) = 0x32
  · have other : ¬ m (k + 2) = 0x3F := by
      rw [capmt]
      decide
    simp only [capmt, if_true, inside_parseCapmt, true_imp_iff]
    constructor
    · intro all
      exact ⟨all, fun both => absurd both.1 (by decide)⟩
    · exact And.left
  · simp only [capmt, if_false, false_imp_iff, true_and]
    split
    · rename_i stop
      simp only [stop, and_self, true_imp_iff, inside_cons, inside_nil,
        and_true]
      omega
    · rename_i other
      exact iff_of_true (inside_nil len) (fun stop => absurd stop other)

/-! ## The walk from command to command -/

/-- The place of the `n`th command. -/
def commandPlace (m : Memory) (n : Nat) : Nat := (nextCommand m)^[n] 0

/-- The state before it. -/
def commandState (cfg : Cfg) (m : Memory) (connfd : Int) (s : State) :
    Nat → State
  | 0 => s
  | n + 1 =>
      command cfg m (commandPlace m n) connfd (commandState cfg m connfd s n)

/-- The loop of `dvbapi_handlesockmsg` goes on behind this place. -/
def GoesOn (m : Memory) (len k : Nat) : Prop := k < len ∧ isCommand m k = true

/-- The walk does not come back to a place, which needs a length near to
`2 ^ 32`; and at each place that it comes to, the command lies in the buffer. -/
structure MessageFits (cfg : Cfg) (m : Memory) (len : Nat) (connfd : Int)
    (s : State) : Prop where
  apart : ∀ i j, i < j → (∀ n ≤ j, GoesOn m len (commandPlace m n)) →
    commandPlace m i ≠ commandPlace m j
  start : ∀ n, (∀ i < n, GoesOn m len (commandPlace m i)) →
    commandPlace m n < len → StartFits m len (commandPlace m n)
  command : ∀ n, (∀ i ≤ n, GoesOn m len (commandPlace m i)) →
    CommandFits cfg m len (commandPlace m n) connfd
      (commandState cfg m connfd s n)

/-- The numbers of entries are those of the tables at most. -/
structure Within (s : State) : Prop where
  ecm : ∀ i, (s i).ecmPidCount ≤ ecmPids
  emm : ∀ i, (s i).emmPids.length ≤ ecmPids
  stream : ∀ i, (s i).streamPids.length ≤ ecmPids

/-- `dvbapi_handlesockmsg` ends, reads inside the buffer and keeps the numbers of
entries within the tables. -/
def MessageSafe (cfg : Cfg) (m : Memory) (len : Nat) (connfd : Int)
    (s : State) : Prop :=
  ∃ turns after reads,
    handleSockMsg cfg m len connfd turns 0 s = some (after, reads) ∧
      Inside len reads ∧ (Within s → Within after)

variable {m : Memory} {len : Nat}

theorem commandPlace_succ (m : Memory) (n : Nat) :
    commandPlace m (n + 1) = nextCommand m (commandPlace m n) :=
  Function.iterate_succ_apply' ..

/-- When the loop has ended, the walk has come to a place where it does not go
on, and this is what was read on the way. -/
theorem handleSockMsg_ended {cfg : Cfg} {connfd : Int} {s after : State}
    {turns n : Nat} {reads : List Nat}
    (ended : handleSockMsg cfg m len connfd turns (commandPlace m n)
      (commandState cfg m connfd s n) = some (after, reads)) :
    ∃ last, n ≤ last ∧ ¬ GoesOn m len (commandPlace m last) ∧
      (∀ i, n ≤ i → i < last → GoesOn m len (commandPlace m i)) ∧
      after = commandState cfg m connfd s last ∧
      (Inside len reads ↔
        (∀ i, n ≤ i → i < last →
          Inside len (startReads m (commandPlace m i)) ∧
            Inside len (commandReads cfg m (commandPlace m i) connfd
              (commandState cfg m connfd s i))) ∧
        (commandPlace m last < len →
          Inside len (startReads m (commandPlace m last)))) := by
  induction turns generalizing n reads with
  | zero => cases ended
  | succ turns induction =>
      rw [handleSockMsg] at ended
      split at ended
      · rename_i below
        split at ended
        · rename_i begins
          obtain ⟨rest, later, same⟩ := Option.map_eq_some_iff.mp ended
          obtain ⟨rfl, rfl⟩ := Prod.mk.inj same
          rw [← commandPlace_succ] at later
          obtain ⟨last, behind, stops, goes, state, reads⟩ :=
            induction later
          refine ⟨last, by omega, stops, ?_, state, ?_⟩
          · intro i low high
            rcases Nat.eq_or_lt_of_le low with rfl | further
            · exact ⟨below, begins⟩
            · exact goes i further high
          · rw [inside_append, inside_append, reads]
            constructor
            · rintro ⟨now, all, final⟩
              refine ⟨?_, final⟩
              intro i low high
              rcases Nat.eq_or_lt_of_le low with rfl | further
              · exact now
              · exact all i further high
            · rintro ⟨all, final⟩
              exact ⟨all n le_rfl (by omega),
                fun i low high => all i (by omega) high, final⟩
        · rename_i other
          obtain ⟨rfl, rfl⟩ := Prod.mk.inj (Option.some.inj ended)
          refine ⟨n, le_rfl, fun goes => other goes.2, ?_, rfl, ?_⟩
          · intro i low high
            omega
          · constructor
            · intro all
              refine ⟨?_, fun _ => all⟩
              intro i low high
              omega
            · intro both
              exact both.2 below
      · rename_i above
        obtain ⟨rfl, rfl⟩ := Prod.mk.inj (Option.some.inj ended)
        refine ⟨n, le_rfl, fun goes => above goes.1, ?_, rfl, ?_⟩
        · intro i low high
          omega
        · refine iff_of_true (inside_nil len)
            ⟨?_, fun below => absurd below above⟩
          intro i low high
          omega

/-- When the walk comes to such a place, the loop ends. -/
theorem handleSockMsg_ends (cfg : Cfg) (connfd : Int) (s : State) {n k : Nat}
    (stops : ¬ GoesOn m len (commandPlace m (n + k))) :
    ∃ turns after reads,
      handleSockMsg cfg m len connfd turns (commandPlace m n)
        (commandState cfg m connfd s n) = some (after, reads) := by
  induction k generalizing n with
  | zero =>
      rw [Nat.add_zero] at stops
      refine ⟨1, ?_⟩
      rw [handleSockMsg]
      split
      · rename_i below
        rw [if_neg (fun begins => stops ⟨below, begins⟩)]
        exact ⟨_, _, rfl⟩
      · exact ⟨_, _, rfl⟩
  | succ k induction =>
      have place : n + (k + 1) = n + 1 + k := by omega
      rw [place] at stops
      obtain ⟨turns, after, reads, later⟩ := induction stops
      rw [commandPlace_succ] at later
      refine ⟨turns + 1, ?_⟩
      rw [handleSockMsg]
      split
      · split
        · exact ⟨after, _, by rw [← commandState, later]; rfl⟩
        · exact ⟨_, _, rfl⟩
      · exact ⟨_, _, rfl⟩

/-! ## The number of EMM pids -/

theorem emmPids_add (d : Demux) (pid : Pid) :
    (d.add pid).emmPids = d.emmPids := by
  cases pid with
  | stream pid =>
      rw [Demux.add]
      split_ifs <;> rfl
  | ecm caid ecmpid provid =>
      rw [Demux.add, Demux.addEcmpid]
      split_ifs <;> rfl

theorem emmPids_addPids (m : Memory) (base length : Nat) (d : Demux) :
    (addPids m base length d).emmPids = d.emmPids :=
  addPids_keeps (fun added => added.emmPids = d.emmPids)
    (fun added pid same => (emmPids_add added pid).trans same) m base length rfl

theorem emmPids_tryTurns (cfg : Cfg) (turns : Nat) (d : Demux) :
    (tryTurns cfg turns d).emmPids = d.emmPids := by
  induction turns generalizing d with
  | zero => rfl
  | succ turns induction =>
      rw [tryTurns]
      split
      · rfl
      split
      · split
        · rfl
        · exact induction _
      · split
        · exact induction _
        · rfl

/-- The EMM pids of each demux are those of before, or none. -/
structure EmmKept (before after : State) : Prop where
  kept : ∀ i, (after i).emmPids = (before i).emmPids ∨ (after i).emmPids = []

theorem EmmKept.refl (s : State) : EmmKept s s := ⟨fun _ => .inl rfl⟩

theorem EmmKept.trans {s middle after : State} (first : EmmKept s middle)
    (second : EmmKept middle after) : EmmKept s after where
  kept := by
    intro i
    rcases second.kept i with same | none
    · rw [same]
      exact first.kept i
    · exact .inr none

theorem EmmKept.update (s : State) (i : Fin maxDemux) {d : Demux}
    (kept : d.emmPids = (s i).emmPids ∨ d.emmPids = []) :
    EmmKept s (Function.update s i d) where
  kept := by
    intro j
    by_cases same : j = i
    · subst same
      rwa [Function.update_self]
    · rw [Function.update_of_ne same]
      exact .inl rfl

theorem EmmKept.foldl {Item : Type} {turn : State → Item → State}
    (kept : ∀ s item, EmmKept s (turn s item)) (items : List Item)
    (s : State) : EmmKept s (items.foldl turn s) := by
  induction items generalizing s with
  | nil => exact .refl s
  | cons item rest induction => exact (kept s item).trans (induction _)

theorem emmKept_stopDescrambling (s : State) (i : Fin maxDemux) :
    EmmKept s (stopDescrambling s i) := by
  unfold stopDescrambling
  split
  · exact .refl s
  · exact .update s i (.inr rfl)

theorem emmKept_setEcmPid (s : State) (i : Fin maxDemux) (j : Fin ecmPids)
    (entry : EcmPid) : EmmKept s (setEcmPid s i j entry) :=
  .update s i (.inl rfl)

theorem emmKept_startDescrambling (cfg : Cfg) (s : State) (i : Fin maxDemux) :
    EmmKept s (startDescrambling cfg s i) := by
  have first : EmmKept s
      (Function.update s i { s i with pidindex := (s i).curindex }) :=
    .update s i (.inl rfl)
  refine first.trans (.foldl ?_ _ _)
  intro s j
  unfold startTurn
  split
  · exact emmKept_setEcmPid s i j _
  · exact .refl s

theorem emmKept_findTurn (management : UInt8) (connfd : Int)
    (found : State × Option (Fin maxDemux)) (i : Fin maxDemux) :
    EmmKept found.1 (findTurn management connfd found i).1 := by
  obtain ⟨s, demuxId⟩ := found
  unfold findTurn
  dsimp only
  split_ifs
  · exact .update s i (.inr rfl)
  · exact emmKept_stopDescrambling s i
  · exact .refl s
  · exact .refl s
  · exact .refl s

theorem emmKept_findDemux (management : UInt8) (connfd : Int) (s : State) :
    EmmKept s (findDemux management connfd s).1 := by
  have all (items : List (Fin maxDemux))
      (found : State × Option (Fin maxDemux)) :
      EmmKept found.1
        (items.foldl (findTurn management connfd) found).1 := by
    induction items generalizing found with
    | nil => exact .refl _
    | cons item rest induction =>
        exact (emmKept_findTurn management connfd found item).trans
          (induction _)
  exact all (List.finRange maxDemux) (s, none)

theorem emmKept_afterPids (cfg : Cfg) (management : UInt8) (s : State)
    (i : Fin maxDemux) : EmmKept s (afterPids cfg management s i) := by
  have tried : EmmKept s (Function.update s i
      (tryNextCaid cfg (resortEcmpids cfg (s i)))) :=
    .update s i (.inl (emmPids_tryTurns ..))
  unfold afterPids
  dsimp only
  split_ifs
  · exact tried
  · exact emmKept_startDescrambling cfg s i
  · exact tried
  · exact .refl s

theorem emmKept_parseCapmt (cfg : Cfg) (m : Memory) (base length : Nat)
    (connfd : Int) (s : State) :
    EmmKept s (parseCapmt cfg m base length connfd s) := by
  have found := emmKept_findDemux (m base) connfd s
  unfold parseCapmt
  dsimp only
  revert found
  rcases findDemux (m base) connfd s with ⟨middle, _ | i⟩
  · exact id
  · intro found
    refine (found.trans (.update middle i (.inl ?_))).trans
      (emmKept_afterPids ..)
    rw [emmPids_addPids]
    rfl

theorem emmKept_command (cfg : Cfg) (m : Memory) (k : Nat) (connfd : Int)
    (s : State) : EmmKept s (command cfg m k connfd s) := by
  unfold command stopCommand
  split_ifs
  · exact emmKept_parseCapmt ..
  · split
    · exact emmKept_stopDescrambling ..
    · exact .refl s
  · exact .refl s
  · exact .refl s

theorem within_commandState (cfg : Cfg) (m : Memory) (connfd : Int) {s : State}
    (within : Within s) (n : Nat) :
    Within (commandState cfg m connfd s n) where
  ecm := fun i => (commandState cfg m connfd s n i).ecmPidCount_le
  emm := by
    have kept : EmmKept s (commandState cfg m connfd s n) := by
      induction n with
      | zero => exact .refl s
      | succ n induction => exact induction.trans (emmKept_command ..)
    intro i
    rcases kept.kept i with same | none
    · rw [same]
      exact within.emm i
    · rw [none]
      exact Nat.zero_le _
  stream := fun i => (commandState cfg m connfd s n i).streamPids_le

theorem messageSafe_iff (cfg : Cfg) (m : Memory) (len : Nat) (connfd : Int)
    (s : State) :
    MessageSafe cfg m len connfd s ↔ MessageFits cfg m len connfd s := by
  have ends : (∃ n, ¬ GoesOn m len (commandPlace m n)) ↔
      ∀ i j, i < j → (∀ n ≤ j, GoesOn m len (commandPlace m n)) →
        commandPlace m i ≠ commandPlace m j :=
    Places.ends_iff fun p goes => goes.1
  constructor
  · rintro ⟨turns, after, reads, ended, inside, -⟩
    obtain ⟨last, -, stops, goes, -, same⟩ :=
      handleSockMsg_ended (n := 0) ended
    obtain ⟨all, final⟩ := same.mp inside
    refine ⟨ends.mp ⟨last, stops⟩, ?_, ?_⟩
    · intro n reached below
      rcases Nat.lt_trichotomy n last with less | rfl | more
      · exact (inside_startReads below).mp (all n (Nat.zero_le n) less).1
      · exact (inside_startReads below).mp (final below)
      · exact absurd (reached last more) stops
    · intro n reached
      have less : n < last := by
        by_contra above
        exact stops (reached last (by omega))
      exact (inside_commandReads ..).mp (all n (Nat.zero_le n) less).2
  · intro fits
    obtain ⟨last, stops⟩ := ends.mpr fits.apart
    obtain ⟨turns, after, reads, ended⟩ :=
      handleSockMsg_ends cfg connfd s (n := 0) (k := last)
        (by rwa [Nat.zero_add])
    obtain ⟨final, -, -, goes, rfl, same⟩ := handleSockMsg_ended (n := 0) ended
    refine ⟨turns, _, reads, ended, same.mpr ⟨?_, ?_⟩,
      fun within => within_commandState cfg m connfd within final⟩
    · intro i _low high
      have before : ∀ n ≤ i, GoesOn m len (commandPlace m n) := fun n le =>
        goes n (Nat.zero_le n) (by omega)
      have below := (goes i (Nat.zero_le i) high).1
      exact ⟨(inside_startReads below).mpr
          (fits.start i (fun n less => before n (by omega)) below),
        (inside_commandReads ..).mpr (fits.command i before)⟩
    · intro below
      exact (inside_startReads below).mpr
        (fits.start final (fun n less => goes n (Nat.zero_le n) less) below)

end Oscam.Dvbapi
