import Mathlib.Algebra.Order.Group.Unbundled.Abs
import Mathlib.Tactic.IntervalCases
import Oscam.Protocol.Camd35Stream

/-!
# The card data of a camd35 server

`camd35_request_emm` sends the data of a card in message CMD05, and
`camd35_recv_chk` takes it apart.  A provider has a record of five bytes, into
which six are written for most cards; the flags stand at fixed places behind
the sixteenth record, and 111 bytes of data are sent.
-/

namespace Oscam.Camd35

/-! ## The reader and the message -/

abbrev emmUnique : Nat := 1
abbrev emmShared : Nat := 2
abbrev emmGlobal : Nat := 4

/-- `CS_MAXPROV`. -/
abbrev csMaxprov : Nat := 32

/-- What CMD05 carries of `s_reader`. -/
structure AuReader where
  caid : UInt16
  hexserial : Nat → UInt8
  nprov : Nat
  prid : Nat → Nat → UInt8
  sa : Nat → Nat → UInt8
  auprovid : Nat
  blockemm : Nat

/-- What CMD05 takes from the request. -/
structure AuRequest where
  srvid : Nat
  prid : Nat
  pid : Nat

/-- Betacrypt and Irdeto cards. -/
def fullProvider (caid : UInt16) : Bool :=
  (0x1700 ≤ caid && caid ≤ 0x1799) || (0x0600 ≤ caid && caid ≤ 0x0699)

/-- A turn of the loop over the providers. -/
def writeProvider (aureader : AuReader) (mbuf : Memory) (i : Nat) : Memory :=
  if fullProvider aureader.caid then
    (mbuf.write (48 + i * 5) [aureader.prid i 0]).write (50 + i * 5)
      [aureader.prid i 1, aureader.prid i 2, aureader.prid i 3]
  else
    ((mbuf.write (48 + i * 5) [aureader.prid i 2]).write (49 + i * 5)
      [aureader.prid i 3]).write (50 + i * 5)
      -- for conax we need at least 4 bytes
      [aureader.sa i 0, aureader.sa i 1, aureader.sa i 2, aureader.sa i 3]

def writeProviders (aureader : AuReader) (mbuf : Memory) (n : Nat) : Memory :=
  (List.range n).foldl (writeProvider aureader) mbuf

/-- The byte of a flag: whether these messages are not blocked. -/
def wanted (blockemm flag : Nat) : UInt8 :=
  if blockemm &&& flag ≠ 0 then 0 else 1

/-- The header of CMD05. -/
def cmd05Header (aureader : AuReader) (er : AuRequest) : Memory :=
  let mbuf := Memory.zero.write 2 [0xff, 0xff]
  let mbuf := mbuf.write 8 (Memory.digits 2 er.srvid)
  let mbuf := mbuf.write 12 (Memory.digits 4
    (if aureader.auprovid ≠ 0 then
      if aureader.auprovid ≠ er.prid then aureader.auprovid else er.prid
    else er.prid))
  let mbuf := mbuf.write 16 (Memory.digits 2 er.pid)
  mbuf.write 0 [5, 111]

/-- The card data of CMD05 in front of the providers. -/
def cmd05Front (aureader : AuReader) (mbuf : Memory) : Memory :=
  let mbuf := mbuf.write 39 [1]
  let mbuf := mbuf.write 20
    [UInt8.ofNat (aureader.caid.toNat / 256), UInt8.ofNat aureader.caid.toNat]
  let mbuf := mbuf.write 40 ((List.range 6).map aureader.hexserial)
  mbuf.write 47 [UInt8.ofNat aureader.nprov]

/-- The card data of CMD05. -/
def cmd05Card (aureader : AuReader) (mbuf : Memory) : Memory :=
  (writeProviders aureader (cmd05Front aureader mbuf) aureader.nprov).write 128
    [wanted aureader.blockemm emmGlobal, wanted aureader.blockemm emmShared,
      wanted aureader.blockemm emmUnique]

/-- The message that `camd35_request_emm` sends first. -/
def cmd05 (aureader : AuReader) (er : AuRequest) : Memory :=
  let mbuf := cmd05Header aureader er
  let mbuf :=
    if aureader.caid ≠ 0 then cmd05Card aureader mbuf
    else
      -- disable emm
      [20, 39, 40, 47, 49].foldl (fun mbuf i => mbuf.write i [1]) mbuf
  mbuf.move 10 20 2

/-- The second message differs in its length byte. -/
def cmd05Long (aureader : AuReader) (er : AuRequest) : Memory :=
  (cmd05 aureader er).write 1 [112]

/-- What the server remembers of the last message of a client. -/
structure AuClient where
  lastserial : List UInt8
  last : Int
  disableCounter : Nat

/-- `camd35_request_emm` with the reader that has been found: the messages that
are sent.  Every card is announced at most every three minutes, and after
three messages without a card there are no more. -/
def requestEmm (cl : AuClient) (now : Int) (aureader : AuReader)
    (er : AuRequest) : AuClient × List Memory :=
  let serial := (List.range 8).map aureader.hexserial
  if cl.lastserial = serial ∧ |now - cl.last| < 180 then (cl, [])
  else
    let cl := { cl with lastserial := serial, last := now }
    let messages := [cmd05 aureader er, cmd05Long aureader er]
    if aureader.caid ≠ 0 then ({ cl with disableCounter := 0 }, messages)
    else if cl.disableCounter > 2 then (cl, [])
    else ({ cl with disableCounter := cl.disableCounter + 1 }, messages)

/-- `camd35_recv_chk` for CMD05. -/
def recvChk (rdr : AuReader) (buf : Memory) : AuReader :=
  if buf 0 = 5 ∧ buf 1 = 111 then
    let nprov := (buf 47).toNat
    let caid := UInt16.ofNat (buf.number 20 2)
    { caid := caid
      hexserial := fun j =>
        if j < 6 then buf (40 + j) else if j < 8 then 0 else rdr.hexserial j
      nprov := nprov
      prid := fun i j =>
        if i < nprov then
          if fullProvider caid then
            if j = 0 then buf (48 + i * 5)
            else if j < 4 then buf (50 + i * 5 + (j - 1))
            else rdr.prid i j
          else if j = 2 then buf (48 + i * 5)
          else if j = 3 then buf (49 + i * 5)
          else rdr.prid i j
        else rdr.prid i j
      sa := fun i j =>
        if i < nprov ∧ ¬ fullProvider caid ∧ j < 4 then buf (50 + i * 5 + j)
        else rdr.sa i j
      auprovid := buf.number 12 4
      blockemm :=
        (if buf 128 = 1 then 0 else emmGlobal) |||
          (if buf 129 = 1 then 0 else emmShared) |||
          (if buf 130 = 1 then 0 else emmUnique) }
  else rdr

/-! ## What arrives -/

/-- The buffer of the receiver after a message: what was sent, and behind it
what was there before. -/
def received (crc32 : List UInt8 → Nat) (old buf : Memory) : Memory := fun i =>
  if i < frameSize buf then plainMessage crc32 Memory.zero buf i else old i

/-- The bytes that identify a provider are those of the other reader. -/
def SameProvider (aureader rdr : AuReader) (i : Nat) : Prop :=
  if fullProvider aureader.caid then
    ∀ j < 4, rdr.prid i j = aureader.prid i j
  else
    rdr.prid i 2 = aureader.prid i 2 ∧ rdr.prid i 3 = aureader.prid i 3 ∧
      ∀ j < 4, rdr.sa i j = aureader.sa i j

/-- The reader has taken over the card data of the other one. -/
structure SameCard (aureader rdr : AuReader) : Prop where
  caid : rdr.caid = aureader.caid
  serial : ∀ j < 6, rdr.hexserial j = aureader.hexserial j
  nprov : rdr.nprov = aureader.nprov
  provider : ∀ i < aureader.nprov, SameProvider aureader rdr i
  blockemm : rdr.blockemm = aureader.blockemm

/-- The byte at a place from the flags on: they have been written last, the
message ends behind them and is filled up, and the rest is what the receiver
had. -/
def tail (aureader : AuReader) (old : Memory) (place : Nat) : UInt8 :=
  if place = 128 then wanted aureader.blockemm emmGlobal
  else if place = 129 then wanted aureader.blockemm emmShared
  else if place = 130 then wanted aureader.blockemm emmUnique
  else if place < 144 then 0xff
  else old place

/-- The bytes of a provider are the ones that are found in their places: the
last byte of a record is the first one of the next, and from the flags on there
are no records. -/
def ProviderCarried (aureader : AuReader) (old : Memory) (i : Nat) : Prop :=
  if fullProvider aureader.caid then
    16 ≤ i → aureader.prid i 0 = tail aureader old (48 + i * 5) ∧
      ∀ j < 3, aureader.prid i (j + 1) = tail aureader old (50 + i * 5 + j)
  else
    (i < 15 → i + 1 < aureader.nprov →
      aureader.sa i 3 = aureader.prid (i + 1) 2) ∧
      (15 ≤ i → aureader.sa i 3 = tail aureader old (53 + i * 5)) ∧
      (16 ≤ i → aureader.prid i 2 = tail aureader old (48 + i * 5) ∧
        aureader.prid i 3 = tail aureader old (49 + i * 5) ∧
        ∀ j < 3, aureader.sa i j = tail aureader old (50 + i * 5 + j))

/-- There is a card, only the three flags of the message are set, and all
providers are carried. -/
def Carried (aureader : AuReader) (old : Memory) : Prop :=
  aureader.caid ≠ 0 ∧ aureader.blockemm < 8 ∧
    ∀ i < aureader.nprov, ProviderCarried aureader old i

/-! ## The records in the message -/

section Records

variable {aureader : AuReader} {er : AuRequest} {mbuf old : Memory}

theorem writeProviders_succ (aureader : AuReader) (mbuf : Memory) (n : Nat) :
    writeProviders aureader mbuf (n + 1) =
      writeProvider aureader (writeProviders aureader mbuf n) n := by
  simp [writeProviders, List.range_succ]

/-- A provider of a card that is not Betacrypt or Irdeto is one block of six
bytes. -/
theorem writeProvider_plain (plain : fullProvider aureader.caid = false)
    (i : Nat) :
    writeProvider aureader mbuf i =
      mbuf.write (48 + i * 5)
        [aureader.prid i 2, aureader.prid i 3, aureader.sa i 0,
          aureader.sa i 1, aureader.sa i 2, aureader.sa i 3] := by
  unfold writeProvider
  rw [if_neg (by simp [plain])]
  have second : 49 + i * 5 = 48 + i * 5 + [aureader.prid i 2].length := by
    simp only [List.length_singleton]
    omega
  rw [second, Memory.write_write]
  have third : 50 + i * 5 = 48 + i * 5 +
      ([aureader.prid i 2] ++ [aureader.prid i 3]).length := by
    simp only [List.singleton_append, List.length_cons, List.length_nil]
    omega
  rw [third, Memory.write_write]
  rfl

theorem writeProviders_front {place : Nat} (front : place < 48) (n : Nat) :
    writeProviders aureader mbuf n place = mbuf place := by
  induction n with
  | zero => rfl
  | succ n induction =>
      rw [writeProviders_succ, ← induction]
      cases plain : fullProvider aureader.caid with
      | false =>
          rw [writeProvider_plain plain]
          exact Memory.write_of_lt (by omega)
      | true =>
          unfold writeProvider
          rw [if_pos plain, Memory.write_of_lt (by omega),
            Memory.write_of_lt (by omega)]

/-- The bytes of a provider that no other record touches. -/
theorem writeProviders_plain (plain : fullProvider aureader.caid = false)
    {n i j : Nat} (listed : i < n) (inside : j < 5) :
    writeProviders aureader mbuf n (48 + i * 5 + j) =
      [aureader.prid i 2, aureader.prid i 3, aureader.sa i 0,
        aureader.sa i 1, aureader.sa i 2].getD j 0 := by
  induction n with
  | zero => omega
  | succ n induction =>
      rw [writeProviders_succ, writeProvider_plain plain]
      by_cases last : i = n
      · subst last
        rw [Memory.write_inside (by simp; omega)]
        interval_cases j <;> rfl
      · rw [Memory.write_of_lt (by omega), induction (by omega)]

/-- The sixth byte of a provider is the first one of the next. -/
theorem writeProviders_last (plain : fullProvider aureader.caid = false)
    {n i : Nat} (listed : i < n) :
    writeProviders aureader mbuf n (53 + i * 5) =
      if i + 1 < n then aureader.prid (i + 1) 2 else aureader.sa i 3 := by
  split_ifs with next
  · have place : 53 + i * 5 = 48 + (i + 1) * 5 + 0 := by omega
    rw [place, writeProviders_plain plain next (by omega)]
    rfl
  · obtain rfl : n = i + 1 := by omega
    have place : 53 + i * 5 = 48 + i * 5 + 5 := by omega
    rw [writeProviders_succ, writeProvider_plain plain, place,
      Memory.write_inside (by simp)]
    rfl

/-- The four bytes of a Betacrypt or Irdeto provider. -/
theorem writeProviders_full (full : fullProvider aureader.caid = true)
    {n i : Nat} (listed : i < n) :
    writeProviders aureader mbuf n (48 + i * 5) = aureader.prid i 0 ∧
      ∀ j < 3, writeProviders aureader mbuf n (50 + i * 5 + j) =
        aureader.prid i (j + 1) := by
  induction n with
  | zero => omega
  | succ n induction =>
      rw [writeProviders_succ]
      unfold writeProvider
      rw [if_pos full]
      by_cases last : i = n
      · subst last
        constructor
        · rw [Memory.write_of_lt (by omega), Memory.write_head]
        · intro j inside
          rw [Memory.write_inside (by simpa using inside)]
          interval_cases j <;> rfl
      · obtain ⟨head, rest⟩ := induction (by omega)
        constructor
        · rw [Memory.write_of_lt (by omega), Memory.write_of_lt (by omega),
            head]
        · intro j inside
          rw [Memory.write_of_lt (by omega), Memory.write_of_lt (by omega),
            rest j inside]

/-! ## The message and what arrives of it -/

/-- The card data leave the header alone. -/
theorem cmd05Card_front {place : Nat} (front : place < 20) :
    cmd05Card aureader mbuf place = mbuf place := by
  unfold cmd05Card cmd05Front
  rw [Memory.write_of_lt (by omega), writeProviders_front (by omega),
    Memory.write_of_lt (by omega), Memory.write_of_lt (by omega),
    Memory.write_of_lt (by omega), Memory.write_of_lt (by omega)]

theorem cmd05_command (aureader : AuReader) (er : AuRequest) :
    cmd05 aureader er 0 = 5 ∧ cmd05 aureader er 1 = 111 := by
  have header : cmd05Header aureader er 0 = 5 ∧
      cmd05Header aureader er (0 + 1) = 111 := by
    constructor
    · exact Memory.write_head _ _ _ _
    · exact Memory.write_inside (by decide)
  have kept : ∀ place < 10, cmd05 aureader er place =
      cmd05Header aureader er place := by
    intro place front
    unfold cmd05
    rw [Memory.move, Memory.write_of_lt front]
    split_ifs
    · exact cmd05Card_front (by omega)
    · simp only [List.foldl_cons, List.foldl_nil]
      rw [Memory.write_of_lt (by omega), Memory.write_of_lt (by omega),
        Memory.write_of_lt (by omega), Memory.write_of_lt (by omega),
        Memory.write_of_lt (by omega)]
  exact ⟨(kept 0 (by decide)).trans header.1,
    (kept 1 (by decide)).trans header.2⟩

/-- Behind the header the message holds the flags and the records. -/
theorem cmd05_card (card : aureader.caid ≠ 0) {place : Nat}
    (behind : 12 ≤ place) :
    cmd05 aureader er place = cmd05Card aureader (cmd05Header aureader er)
      place := by
  unfold cmd05
  rw [if_pos card]
  exact Memory.write_of_le (by rw [Memory.length_read]; omega)

theorem frameSize_cmd05 (aureader : AuReader) (er : AuRequest) :
    sendSize (cmd05 aureader er) = 131 ∧
      frameSize (cmd05 aureader er) = 144 := by
  obtain ⟨command, size⟩ := cmd05_command aureader er
  have data : sendSize (cmd05 aureader er) = 131 := by
    simp [sendSize, buflen, command, size]
  refine ⟨data, ?_⟩
  unfold frameSize
  rw [data]

theorem received_cmd05 (crc32 : List UInt8 → Nat) {place : Nat}
    (inside : place < 131) (body : place < 4 ∨ 8 ≤ place) :
    received crc32 old (cmd05 aureader er) place =
      cmd05 aureader er place := by
  obtain ⟨data, frame⟩ := frameSize_cmd05 aureader er
  unfold received
  rw [if_pos (by omega), plainMessage_apply (by omega) body]

/-- From the flags on, what arrives is what the tail says. -/
theorem received_tail (crc32 : List UInt8 → Nat) (card : aureader.caid ≠ 0)
    {place : Nat} (behind : 128 ≤ place) :
    received crc32 old (cmd05 aureader er) place =
      tail aureader old place := by
  obtain ⟨data, frame⟩ := frameSize_cmd05 aureader er
  by_cases flag : place < 131
  · rw [received_cmd05 crc32 flag (.inr (by omega)), cmd05_card card (by omega)]
    unfold cmd05Card
    obtain rfl | rfl | rfl : place = 128 + 0 ∨ place = 128 + 1 ∨
        place = 128 + 2 := by omega
    all_goals
      rw [Memory.write_inside (by simp)]
      rfl
  · have none : place ≠ 128 ∧ place ≠ 129 ∧ place ≠ 130 := by omega
    unfold received tail
    rw [if_neg none.1, if_neg none.2.1, if_neg none.2.2, frame]
    split_ifs with padded
    · exact plainMessage_padding (by omega) (by omega)
    · rfl

/-- In front of the flags, what arrives are the records. -/
theorem received_records (crc32 : List UInt8 → Nat)
    (card : aureader.caid ≠ 0) {place : Nat} (behind : 12 ≤ place)
    (front : place < 128) :
    received crc32 old (cmd05 aureader er) place =
      writeProviders aureader
        (cmd05Front aureader (cmd05Header aureader er)) aureader.nprov
        place := by
  rw [received_cmd05 crc32 (by omega) (.inr (by omega)),
    cmd05_card card behind]
  exact Memory.write_of_lt front

theorem received_front (crc32 : List UInt8 → Nat) (card : aureader.caid ≠ 0)
    {place : Nat} (behind : 12 ≤ place) (front : place < 48) :
    received crc32 old (cmd05 aureader er) place =
      cmd05Front aureader (cmd05Header aureader er) place := by
  rw [received_records crc32 card behind (by omega),
    writeProviders_front front]

/-- The caid, the serial and the number of providers. -/
theorem received_fields (crc32 : List UInt8 → Nat) (er : AuRequest)
    (old : Memory) (card : aureader.caid ≠ 0) (few : aureader.nprov ≤ csMaxprov) :
    UInt16.ofNat ((received crc32 old (cmd05 aureader er)).number 20 2) =
        aureader.caid ∧
      (∀ j < 6, received crc32 old (cmd05 aureader er) (40 + j) =
        aureader.hexserial j) ∧
      (received crc32 old (cmd05 aureader er) 47).toNat = aureader.nprov := by
  have front : ∀ place, 12 ≤ place → place < 48 →
      received crc32 old (cmd05 aureader er) place =
        cmd05Front aureader (cmd05Header aureader er) place :=
    fun place behind below => received_front crc32 card behind below
  have small : aureader.caid.toNat < 2 ^ 16 := aureader.caid.toNat_lt
  refine ⟨?_, ?_, ?_⟩
  · have written : (received crc32 old (cmd05 aureader er)).read 20 2 =
        Memory.digits 2 aureader.caid.toNat := by
      have copied : (received crc32 old (cmd05 aureader er)).read 20 2 =
          (cmd05Front aureader (cmd05Header aureader er)).read 20 2 :=
        Memory.read_congr fun i low high => front i (by omega) (by omega)
      rw [copied]
      have held := Memory.read_write
        ((cmd05Header aureader er).write 39 [1]) 20
        [UInt8.ofNat (aureader.caid.toNat / 256),
          UInt8.ofNat aureader.caid.toNat]
      have kept : (cmd05Front aureader (cmd05Header aureader er)).read 20 2 =
          (((cmd05Header aureader er).write 39 [1]).write 20
            [UInt8.ofNat (aureader.caid.toNat / 256),
              UInt8.ofNat aureader.caid.toNat]).read 20 2 := by
        refine Memory.read_congr fun i low high => ?_
        unfold cmd05Front
        rw [Memory.write_of_lt (by omega), Memory.write_of_lt (by omega)]
      rw [kept]
      refine held.trans ?_
      simp [Memory.digits]
    rw [Memory.number_of_read written,
      Nat.mod_eq_of_lt (show aureader.caid.toNat < 256 ^ 2 from small)]
    exact UInt16.ofNat_toNat
  · intro j inside
    rw [front _ (by omega) (by omega)]
    unfold cmd05Front
    rw [Memory.write_of_lt (by omega),
      Memory.write_inside (by simpa using inside),
      List.getD_eq_getElem _ _ (by simpa using inside)]
    simp
  · rw [front _ (by omega) (by omega)]
    unfold cmd05Front
    unfold csMaxprov at few
    rw [Memory.write_head, UInt8.toNat_ofNat']
    omega

/-- The three flags are set again as they were. -/
theorem blockemm_flags (blockemm : Nat) :
    (if wanted blockemm emmGlobal = 1 then 0 else emmGlobal) |||
        (if wanted blockemm emmShared = 1 then 0 else emmShared) |||
        (if wanted blockemm emmUnique = 1 then 0 else emmUnique) =
      blockemm % 8 := by
  have low : ∀ flag, 7 &&& flag = flag →
      blockemm &&& flag = blockemm % 8 &&& flag := by
    intro flag among
    have mask : blockemm &&& 7 = blockemm % 8 :=
      Nat.and_two_pow_sub_one_eq_mod blockemm 3
    rw [← mask, Nat.and_assoc, among]
  unfold wanted
  rw [low emmGlobal rfl, low emmShared rfl, low emmUnique rfl]
  have small : blockemm % 8 < 8 := Nat.mod_lt _ (by decide)
  generalize blockemm % 8 = flags at small ⊢
  interval_cases flags <;> rfl

/-! ## The providers -/

/-- The records of a card that is not Betacrypt or Irdeto. -/
theorem received_plain (crc32 : List UInt8 → Nat) (card : aureader.caid ≠ 0)
    (plain : fullProvider aureader.caid = false) {i : Nat}
    (listed : i < aureader.nprov) {j : Nat} (inside : j < 5) :
    received crc32 old (cmd05 aureader er) (48 + i * 5 + j) =
      if i < 16 then
        [aureader.prid i 2, aureader.prid i 3, aureader.sa i 0,
          aureader.sa i 1, aureader.sa i 2].getD j 0
      else tail aureader old (48 + i * 5 + j) := by
  split_ifs with front
  · rw [received_records crc32 card (by omega) (by omega),
      writeProviders_plain plain listed inside]
  · exact received_tail crc32 card (by omega)

theorem received_last (crc32 : List UInt8 → Nat) (card : aureader.caid ≠ 0)
    (plain : fullProvider aureader.caid = false) {i : Nat}
    (listed : i < aureader.nprov) :
    received crc32 old (cmd05 aureader er) (53 + i * 5) =
      if i < 15 then
        if i + 1 < aureader.nprov then aureader.prid (i + 1) 2
        else aureader.sa i 3
      else tail aureader old (53 + i * 5) := by
  by_cases front : i < 15
  · rw [if_pos front, received_records crc32 card (by omega) (by omega),
      writeProviders_last plain listed]
  · rw [if_neg front]
    exact received_tail crc32 card (by omega)

theorem received_full (crc32 : List UInt8 → Nat) (card : aureader.caid ≠ 0)
    (full : fullProvider aureader.caid = true) {i : Nat}
    (listed : i < aureader.nprov) :
    received crc32 old (cmd05 aureader er) (48 + i * 5) =
        (if i < 16 then aureader.prid i 0
          else tail aureader old (48 + i * 5)) ∧
      ∀ j < 3, received crc32 old (cmd05 aureader er) (50 + i * 5 + j) =
        if i < 16 then aureader.prid i (j + 1)
        else tail aureader old (50 + i * 5 + j) := by
  by_cases front : i < 16
  · simp only [if_pos front]
    constructor
    · rw [received_records crc32 card (by omega) (by omega)]
      exact (writeProviders_full full listed).1
    · intro j inside
      rw [received_records crc32 card (by omega) (by omega)]
      exact (writeProviders_full full listed).2 j inside
  · simp only [if_neg front]
    exact ⟨received_tail crc32 card (by omega),
      fun j _ => received_tail crc32 card (by omega)⟩

/-- The bytes in the places of a Betacrypt or Irdeto provider. -/
theorem bytes_full_iff (crc32 : List UInt8 → Nat) (er : AuRequest)
    (card : aureader.caid ≠ 0) (full : fullProvider aureader.caid = true)
    {i : Nat} (listed : i < aureader.nprov) :
    (received crc32 old (cmd05 aureader er) (48 + i * 5) =
        aureader.prid i 0 ∧
      ∀ j < 3, received crc32 old (cmd05 aureader er) (50 + i * 5 + j) =
        aureader.prid i (j + 1)) ↔
      ProviderCarried aureader old i := by
  unfold ProviderCarried
  rw [if_pos full]
  obtain ⟨head, rest⟩ :
      received crc32 old (cmd05 aureader er) (48 + i * 5) =
          (if i < 16 then aureader.prid i 0
            else tail aureader old (48 + i * 5)) ∧
        ∀ j < 3, received crc32 old (cmd05 aureader er) (50 + i * 5 + j) =
          if i < 16 then aureader.prid i (j + 1)
          else tail aureader old (50 + i * 5 + j) :=
    received_full crc32 card full listed
  by_cases front : i < 16
  · rw [head, if_pos front]
    refine iff_of_true ⟨rfl, fun j inside => ?_⟩ fun far => by omega
    rw [rest j inside, if_pos front]
  · rw [head, if_neg front]
    constructor
    · rintro ⟨first, others⟩ _
      refine ⟨first.symm, fun j inside => ?_⟩
      rw [← others j inside, rest j inside, if_neg front]
    · intro held
      obtain ⟨first, others⟩ := held (by omega)
      refine ⟨first.symm, fun j inside => ?_⟩
      rw [rest j inside, if_neg front, others j inside]

variable (old) in
/-- The bytes of another provider that no later record overwrites. -/
theorem received_plain_bytes (crc32 : List UInt8 → Nat) (er : AuRequest)
    (card : aureader.caid ≠ 0) (plain : fullProvider aureader.caid = false)
    {i : Nat} (listed : i < aureader.nprov) :
    received crc32 old (cmd05 aureader er) (48 + i * 5) =
        (if i < 16 then aureader.prid i 2
          else tail aureader old (48 + i * 5)) ∧
      received crc32 old (cmd05 aureader er) (49 + i * 5) =
        (if i < 16 then aureader.prid i 3
          else tail aureader old (49 + i * 5)) ∧
      ∀ j < 3, received crc32 old (cmd05 aureader er) (50 + i * 5 + j) =
        if i < 16 then aureader.sa i j
        else tail aureader old (50 + i * 5 + j) := by
  have record : ∀ {j : Nat}, j < 5 →
      received crc32 old (cmd05 aureader er) (48 + i * 5 + j) =
        if i < 16 then
          [aureader.prid i 2, aureader.prid i 3, aureader.sa i 0,
            aureader.sa i 1, aureader.sa i 2].getD j 0
        else tail aureader old (48 + i * 5 + j) :=
    fun inside => received_plain crc32 card plain listed inside
  refine ⟨record (j := 0) (by omega), ?high, ?address⟩
  case high =>
    have place : 49 + i * 5 = 48 + i * 5 + 1 := by omega
    rw [place]
    exact record (j := 1) (by omega)
  case address =>
    intro j inside
    have place : 50 + i * 5 + j = 48 + i * 5 + (j + 2) := by omega
    rw [place, record (j := j + 2) (by omega)]
    interval_cases j <;> rfl

/-- The bytes in the places of another provider. -/
theorem bytes_plain_iff (crc32 : List UInt8 → Nat) (er : AuRequest)
    (card : aureader.caid ≠ 0) (plain : fullProvider aureader.caid = false)
    {i : Nat} (listed : i < aureader.nprov) :
    (received crc32 old (cmd05 aureader er) (48 + i * 5) =
        aureader.prid i 2 ∧
      received crc32 old (cmd05 aureader er) (49 + i * 5) =
        aureader.prid i 3 ∧
      ∀ j < 4, received crc32 old (cmd05 aureader er) (50 + i * 5 + j) =
        aureader.sa i j) ↔
      ProviderCarried aureader old i := by
  unfold ProviderCarried
  rw [if_neg (by simp [plain])]
  have last : received crc32 old (cmd05 aureader er) (53 + i * 5) =
      if i < 15 then
        if i + 1 < aureader.nprov then aureader.prid (i + 1) 2
        else aureader.sa i 3
      else tail aureader old (53 + i * 5) :=
    received_last crc32 card plain listed
  obtain ⟨low, high, address⟩ :=
    received_plain_bytes old crc32 er card plain listed
  have split : (∀ j < 4, received crc32 old (cmd05 aureader er)
      (50 + i * 5 + j) = aureader.sa i j) ↔
        (∀ j < 3, received crc32 old (cmd05 aureader er) (50 + i * 5 + j) =
          aureader.sa i j) ∧
        received crc32 old (cmd05 aureader er) (53 + i * 5) =
          aureader.sa i 3 := by
    have place : 53 + i * 5 = 50 + i * 5 + 3 := by omega
    rw [place]
    constructor
    · exact fun all => ⟨fun j inside => all j (by omega), all 3 (by omega)⟩
    · rintro ⟨three, fourth⟩ j inside
      by_cases at_ : j = 3
      · rw [at_, fourth]
      · exact three j (by omega)
  rw [split, low, high, last]
  by_cases front : i < 16
  · have kept : ∀ j < 3, received crc32 old (cmd05 aureader er)
        (50 + i * 5 + j) = aureader.sa i j := by
      intro j inside
      rw [address j inside, if_pos front]
    rw [if_pos front, if_pos front]
    by_cases before : i < 15
    · rw [if_pos before]
      constructor
      · rintro ⟨_, _, _, fourth⟩
        refine ⟨fun _ next => ?_, fun far => by omega, fun far => by omega⟩
        rw [if_pos next] at fourth
        exact fourth.symm
      · rintro ⟨overlap, _, _⟩
        refine ⟨rfl, rfl, kept, ?_⟩
        split_ifs with next
        · exact (overlap before next).symm
        · rfl
    · rw [if_neg before]
      constructor
      · rintro ⟨_, _, _, fourth⟩
        exact ⟨fun near => absurd near before, fun _ => fourth.symm,
          fun far => by omega⟩
      · rintro ⟨_, flag, _⟩
        exact ⟨rfl, rfl, kept, (flag (by omega)).symm⟩
  · rw [if_neg front, if_neg front, if_neg (by omega)]
    constructor
    · rintro ⟨first, second, three, fourth⟩
      refine ⟨fun near => by omega, fun _ => fourth.symm,
        fun _ => ⟨first.symm, second.symm, fun j inside => ?_⟩⟩
      rw [← three j inside, address j inside, if_neg front]
    · rintro ⟨_, flag, held⟩
      obtain ⟨first, second, three⟩ := held (by omega)
      refine ⟨first.symm, second.symm, fun j inside => ?_,
        (flag (by omega)).symm⟩
      rw [address j inside, if_neg front, three j inside]

/-- Without a card the message announces caid 0100. -/
theorem received_disabled (crc32 : List UInt8 → Nat)
    (none : aureader.caid = 0) :
    UInt16.ofNat ((received crc32 old (cmd05 aureader er)).number 20 2) =
      0x0100 := by
  have bytes : received crc32 old (cmd05 aureader er) 20 = 1 ∧
      received crc32 old (cmd05 aureader er) 21 = 0 := by
    constructor
    · rw [received_cmd05 crc32 (by decide) (.inr (by decide)), cmd05,
        if_neg (not_not.mpr none), Memory.move,
        Memory.write_of_le (by rw [Memory.length_read]; decide)]
      rfl
    · rw [received_cmd05 crc32 (by decide) (.inr (by decide)), cmd05,
        if_neg (not_not.mpr none), Memory.move,
        Memory.write_of_le (by rw [Memory.length_read]; decide)]
      simp only [List.foldl_cons, List.foldl_nil]
      rw [Memory.write_of_lt (by decide), Memory.write_of_lt (by decide),
        Memory.write_of_lt (by decide), Memory.write_of_lt (by decide),
        Memory.write_of_le (by decide)]
      unfold cmd05Header
      rw [Memory.write_of_le (by decide),
        Memory.write_of_le (by rw [Memory.length_digits]; decide),
        Memory.write_of_le (by rw [Memory.length_digits]; decide),
        Memory.write_of_le (by rw [Memory.length_digits]; decide),
        Memory.write_of_le (by decide)]
      rfl
  have number : (received crc32 old (cmd05 aureader er)).number 20 2 =
      0x0100 := by
    have read : (received crc32 old (cmd05 aureader er)).read 20 2 =
        [received crc32 old (cmd05 aureader er) 20,
          received crc32 old (cmd05 aureader er) 21] := rfl
    rw [Memory.number, read, bytes.1, bytes.2]
    rfl
  rw [number]
  rfl

/-- The message is one that `camd35_recv_chk` takes apart. -/
theorem received_marked (crc32 : List UInt8 → Nat) (old : Memory)
    (aureader : AuReader) (er : AuRequest) :
    received crc32 old (cmd05 aureader er) 0 = 5 ∧
      received crc32 old (cmd05 aureader er) 1 = 111 := by
  rw [received_cmd05 crc32 (by decide) (.inl (by decide)),
    received_cmd05 crc32 (by decide) (.inl (by decide))]
  exact cmd05_command aureader er

theorem recvChk_full {buf : Memory} (rdr : AuReader) {i : Nat}
    (marked : buf 0 = 5 ∧ buf 1 = 111) (listed : i < (buf 47).toNat)
    (full : fullProvider (UInt16.ofNat (buf.number 20 2)) = true) :
    (recvChk rdr buf).prid i 0 = buf (48 + i * 5) ∧
      ∀ j < 3, (recvChk rdr buf).prid i (j + 1) = buf (50 + i * 5 + j) := by
  unfold recvChk
  rw [if_pos marked]
  simp only [if_pos listed, if_pos full]
  refine ⟨rfl, fun j inside => ?_⟩
  rw [if_neg (by omega), if_pos (by omega), Nat.add_sub_cancel]

theorem recvChk_plain {buf : Memory} (rdr : AuReader) {i : Nat}
    (marked : buf 0 = 5 ∧ buf 1 = 111) (listed : i < (buf 47).toNat)
    (plain : fullProvider (UInt16.ofNat (buf.number 20 2)) = false) :
    (recvChk rdr buf).prid i 2 = buf (48 + i * 5) ∧
      (recvChk rdr buf).prid i 3 = buf (49 + i * 5) ∧
      ∀ j < 4, (recvChk rdr buf).sa i j = buf (50 + i * 5 + j) := by
  unfold recvChk
  rw [if_pos marked]
  simp only [if_pos listed, plain, Bool.false_eq_true, if_false,
    not_false_eq_true, true_and]
  refine ⟨rfl, rfl, fun j inside => ?_⟩
  rw [if_pos ⟨listed, inside⟩]

theorem sameProvider_iff (crc32 : List UInt8 → Nat) (rdr : AuReader)
    (card : aureader.caid ≠ 0) (few : aureader.nprov ≤ csMaxprov) {i : Nat}
    (listed : i < aureader.nprov) :
    SameProvider aureader
        (recvChk rdr (received crc32 old (cmd05 aureader er))) i ↔
      ProviderCarried aureader old i := by
  have marked := received_marked crc32 old aureader er
  obtain ⟨caid, _, count⟩ := received_fields crc32 er old card few
  have there : i < (received crc32 old (cmd05 aureader er) 47).toNat := by
    rwa [count]
  unfold SameProvider
  cases kind : fullProvider aureader.caid with
  | true =>
      obtain ⟨head, rest⟩ := recvChk_full rdr marked there
        (by rw [caid, kind])
      rw [if_pos rfl, ← bytes_full_iff crc32 er card kind listed]
      constructor
      · intro same
        refine ⟨head.symm.trans (same 0 (by decide)), fun j inside => ?_⟩
        exact (rest j inside).symm.trans (same (j + 1) (by omega))
      · rintro ⟨first, others⟩ j inside
        rcases j with _ | j
        · exact head.trans first
        · exact (rest j (by omega)).trans (others j (by omega))
  | false =>
      obtain ⟨low, high, address⟩ := recvChk_plain rdr marked there
        (by rw [caid, kind])
      rw [if_neg (by decide), ← bytes_plain_iff crc32 er card kind listed,
        low, high]
      refine and_congr_right fun _ => and_congr_right fun _ => ?_
      exact forall₂_congr fun j inside => by rw [address j inside]

/-- The card data arrive exactly when the bytes are carried.  `old` is what the
buffer of the receiver held before. -/
theorem sameCard_iff (crc32 : List UInt8 → Nat) (er : AuRequest)
    (rdr : AuReader) (old : Memory) (few : aureader.nprov ≤ csMaxprov) :
    SameCard aureader
        (recvChk rdr (received crc32 old (cmd05 aureader er))) ↔
      Carried aureader old := by
  have marked := received_marked crc32 old aureader er
  by_cases card : aureader.caid = 0
  · refine iff_of_false ?_ fun carried => carried.1 card
    intro same
    have caid := same.caid
    unfold recvChk at caid
    rw [if_pos marked] at caid
    have wrong : (0x0100 : UInt16) = 0 := by
      rw [← received_disabled crc32 card]
      exact caid.trans card
    exact absurd wrong (by decide)
  · obtain ⟨caid, serial, count⟩ :=
      received_fields crc32 er old card few
    have flag : ∀ place, 128 ≤ place →
        received crc32 old (cmd05 aureader er) place =
          tail aureader old place :=
      fun place behind => received_tail crc32 card behind
    have flags : (recvChk rdr (received crc32 old
        (cmd05 aureader er))).blockemm = aureader.blockemm % 8 := by
      unfold recvChk
      rw [if_pos marked]
      simp only [flag 128 (by decide), flag 129 (by decide),
        flag 130 (by decide)]
      exact blockemm_flags aureader.blockemm
    constructor
    · intro same
      refine ⟨card, ?_, fun i listed => ?_⟩
      · have set_ := same.blockemm
        omega
      · exact (sameProvider_iff crc32 rdr card few listed).mp
          (same.provider i listed)
    · rintro ⟨_, blockemm, provider⟩
      refine ⟨?_, fun j inside => ?_, ?_, fun i listed => ?_, by omega⟩
      · unfold recvChk
        rw [if_pos marked]
        exact caid
      · unfold recvChk
        rw [if_pos marked]
        simp only [if_pos inside]
        exact serial j inside
      · unfold recvChk
        rw [if_pos marked]
        exact count
      · exact (sameProvider_iff crc32 rdr card few listed).mpr
          (provider i listed)

end Records

/-- Over TCP, the buffer of the receiver is the one described. -/
theorem recv_cmd05 {env : Env} {aes : List UInt8 → List UInt8}
    {ucrc : List UInt8} {first second : Nat} (paired : Paired env aes ucrc)
    (all : 36 ≤ first) (enough : 112 ≤ second) (rbuf m : Memory)
    (more : List UInt8) (aureader : AuReader) (er : AuRequest) :
    ∃ m' : Memory, recv env (tcpInput
        (send aes env.crc32 ucrc rbuf (cmd05 aureader er) ++ more)
        first second) m = some (144, m') ∧
      ∀ i, m' i = received env.crc32 m (cmd05 aureader er) i := by
  obtain ⟨data, frame⟩ := frameSize_cmd05 aureader er
  have command : cmd05 aureader er 0 ≠ 4 := by
    rw [(cmd05_command aureader er).1]
    decide
  have room : frameSize (cmd05 aureader er) ≤ 32 + second := by omega
  obtain ⟨m', result, _, inside, behind⟩ :=
    recv_full rbuf m more paired command all room
  refine ⟨m', by rw [result, frame]; rfl, fun i => ?_⟩
  unfold received
  split_ifs with small
  · rw [inside i small]
    exact plainMessage_stack Memory.zero (by omega)
  · exact behind i (by omega) (by omega)

/-! ## A card with two providers -/

/-- A Viaccess card: two providers with their shared addresses. -/
def twoProviders (last : UInt8) : AuReader :=
  { caid := 0x0500, hexserial := fun j => UInt8.ofNat j, nprov := 2
    prid := fun i j => [[0, 0x02, 0x38, 0x10], [0, 0x02, 0x41, 0x10]]
      |>.getD i [] |>.getD j 0
    sa := fun i j => [[0x12, 0x34, 0x56, last], [0x9a, 0xbc, 0xde, 0xf0]]
      |>.getD i [] |>.getD j 0
    auprovid := 0, blockemm := 0 }

theorem sameCard_iff_two :
    SameCard (twoProviders 0x41)
        (recvChk (twoProviders 0) (received (fun _ => 0) Memory.zero
          (cmd05 (twoProviders 0x41) { srvid := 1, prid := 0, pid := 2 }))) ↔
      Carried (twoProviders 0x41) Memory.zero :=
  sameCard_iff (fun _ => 0) { srvid := 1, prid := 0, pid := 2 }
    (twoProviders 0) Memory.zero (by decide)

/-- The last byte of the first shared address does not arrive. -/
theorem not_sameCard_two :
    ¬ SameCard (twoProviders 0x78)
        (recvChk (twoProviders 0) (received (fun _ => 0) Memory.zero
          (cmd05 (twoProviders 0x78) { srvid := 1, prid := 0, pid := 2 }))) :=
    by
  intro same
  have carried := (sameProvider_iff (fun _ => 0) (twoProviders 0)
    (by decide) (by decide) (by decide)).mp (same.provider 0 (by decide))
  exact absurd (carried.1 (by decide) (by decide)) (by decide)

end Oscam.Camd35
