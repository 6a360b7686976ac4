import Oscam.Csctapi.ProtocolT1

/-!
# The chain of I-blocks of a T=1 command

A card that acknowledges every chained block gets the whole command, in pieces
that fit into its information field.
-/

namespace Oscam.T1

open Exchange (toggle)

/-! ## What the card is to see -/

/-- The I-blocks that were sent. -/
def Outcome.iBlocks (outcome : Outcome) : List Block :=
  outcome.exchange.sent.filter Block.isI

/-- The number of blocks in front of the last one. -/
def chainedBlocks (commandLen ifsc : Nat) : Nat := (commandLen - 1) / ifsc

/-- The card answers each chained block with a positive R-block. -/
def Acknowledged (commandLen ifsc : Nat) (incoming : List Block) : Prop :=
  ∀ i < chainedBlocks commandLen ifsc,
    ∃ block, incoming[i]? = some block ∧ block.getType = typeROk

/-- The sequence number that is so many blocks behind another one. -/
def nsBehind (first : UInt8) (k : Nat) : UInt8 :=
  if k % 2 = 0 then first else toggle first

/-- Blocks that carry a command. -/
structure Carries (blocks : List Block) (command : List UInt8) (ifsc : Nat)
    (first : UInt8) : Prop where
  pieces : (blocks.map Block.getInf).flatten = command
  fits : ∀ block ∈ blocks, block.getInf.length ≤ ifsc
  more : ∀ i block, blocks[i]? = some block →
    (block.getMore = true ↔ i + 1 < blocks.length)
  ns : ∀ i block, blocks[i]? = some block → block.getNS = nsBehind first i
  len : ∀ block ∈ blocks,
    (block.data.getD 2 0).toNat = block.getInf.length ∧
      block.data.length = block.getInf.length + 4
  lrc : ∀ block ∈ blocks, block.lrcOk = true

/-! ## The blocks of the loop -/

theorem isBit_toggle (ns : UInt8) : Block.IsBit (toggle ns) := by
  unfold toggle
  split
  · exact .inl rfl
  · exact .inr rfl

theorem isBit_mod (nr : UInt8) : Block.IsBit (nr % 2) := by
  have cases : (nr % 2).toNat = 0 ∨ (nr % 2).toNat = 1 := by
    rw [UInt8.toNat_mod]
    exact Nat.mod_two_eq_zero_or_one nr.toNat
  rcases cases with zero | one
  · exact .inl (UInt8.toNat_inj.mp zero)
  · exact .inr (UInt8.toNat_inj.mp one)

theorem toggle_toggle {ns : UInt8} (bit : Block.IsBit ns) :
    toggle (toggle ns) = ns := by
  rcases bit with rfl | rfl <;> rfl

variable {first : UInt8} {commandLen ifsc : Nat}

theorem isBit_nsBehind (bit : Block.IsBit first) (k : Nat) :
    Block.IsBit (nsBehind first k) := by
  unfold nsBehind
  split
  · exact bit
  · exact isBit_toggle first

theorem toggle_nsBehind (bit : Block.IsBit first) (k : Nat) :
    toggle (nsBehind first k) = nsBehind first (k + 1) := by
  unfold nsBehind
  by_cases even : k % 2 = 0
  · rw [if_pos even, if_neg (by omega)]
  · rw [if_neg even, if_pos (by omega), toggle_toggle bit]

/-- The length of the `k`th piece. -/
def pieceLength (commandLen ifsc k : Nat) : Nat := min (commandLen - k * ifsc) ifsc

/-- The `k`th block of the chain. -/
def chainBlock (command : Memory) (commandLen ifsc : Nat) (first : UInt8)
    (k : Nat) : Block :=
  .newIBlock (UInt8.ofNat (pieceLength commandLen ifsc k))
    (command.shift (k * ifsc)) (nsBehind first k)
    (decide (ifsc < commandLen - k * ifsc))

/-- The first block of the chain. -/
theorem chainBlock_zero (command : Memory) :
    chainBlock command commandLen ifsc first 0 =
      .newIBlock (UInt8.ofNat (min commandLen ifsc)) command first
        (decide (ifsc < commandLen)) := by
  rw [chainBlock, pieceLength, Nat.zero_mul, Nat.sub_zero, Memory.shift_zero]
  rfl

/-- More bytes are left for a block in front of the last one. -/
theorem more_iff (some : 0 < ifsc) (k : Nat) :
    ifsc < commandLen - k * ifsc ↔ k < chainedBlocks commandLen ifsc := by
  have blocks : k + 1 ≤ (commandLen - 1) / ifsc ↔
      (k + 1) * ifsc ≤ commandLen - 1 := Nat.le_div_iff_mul_le some
  rw [Nat.add_mul, Nat.one_mul] at blocks
  unfold chainedBlocks
  omega

theorem toNat_pieceLength (byte : ifsc ≤ 255) (k : Nat) :
    (UInt8.ofNat (pieceLength commandLen ifsc k)).toNat =
      pieceLength commandLen ifsc k := by
  rw [UInt8.toNat_ofNat']
  unfold pieceLength
  omega

section

variable (transmits : Nat → Bool) (heap : Memory)

/-- No more I-blocks are sent while the response comes. -/
theorem iBlocks_respond (incoming : List Block) (s : Exchange)
    (buffer : Memory) (counter : Nat) :
    (respond transmits incoming s buffer counter).iBlocks =
      s.sent.filter Block.isI := by
  induction incoming generalizing s buffer counter with
  | nil => rfl
  | cons block incoming induction =>
      have other {answer : Block} (noI : answer.isI = false) (s : Exchange) :
          (s.send answer).sent.filter Block.isI = s.sent.filter Block.isI := by
        simp [Exchange.send, noI]
      unfold respond
      dsimp only
      split
      · split
        · have nr := Block.isI_newRBlock (isBit_mod (block.getNS + 1))
          split
          · rw [induction, other nr]
            rfl
          · exact other nr (s.receive block)
        · rfl
      · split
        · split
          · rfl
          · split
            · rw [induction, other Block.isI_newSBlock]
              rfl
            · exact other Block.isI_newSBlock (s.receive block)
        · rfl

/-- The loop goes on from the `k`th block to the last one. -/
theorem iBlocks_sendChain (command : Memory) (some : 0 < ifsc)
    (byte : ifsc ≤ 255) (short : commandLen < 2 ^ 16)
    (bit : Block.IsBit first) (incoming : List Block) (left k : Nat)
    (rest : k + left = chainedBlocks commandLen ifsc)
    (acknowledged : ∀ i < left,
      ∃ block, incoming[i]? = .some block ∧ block.getType = typeROk)
    (s : Exchange) (ns : s.ns = nsBehind first k) :
    (sendChain transmits command commandLen ifsc heap incoming s (k * ifsc)
        (UInt8.ofNat (pieceLength commandLen ifsc k))
        (decide (ifsc < commandLen - k * ifsc))).iBlocks =
      s.sent.filter Block.isI ++
        (List.range left).map fun i =>
          chainBlock command commandLen ifsc first (k + 1 + i) := by
  induction left generalizing incoming k s with
  | zero =>
      have last : decide (ifsc < commandLen - k * ifsc) = false := by
        rw [decide_eq_false_iff_not, more_iff some]
        omega
      rw [last, List.range_zero, List.map_nil, List.append_nil]
      unfold sendChain
      exact iBlocks_respond transmits incoming s heap 0
  | succ left induction =>
      have more : ifsc < commandLen - k * ifsc := by
        rw [more_iff some]
        omega
      obtain ⟨block, head, ack⟩ := acknowledged 0 (Nat.succ_pos left)
      cases incoming with
      | nil => simp at head
      | cons received incoming =>
          obtain rfl : received = block := by simpa using head
          have whole : pieceLength commandLen ifsc k = ifsc := by
            unfold pieceLength
            omega
          have counter : (k * ifsc +
              (UInt8.ofNat (pieceLength commandLen ifsc k)).toNat) % 2 ^ 16 =
                (k + 1) * ifsc := by
            rw [toNat_pieceLength byte, whole, Nat.add_mul, Nat.one_mul]
            omega
          have turn : sendChain transmits command commandLen ifsc heap
              (received :: incoming) s (k * ifsc)
              (UInt8.ofNat (pieceLength commandLen ifsc k)) true =
                sendChain transmits command commandLen ifsc heap incoming
                  (({ s.receive received with
                      ns := nsBehind first (k + 1) } : Exchange).send
                    (chainBlock command commandLen ifsc first (k + 1)))
                  ((k + 1) * ifsc)
                  (UInt8.ofNat (pieceLength commandLen ifsc (k + 1)))
                  (decide (ifsc < commandLen - (k + 1) * ifsc)) := by
            have behind : toggle (s.receive received).ns =
                nsBehind first (k + 1) := by
              rw [← toggle_nsBehind bit, ← ns]
              rfl
            simp only [sendChain, if_pos ack, counter, behind]
            rfl
          have later (i : Nat) (below : i < left) :
              ∃ block, incoming[i]? = .some block ∧
                block.getType = typeROk := by
            have follows := acknowledged (i + 1) (by omega)
            simpa using follows
          have isI : (chainBlock command commandLen ifsc first (k + 1)).isI =
              true := Block.isI_newIBlock (isBit_nsBehind bit (k + 1))
          rw [decide_eq_true more, turn,
            induction incoming (k + 1) (by omega) later _ rfl,
            List.range_succ_eq_map, List.map_cons, List.map_map]
          simp [Exchange.send, Exchange.receive, isI, Function.comp_def,
            Nat.add_comm, Nat.add_left_comm]

end

/-! ## What the chain carries -/

theorem getInf_chainBlock (byte : ifsc ≤ 255) (command : Memory) (k : Nat) :
    (chainBlock command commandLen ifsc first k).getInf =
      command.read (k * ifsc) (pieceLength commandLen ifsc k) := by
  have field : (chainBlock command commandLen ifsc first k).getInf =
      (command.shift (k * ifsc)).read 0
        (UInt8.ofNat (pieceLength commandLen ifsc k)).toNat :=
    Block.getInf_make
  rw [field, toNat_pieceLength byte, Memory.read_shift, Nat.add_zero]

/-- The pieces up to some block that is not the last. -/
theorem flatten_pieces (some : 0 < ifsc) (byte : ifsc ≤ 255)
    (command : Memory) (k : Nat) (inside : k ≤ chainedBlocks commandLen ifsc) :
    ((List.range k).map fun i =>
        (chainBlock command commandLen ifsc first i).getInf).flatten =
      command.read 0 (k * ifsc) := by
  induction k with
  | zero => simp [Memory.read]
  | succ k induction =>
      have more : ifsc < commandLen - k * ifsc := by
        rw [more_iff some]
        omega
      have whole : pieceLength commandLen ifsc k = ifsc := by
        unfold pieceLength
        omega
      rw [List.range_succ, List.map_append, List.flatten_append,
        induction (by omega), List.map_singleton, List.flatten_singleton,
        getInf_chainBlock byte, whole, Nat.add_mul, Nat.one_mul,
        Memory.read_add, Nat.zero_add]

/-- The pieces of all blocks. -/
theorem flatten_chain (some : 0 < ifsc) (byte : ifsc ≤ 255)
    (command : Memory) :
    ((List.range (chainedBlocks commandLen ifsc + 1)).map fun i =>
        (chainBlock command commandLen ifsc first i).getInf).flatten =
      command.read 0 commandLen := by
  have last : ¬ ifsc < commandLen -
      chainedBlocks commandLen ifsc * ifsc := by
    rw [more_iff some]
    exact Nat.lt_irrefl _
  have before : chainedBlocks commandLen ifsc * ifsc ≤ commandLen - 1 :=
    Nat.div_mul_le_self (commandLen - 1) ifsc
  have rest : pieceLength commandLen ifsc (chainedBlocks commandLen ifsc) =
      commandLen - chainedBlocks commandLen ifsc * ifsc := by
    unfold pieceLength
    omega
  have whole : chainedBlocks commandLen ifsc * ifsc +
      (commandLen - chainedBlocks commandLen ifsc * ifsc) = commandLen := by
    omega
  rw [List.range_succ, List.map_append, List.flatten_append,
    flatten_pieces some byte command _ (Nat.le_refl _), List.map_singleton,
    List.flatten_singleton, getInf_chainBlock byte, rest]
  calc command.read 0 (chainedBlocks commandLen ifsc * ifsc) ++
        command.read (chainedBlocks commandLen ifsc * ifsc)
          (commandLen - chainedBlocks commandLen ifsc * ifsc)
      = command.read 0 (chainedBlocks commandLen ifsc * ifsc +
          (commandLen - chainedBlocks commandLen ifsc * ifsc)) := by
        rw [Memory.read_add, Nat.zero_add]
    _ = command.read 0 commandLen := by rw [whole]

theorem carries_chain (some : 0 < ifsc) (byte : ifsc ≤ 255)
    (bit : Block.IsBit first) (command : Memory) :
    Carries
      ((List.range (chainedBlocks commandLen ifsc + 1)).map
        (chainBlock command commandLen ifsc first))
      (command.read 0 commandLen) ifsc first := by
  have nth (i : Nat) (block : Block)
      (here : ((List.range (chainedBlocks commandLen ifsc + 1)).map
        (chainBlock command commandLen ifsc first))[i]? = .some block) :
      i < chainedBlocks commandLen ifsc + 1 ∧
        block = chainBlock command commandLen ifsc first i := by
    rw [List.getElem?_map, Option.map_eq_some_iff] at here
    obtain ⟨j, entry, rfl⟩ := here
    obtain ⟨inside, same⟩ := List.getElem?_eq_some_iff.mp entry
    rw [List.length_range] at inside
    rw [List.getElem_range] at same
    exact ⟨inside, same ▸ rfl⟩
  exact
    { pieces := by
        rw [List.map_map]
        exact flatten_chain some byte command
      fits := by
        intro block member
        obtain ⟨i, -, rfl⟩ := List.mem_map.mp member
        rw [getInf_chainBlock byte, Memory.length_read]
        exact Nat.min_le_right _ _
      more := by
        intro i block here
        obtain ⟨-, rfl⟩ := nth i block here
        have more : (chainBlock command commandLen ifsc first i).getMore =
            decide (ifsc < commandLen - i * ifsc) :=
          Block.getMore_newIBlock (isBit_nsBehind bit i)
        rw [more, decide_eq_true_iff, more_iff some, List.length_map,
          List.length_range]
        omega
      ns := by
        intro i block here
        obtain ⟨-, rfl⟩ := nth i block here
        exact Block.getNS_newIBlock (isBit_nsBehind bit i)
      len := by
        intro block _
        have size := block.length_getInf
        have whole := block.whole
        unfold Block.getLen at size
        omega
      lrc := by
        intro block member
        obtain ⟨i, -, rfl⟩ := List.mem_map.mp member
        exact Block.lrcOk_make }

/-- The command arrives. -/
theorem carries_iBlocks (transmits : Nat → Bool) (reader : Reader)
    (command : Memory) (commandLen : Nat) (heap : Memory) (line : List UInt8)
    (short : commandLen < 2 ^ 16) (noIfs : command 1 ≠ typeSIfsReq)
    (noResynch : command 1 ≠ typeSResynchReq) (some : 1 ≤ reader.ifsc.toNat)
    (fits : reader.ifsc.toNat ≤ 251)
    (acknowledged : Acknowledged commandLen reader.ifsc.toNat
      (receiveBlocks line.length line)) :
    Carries
      (runCommand transmits reader command commandLen heap line).iBlocks
      (command.read 0 commandLen) reader.ifsc.toNat (toggle reader.ns) := by
  have bit := isBit_toggle reader.ns
  have byte : reader.ifsc.toNat ≤ 255 := by omega
  have start : runCommand transmits reader command commandLen heap line =
      sendChain transmits command commandLen reader.ifsc.toNat heap
        (receiveBlocks line.length line)
        (({ ns := toggle reader.ns, sent := [], received := [] } :
          Exchange).send (chainBlock command commandLen reader.ifsc.toNat
            (toggle reader.ns) 0)) (0 * reader.ifsc.toNat)
        (UInt8.ofNat (pieceLength commandLen reader.ifsc.toNat 0))
        (decide (reader.ifsc.toNat <
          commandLen - 0 * reader.ifsc.toNat)) := by
    unfold runCommand protocolT1Command
    dsimp only
    rw [if_neg noIfs, if_neg noResynch, chainBlock_zero, pieceLength,
      Nat.zero_mul, Nat.sub_zero]
  have sent := iBlocks_sendChain transmits heap command some byte short bit
    (receiveBlocks line.length line)
    (chainedBlocks commandLen reader.ifsc.toNat) 0 (Nat.zero_add _)
    acknowledged
    (({ ns := toggle reader.ns, sent := [], received := [] } : Exchange).send
      (chainBlock command commandLen reader.ifsc.toNat (toggle reader.ns) 0))
    rfl
  have isI : (chainBlock command commandLen reader.ifsc.toNat
      (toggle reader.ns) 0).isI = true :=
    Block.isI_newIBlock (isBit_nsBehind bit 0)
  have blocks : (runCommand transmits reader command commandLen heap
      line).iBlocks = (List.range (chainedBlocks commandLen
        reader.ifsc.toNat + 1)).map (chainBlock command commandLen
          reader.ifsc.toNat (toggle reader.ns)) := by
    rw [start, sent, List.range_succ_eq_map, List.map_cons, List.map_map]
    simp [Exchange.send, isI, Function.comp_def, Nat.add_comm]
  rw [blocks]
  exact carries_chain some byte bit command

/-- Three bytes to a card that takes two at a time. -/
theorem carries_iBlocks_two :
    Carries
      (runCommand (fun _ => true) { ns := 0, ifsc := 2 } Memory.zero 3
        Memory.zero [0, 0x80, 0, 0x80, 0, 0, 1, 7, 6]).iBlocks
      (Memory.zero.read 0 3) 2 1 := by
  have acknowledged : Acknowledged 3 2
      (receiveBlocks 9 [0, 0x80, 0, 0x80, 0, 0, 1, 7, 6]) := by
    intro i below
    obtain rfl : i = 0 := by
      have one : chainedBlocks 3 2 = 1 := rfl
      omega
    exact ⟨_, rfl, rfl⟩
  exact carries_iBlocks (fun _ => true) { ns := 0, ifsc := 2 } Memory.zero 3
    Memory.zero [0, 0x80, 0, 0x80, 0, 0, 1, 7, 6] (by decide) (by decide)
    (by decide) (by decide) (by decide) acknowledged

end Oscam.T1
