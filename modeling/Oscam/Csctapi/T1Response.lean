import Oscam.Csctapi.ProtocolT1

/-!
# The response of a T=1 card

`Protocol_T1_Command` takes the information field of every I-block it gets.
Blocks that are corrupted or repeated are told from the others only here.
-/

namespace Oscam.T1

/-! ## What the response should be -/

/-- An I-block that may follow one with some sequence number: the checksum is
right, and it is not the same block again. -/
def Block.follows (block : Block) (last : Option UInt8) : Bool :=
  block.isI && block.lrcOk && last != some block.getNS

/-- The good I-blocks. -/
def accepted : Option UInt8 → List Block → List Block
  | _, [] => []
  | last, block :: blocks =>
      if block.follows last then block :: accepted (some block.getNS) blocks
      else accepted last blocks

/-- The I-blocks that are corrupted or repeated. -/
def rejected : Option UInt8 → List Block → List Block
  | _, [] => []
  | last, block :: blocks =>
      if block.follows last then rejected (some block.getNS) blocks
      else if block.isI then block :: rejected last blocks
      else rejected last blocks

/-- The information fields of all I-blocks. -/
def infs (blocks : List Block) : List (List UInt8) :=
  (blocks.filter Block.isI).map Block.getInf

/-- The information fields of the good ones, one behind the other. -/
def soundData (blocks : List Block) : List UInt8 :=
  ((accepted none blocks).map Block.getInf).flatten

/-! ## What is received -/

/-- The response buffer and its counter of 16 bits. -/
def stored (buffer : Memory) (counter : Nat) :
    List (List UInt8) → Memory × Nat
  | [] => (buffer, counter)
  | inf :: infs =>
      stored (buffer.write counter inf) ((counter + inf.length) % 2 ^ 16) infs

def storedBytes (buffer : Memory) (counter : Nat) (infs : List (List UInt8)) :
    List UInt8 :=
  (stored buffer counter infs).1.read 0 (stored buffer counter infs).2

/-- The last byte that lands in some place when blocks are stored from `off`
on. -/
def landing : Nat → List (List UInt8) → Nat → Option UInt8
  | _, [], _ => none
  | off, inf :: infs, i =>
      match landing ((off + inf.length) % 2 ^ 16) infs i with
      | some byte => some byte
      | none => if off ≤ i then inf[i - off]? else none

/-- The bytes of all I-blocks. -/
def total (blocks : List Block) : Nat := (infs blocks).flatten.length

/-- No corrupted or repeated I-block carries anything, and the counter does not
wrap.  If it does, what lands last in each place has to be the byte that the
good blocks have there. -/
def Harmless (blocks : List Block) : Prop :=
  (total blocks < 2 ^ 16 ∧ ∀ block ∈ rejected none blocks, block.getInf = []) ∨
    (2 ^ 16 ≤ total blocks ∧
      (soundData blocks).length = total blocks % 2 ^ 16 ∧
      ∀ i < (soundData blocks).length,
        landing 0 (infs blocks) i = (soundData blocks)[i]?)

/-! ## The loop -/

theorem infs_cons (block : Block) (blocks : List Block) :
    infs (block :: blocks) =
      if block.isI then block.getInf :: infs blocks else infs blocks := by
  unfold infs
  rw [List.filter_cons]
  split <;> rfl

theorem infs_append (first second : List Block) :
    infs (first ++ second) = infs first ++ infs second := by
  simp [infs]

variable {transmits : Nat → Bool} {rsp : List UInt8}

/-- A block after which the command may still succeed: an I-block with more to
come, the last I-block, or one that is not an I-block. -/
theorem respond_cons_ok {block : Block} {incoming : List Block} {s : Exchange}
    {buffer : Memory} {counter : Nat}
    (returned : (respond transmits (block :: incoming) s buffer counter).ret =
      .ok (some rsp)) :
    (block.isI = true ∧
      ((∃ s', s'.received = s.received ++ [block] ∧
          respond transmits (block :: incoming) s buffer counter =
            respond transmits incoming s' (buffer.write counter block.getInf)
              ((counter + block.getInf.length) % 2 ^ 16)) ∨
        respond transmits (block :: incoming) s buffer counter =
          { ret := .ok (some (storedBytes buffer counter [block.getInf]))
            exchange := s.receive block })) ∨
    (block.isI = false ∧ ∃ s', s'.received = s.received ++ [block] ∧
      respond transmits (block :: incoming) s buffer counter =
        respond transmits incoming s' buffer counter) := by
  by_cases isI : block.getType = typeI
  · left
    refine ⟨by rw [Block.isI, isI]; rfl, ?_⟩
    by_cases more : block.getMore = true
    · left
      by_cases transmitted : transmits (s.receive block).sent.length = true
      · refine ⟨(s.receive block).send
          (.newRBlock typeROk ((block.getNS + 1) % 2)), rfl, ?_⟩
        rw [Block.length_getInf]
        simp only [respond, isI, more, transmitted, if_true]
      · simp [respond, isI, more, transmitted] at returned
    · right
      unfold storedBytes stored stored
      rw [Block.length_getInf]
      simp only [respond, isI, more, if_true]
      rfl
  · right
    refine ⟨by simpa [Block.isI] using isI, ?_⟩
    by_cases wtx : block.getType = typeSWtxReq
    · have other : ¬ typeSWtxReq = typeI := by decide
      cases inf : block.getInf with
      | nil => simp [respond, wtx, other, inf] at returned
      | cons byte rest =>
          by_cases transmitted : transmits (s.receive block).sent.length = true
          · refine ⟨(s.receive block).send
              (.newSBlock typeSWtxRes 1 (Memory.zero.write 0 [byte])), rfl, ?_⟩
            simp only [respond, wtx, other, inf, transmitted, if_true, if_false]
          · simp [respond, wtx, other, inf, transmitted] at returned
    · simp [respond, isI, wtx] at returned

/-- The response is what the I-blocks leave in the buffer. -/
theorem respond_ok {incoming : List Block} {s : Exchange} {buffer : Memory}
    {counter : Nat}
    (returned : (respond transmits incoming s buffer counter).ret =
      .ok (some rsp)) :
    ∃ blocks, (respond transmits incoming s buffer counter).exchange.received =
        s.received ++ blocks ∧
      rsp = storedBytes buffer counter (infs blocks) := by
  induction incoming generalizing s buffer counter with
  | nil => cases returned
  | cons block incoming induction =>
      rcases respond_cons_ok returned with
        ⟨isI, ⟨s', received, turn⟩ | last⟩ | ⟨other, s', received, turn⟩
      · rw [turn] at returned ⊢
        obtain ⟨blocks, rest, rfl⟩ := induction returned
        refine ⟨block :: blocks, ?_, ?_⟩
        · rw [rest, received, List.append_assoc, List.singleton_append]
        · rw [infs_cons, if_pos isI]
          rfl
      · rw [last] at returned ⊢
        cases returned
        refine ⟨[block], rfl, ?_⟩
        rw [infs_cons, if_pos isI]
        rfl
      · rw [turn] at returned ⊢
        obtain ⟨blocks, rest, rfl⟩ := induction returned
        refine ⟨block :: blocks, ?_, ?_⟩
        · rw [rest, received, List.append_assoc, List.singleton_append]
        · rw [infs_cons, other]
          rfl

/-- No I-block comes while the command is sent. -/
theorem sendChain_ok {command : Memory} {commandLen ifsc : Nat} {heap : Memory}
    {incoming : List Block} {s : Exchange} {counter : Nat} {bytes : UInt8}
    {more : Bool}
    (returned : (sendChain transmits command commandLen ifsc heap incoming s
      counter bytes more).ret = .ok (some rsp))
    (noInf : infs s.received = []) :
    rsp = storedBytes heap 0 (infs (sendChain transmits command commandLen ifsc
      heap incoming s counter bytes more).exchange.received) := by
  induction incoming generalizing s counter bytes more with
  | nil =>
      cases more with
      | false => simp [sendChain, respond] at returned
      | true => simp [sendChain] at returned
  | cons block incoming induction =>
      cases more with
      | false =>
          unfold sendChain at returned ⊢
          obtain ⟨blocks, received, rfl⟩ := respond_ok returned
          rw [received, infs_append, noInf, List.nil_append]
      | true =>
          by_cases ack : block.getType = typeROk
          · have noI : block.isI = false := by
              rw [Block.isI, ack]
              rfl
            simp only [sendChain, if_pos ack] at returned ⊢
            apply induction returned
            show infs (s.received ++ [block]) = []
            rw [infs_append, noInf, infs_cons, noI]
            rfl
          · simp [sendChain, ack] at returned

theorem runCommand_ok {reader : Reader} {command : Memory} {commandLen : Nat}
    {heap : Memory} {line : List UInt8}
    (returned : (runCommand transmits reader command commandLen heap line).ret =
      .ok (some rsp)) :
    rsp = storedBytes heap 0 (infs (runCommand transmits reader command
      commandLen heap line).exchange.received) := by
  unfold runCommand protocolT1Command at returned ⊢
  dsimp only at returned ⊢
  by_cases ifs : command 1 = typeSIfsReq
  · rw [if_pos ifs] at returned
    cases blocks : receiveBlocks line.length line with
    | nil => simp [blocks, sRequest] at returned
    | cons answer rest =>
        simp only [blocks, sRequest, ifsAnswered] at returned
        split at returned <;> cases returned
  · by_cases resynch : command 1 = typeSResynchReq
    · rw [if_neg ifs, if_pos resynch] at returned
      cases blocks : receiveBlocks line.length line with
      | nil => simp [blocks, sRequest] at returned
      | cons answer rest => simp [blocks, sRequest, resynchAnswered] at returned
    · rw [if_neg ifs, if_neg resynch] at returned ⊢
      exact sendChain_ok returned rfl

/-! ## Good and bad blocks -/

theorem follows_isI {block : Block} {last : Option UInt8}
    (follows : block.follows last = true) : block.isI = true := by
  unfold Block.follows at follows
  rw [Bool.and_eq_true, Bool.and_eq_true] at follows
  exact follows.1.1

/-- Each I-block is good or bad. -/
theorem length_infs (last : Option UInt8) (blocks : List Block) :
    (infs blocks).flatten.length =
      ((accepted last blocks).map Block.getInf).flatten.length +
        ((rejected last blocks).map Block.getInf).flatten.length := by
  induction blocks generalizing last with
  | nil => rfl
  | cons block blocks induction =>
      rw [infs_cons]
      unfold accepted rejected
      by_cases follows : block.follows last = true
      · rw [if_pos (follows_isI follows), if_pos follows, if_pos follows,
          List.flatten_cons, List.map_cons, List.flatten_cons,
          List.length_append, List.length_append,
          induction (some block.getNS)]
        omega
      · rw [if_neg follows, if_neg follows]
        by_cases isI : block.isI = true
        · rw [if_pos isI, if_pos isI, List.flatten_cons, List.map_cons,
            List.flatten_cons, List.length_append, List.length_append,
            induction last]
          omega
        · rw [if_neg isI, if_neg isI]
          exact induction last

/-- If the bad ones carry nothing, the good ones carry everything. -/
theorem infs_eq_of_empty {last : Option UInt8} {blocks : List Block}
    (empty : ∀ block ∈ rejected last blocks, block.getInf = []) :
    (infs blocks).flatten =
      ((accepted last blocks).map Block.getInf).flatten := by
  induction blocks generalizing last with
  | nil => rfl
  | cons block blocks induction =>
      rw [infs_cons]
      unfold rejected at empty
      unfold accepted
      by_cases follows : block.follows last = true
      · rw [if_pos follows] at empty
        rw [if_pos (follows_isI follows), if_pos follows, List.flatten_cons,
          induction empty]
        rfl
      · rw [if_neg follows] at empty
        rw [if_neg follows]
        by_cases isI : block.isI = true
        · rw [if_pos isI] at empty
          rw [if_pos isI, List.flatten_cons, empty block List.mem_cons_self]
          exact induction fun other member =>
            empty other (List.mem_cons_of_mem block member)
        · rw [if_neg isI] at empty ⊢
          exact induction empty

/-- As long as no byte is lost, the good blocks carry everything exactly if the
bad ones carry nothing. -/
theorem infs_eq_iff (blocks : List Block) :
    (infs blocks).flatten = soundData blocks ↔
      ∀ block ∈ rejected none blocks, block.getInf = [] := by
  constructor
  · intro same block member
    have lengths := length_infs none blocks
    have whole : (infs blocks).flatten.length =
        ((accepted none blocks).map Block.getInf).flatten.length :=
      congrArg List.length same
    have none_left : ((rejected none blocks).map Block.getInf).flatten = [] :=
      List.length_eq_zero_iff.mp (by omega)
    exact List.flatten_eq_nil_iff.mp none_left _
      (List.mem_map_of_mem member)
  · exact infs_eq_of_empty

/-! ## The buffer -/

theorem counter_stored (buffer : Memory) (counter : Nat)
    (infs : List (List UInt8)) (small : counter < 2 ^ 16) :
    (stored buffer counter infs).2 =
      (counter + infs.flatten.length) % 2 ^ 16 := by
  induction infs generalizing buffer counter with
  | nil => exact (Nat.mod_eq_of_lt small).symm
  | cons inf infs induction =>
      unfold stored
      rw [induction _ _ (Nat.mod_lt _ (by decide)), List.flatten_cons,
        List.length_append]
      omega

/-- Blocks that fit stand one behind the other. -/
theorem stored_of_short (buffer : Memory) (counter : Nat)
    (infs : List (List UInt8))
    (short : counter + infs.flatten.length < 2 ^ 16) :
    (stored buffer counter infs).1 = buffer.write counter infs.flatten := by
  induction infs generalizing buffer counter with
  | nil => exact (Memory.write_nil buffer counter).symm
  | cons inf infs induction =>
      rw [List.flatten_cons, List.length_append] at short
      unfold stored
      rw [Nat.mod_eq_of_lt (by omega), induction _ _ (by omega),
        Memory.write_write, List.flatten_cons]

theorem stored_apply (buffer : Memory) (counter : Nat)
    (infs : List (List UInt8)) (i : Nat) :
    (stored buffer counter infs).1 i =
      (landing counter infs i).getD (buffer i) := by
  induction infs generalizing buffer counter with
  | nil => rfl
  | cons inf infs induction =>
      unfold stored landing
      rw [induction]
      cases landing ((counter + inf.length) % 2 ^ 16) infs i with
      | some byte => rfl
      | none =>
          show buffer.write counter inf i =
            (if counter ≤ i then inf[i - counter]? else none).getD (buffer i)
          by_cases inside : counter ≤ i ∧ i < counter + inf.length
          · obtain ⟨j, rfl⟩ := Nat.le.dest inside.1
            have short : j < inf.length := by omega
            rw [Memory.write_inside short, if_pos inside.1,
              Nat.add_sub_cancel_left, List.getElem?_eq_getElem short,
              List.getD_eq_getElem _ _ short]
            rfl
          · have outside : buffer.write counter inf i = buffer i :=
              if_neg inside
            rw [outside]
            split
            · rename_i behind
              have past : inf[i - counter]? = none :=
                List.getElem?_eq_none (by omega)
              rw [past]
              rfl
            · rfl

/-- Every place in front of the counter has been written to. -/
theorem landing_isSome (counter : Nat) (infs : List (List UInt8))
    (small : counter < 2 ^ 16)
    (byte : ∀ inf ∈ infs, inf.length ≤ 2 ^ 16) {i : Nat}
    (front : i < (counter + infs.flatten.length) % 2 ^ 16) :
    i < counter ∨ (landing counter infs i).isSome = true := by
  induction infs generalizing counter with
  | nil =>
      rw [List.flatten_nil, List.length_nil] at front
      omega
  | cons inf infs induction =>
      have fits := byte inf List.mem_cons_self
      have rest := induction ((counter + inf.length) % 2 ^ 16)
        (Nat.mod_lt _ (by decide))
        (fun other member => byte other (List.mem_cons_of_mem inf member))
        (by
          rw [List.flatten_cons, List.length_append] at front
          omega)
      unfold landing
      cases landed : landing ((counter + inf.length) % 2 ^ 16) infs i with
      | some byte => exact .inr rfl
      | none =>
          rw [landed] at rest
          have before : i < (counter + inf.length) % 2 ^ 16 := by
            simpa using rest
          by_cases front : i < counter
          · exact .inl front
          · right
            show (if counter ≤ i then inf[i - counter]? else none).isSome = true
            rw [if_pos (by omega), List.getElem?_eq_getElem (by omega)]
            rfl

/-- What stands in the buffer, place by place. -/
theorem getElem?_storedBytes (heap : Memory) {infs : List (List UInt8)}
    (byte : ∀ inf ∈ infs, inf.length ≤ 2 ^ 16) {i : Nat}
    (inside : i < infs.flatten.length % 2 ^ 16) :
    (storedBytes heap 0 infs)[i]? = landing 0 infs i := by
  have counter := counter_stored heap 0 infs (by decide)
  rw [Nat.zero_add] at counter
  have landed := landing_isSome 0 infs (by decide) byte
    (by rwa [Nat.zero_add])
  obtain ⟨byte, here⟩ : ∃ byte, landing 0 infs i = some byte :=
    Option.isSome_iff_exists.mp (landed.resolve_left (Nat.not_lt_zero i))
  have held : (storedBytes heap 0 infs)[i]? =
      some ((stored heap 0 infs).1 (0 + i)) := by
    unfold storedBytes
    rw [List.getElem?_eq_getElem (by rwa [Memory.length_read, counter])]
    simp [Memory.read]
  rw [held, Nat.zero_add, stored_apply, here]
  rfl

theorem length_storedBytes (heap : Memory) (infs : List (List UInt8)) :
    (storedBytes heap 0 infs).length = infs.flatten.length % 2 ^ 16 := by
  unfold storedBytes
  rw [Memory.length_read, counter_stored heap 0 infs (by decide), Nat.zero_add]

theorem storedBytes_of_short (heap : Memory) {infs : List (List UInt8)}
    (short : infs.flatten.length < 2 ^ 16) :
    storedBytes heap 0 infs = infs.flatten := by
  have counter := counter_stored heap 0 infs (by decide)
  rw [Nat.zero_add, Nat.mod_eq_of_lt short] at counter
  unfold storedBytes
  rw [counter, stored_of_short heap 0 infs (by rwa [Nat.zero_add])]
  exact Memory.read_write heap 0 infs.flatten

/-- The response of a command is the data of the good blocks exactly if the bad
ones do no harm. -/
theorem response_sound_iff (transmits : Nat → Bool) (reader : Reader)
    (command : Memory) (commandLen : Nat) (heap : Memory) (line : List UInt8)
    {rsp : List UInt8}
    (returned : (runCommand transmits reader command commandLen heap line).ret =
      .ok (some rsp)) :
    rsp = soundData (runCommand transmits reader command commandLen heap
        line).exchange.received ↔
      Harmless (runCommand transmits reader command commandLen heap
        line).exchange.received := by
  have response := runCommand_ok returned
  generalize (runCommand transmits reader command commandLen heap
    line).exchange.received = blocks at response ⊢
  subst response
  unfold Harmless total
  have fits : ∀ inf ∈ infs blocks, inf.length ≤ 2 ^ 16 := by
    intro inf member
    obtain ⟨block, -, rfl⟩ := List.mem_map.mp member
    have byte := block.getLen.toNat_lt
    rw [Block.length_getInf]
    omega
  rcases Nat.lt_or_ge (infs blocks).flatten.length (2 ^ 16) with short | long
  · rw [storedBytes_of_short heap short, infs_eq_iff]
    constructor
    · exact fun empty => .inl ⟨short, empty⟩
    · rintro (⟨-, empty⟩ | ⟨long, -⟩)
      · exact empty
      · omega
  · have size := length_storedBytes heap (infs blocks)
    constructor
    · intro same
      rw [same] at size
      refine .inr ⟨long, size, ?_⟩
      intro i inside
      rw [← getElem?_storedBytes heap fits (by rwa [← size]), same]
    · rintro (⟨short, -⟩ | ⟨-, length, landed⟩)
      · omega
      · apply List.ext_getElem?
        intro i
        by_cases inside : i < (soundData blocks).length
        · rw [getElem?_storedBytes heap fits (by rwa [← length]), landed i inside]
        · rw [List.getElem?_eq_none (by omega),
            List.getElem?_eq_none (by omega)]

/-- A reader with a card that answers with one block. -/
def answered (line : List UInt8) : Outcome :=
  runCommand (fun _ => true) { ns := 0, ifsc := 32 } Memory.zero 5 Memory.zero
    line

/-- The status of a command that succeeded. -/
theorem response_sound_iff_status :
    [0x90, 0x00] =
        soundData (answered [0, 0, 2, 0x90, 0x00, 0x92]).exchange.received ↔
      Harmless (answered [0, 0, 2, 0x90, 0x00, 0x92]).exchange.received :=
  response_sound_iff (fun _ => true) { ns := 0, ifsc := 32 } Memory.zero 5
    Memory.zero [0, 0, 2, 0x90, 0x00, 0x92] (by decide)

/-- The same block with a wrong checksum is taken as well. -/
theorem not_response_sound :
    ¬ ∀ (transmits : Nat → Bool) (reader : Reader) (command : Memory)
      (commandLen : Nat) (heap : Memory) (line rsp : List UInt8),
      (runCommand transmits reader command commandLen heap line).ret =
          .ok (some rsp) →
        rsp = soundData (runCommand transmits reader command commandLen heap
          line).exchange.received := by
  intro sound
  have same := sound (fun _ => true) { ns := 0, ifsc := 32 } Memory.zero 5
    Memory.zero [0, 0, 2, 0x90, 0x00, 0xff] [0x90, 0x00] (by decide)
  exact absurd same (by decide)

end Oscam.T1
