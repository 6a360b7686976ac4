import Oscam.Csctapi.T1Response

/-!
# Bounds of the response of a T=1 card

The card decides how many blocks there are and how long each is.  What it may
send without harm is said here in terms of its blocks alone.
-/

namespace Oscam.T1

/-- `CTA_RES_LEN`, the size of `rsp`. -/
abbrev ctaResLen : Nat := 512

/-! ## What is expected -/

/-- The information field of the last block is read, although it is null. -/
def Outcome.ReadsNull (outcome : Outcome) : Prop :=
  outcome.ret = .crash ∧ ∃ block,
    outcome.exchange.received.getLast? = some block ∧
      (block.getType = typeSWtxReq ∨ block.getType = typeSIfsRes) ∧
      block.getInf = []

/-- No information field is read that is null, and the bytes that are copied
to `rsp` fit into it and are as many as the I-blocks carry. -/
structure Outcome.Bounded (outcome : Outcome) : Prop where
  inf : ¬ outcome.ReadsNull
  fits : ∀ rsp, outcome.ret = .ok (some rsp) → rsp.length ≤ ctaResLen
  exact : ∀ rsp, outcome.ret = .ok (some rsp) →
    rsp.length = total outcome.exchange.received

/-- Without a response, only the reading of the last block counts. -/
theorem Outcome.bounded_of_none {outcome : Outcome}
    (inf : ¬ outcome.ReadsNull)
    (none : ∀ rsp, outcome.ret ≠ .ok (some rsp)) : outcome.Bounded where
  inf := inf
  fits := fun rsp returned => absurd returned (none rsp)
  exact := fun rsp returned => absurd returned (none rsp)

theorem Outcome.bounded_of_ne {outcome : Outcome}
    (sound : outcome.ret ≠ .crash)
    (none : ∀ rsp, outcome.ret ≠ .ok (some rsp)) : outcome.Bounded :=
  Outcome.bounded_of_none (fun reads => sound reads.1) none

theorem Outcome.bounded_error (exchange : Exchange) :
    Outcome.Bounded { ret := .error, exchange } :=
  Outcome.bounded_of_ne nofun nofun

theorem Outcome.bounded_ok_iff {outcome : Outcome} {rsp : List UInt8}
    (returned : outcome.ret = .ok (some rsp)) :
    outcome.Bounded ↔ rsp.length ≤ ctaResLen ∧
      rsp.length = total outcome.exchange.received := by
  constructor
  · intro bounded
    exact ⟨bounded.fits rsp returned, bounded.exact rsp returned⟩
  · rintro ⟨fits, exact⟩
    have same {other : List UInt8} (again : outcome.ret = .ok (some other)) :
        rsp = other := by
      rw [returned] at again
      injection again with again
      exact Option.some.inj again
    refine ⟨fun reads => ?_, fun other again => same again ▸ fits,
      fun other again => same again ▸ exact⟩
    rw [Outcome.ReadsNull, returned] at reads
    exact nomatch reads.1

theorem Outcome.not_readsNull_of_last {outcome : Outcome} {type : UInt8}
    (other : type ≠ typeSWtxReq ∧ type ≠ typeSIfsRes)
    (all : ∀ block ∈ outcome.exchange.received, block.getType = type) :
    ¬ outcome.ReadsNull := by
  rintro ⟨-, block, last, null, -⟩
  rw [all block (List.mem_of_getLast? last)] at null
  rcases null with wtx | ifs
  · exact other.1 wtx
  · exact other.2 ifs

/-! ## What the card may send -/

/-- Another block is awaited behind this one. -/
def Block.goesOn (block : Block) : Bool :=
  if block.isI then block.getMore
  else block.getType == typeSWtxReq && block.getInf != []

/-- The blocks that are answered, one answer after the other being the
`sent`th block and so on, lead to one that ends the response: it is not a WTX
request without a multiplier, and with the `before` bytes of the blocks in
front the response fits. -/
def Tame (transmits : Nat → Bool) (sent before : Nat) (incoming : List Block) :
    Prop :=
  (∀ i < (incoming.takeWhile Block.goesOn).length, transmits (sent + i)) →
    ∀ last, (incoming.dropWhile Block.goesOn).head? = some last →
      (last.getType = typeSWtxReq → last.getInf ≠ []) ∧
        (last.isI → before +
          total (incoming.takeWhile Block.goesOn ++ [last]) ≤ ctaResLen)

/-- The blocks that are left for the response when the whole command is sent,
if the card acknowledges every chained block. -/
def afterCommand (commandLen ifsc : Nat) :
    List Block → Nat → UInt8 → Bool → Option (List Block)
  | incoming, _, _, false => some incoming
  | [], _, _, true => none
  | block :: incoming, counter, bytes, true =>
      if block.getType = typeROk then
        let counter := (counter + bytes.toNat) % 2 ^ 16
        afterCommand commandLen ifsc incoming counter
          (UInt8.ofNat (min (commandLen - counter) ifsc))
          (decide (ifsc < commandLen - counter))
      else none

/-- The blocks of the card do no harm to the command. -/
def Tolerated (transmits : Nat → Bool) (reader : Reader) (command : Memory)
    (commandLen : Nat) (incoming : List Block) : Prop :=
  if command 1 = typeSIfsReq then
    ∀ answer, incoming.head? = some answer →
      answer.getType = typeSIfsRes → answer.getInf ≠ []
  else if command 1 = typeSResynchReq then True
  else
    ∀ rest, afterCommand commandLen reader.ifsc.toNat incoming 0
        (UInt8.ofNat (min commandLen reader.ifsc.toNat))
        (decide (reader.ifsc.toNat < commandLen)) = some rest →
      Tame transmits (1 + (incoming.length - rest.length)) 0 rest

/-! ## Block by block -/

theorem total_cons (block : Block) (blocks : List Block) :
    total (block :: blocks) = total [block] + total blocks := by
  unfold total
  rw [infs_cons, infs_cons]
  split <;> simp [infs]

theorem total_append (first second : List Block) :
    total (first ++ second) = total first + total second := by
  unfold total
  rw [infs_append, List.flatten_append, List.length_append]

theorem total_of_isI {block : Block} (isI : block.isI = true) :
    total [block] = block.getLen.toNat := by
  unfold total
  rw [infs_cons, if_pos isI]
  simp [infs]

theorem total_of_not_isI {block : Block} (other : block.isI = false) :
    total [block] = 0 := by
  unfold total
  rw [infs_cons, other]
  rfl

theorem tame_of_goesOn {transmits : Nat → Bool} {sent before : Nat}
    {block : Block} {incoming : List Block} (goesOn : block.goesOn = true) :
    Tame transmits sent before (block :: incoming) ↔
      (transmits sent = true →
        Tame transmits (sent + 1) (before + total [block]) incoming) := by
  unfold Tame
  rw [List.takeWhile_cons_of_pos goesOn, List.dropWhile_cons_of_pos goesOn,
    List.length_cons]
  have answers : (∀ i < (incoming.takeWhile Block.goesOn).length + 1,
        transmits (sent + i) = true) ↔
      transmits sent = true ∧
        ∀ i < (incoming.takeWhile Block.goesOn).length,
          transmits (sent + 1 + i) = true := by
    rw [Nat.forall_lt_succ_left]
    simp only [Nat.add_zero, Nat.add_assoc, Nat.add_comm 1]
  have sum (last : Block) : before +
        total (block :: incoming.takeWhile Block.goesOn ++ [last]) =
      before + total [block] +
        total (incoming.takeWhile Block.goesOn ++ [last]) := by
    rw [List.cons_append, total_cons]
    omega
  rw [answers, and_imp]
  simp only [sum]

theorem tame_of_stop {transmits : Nat → Bool} {sent before : Nat}
    {block : Block} {incoming : List Block} (stop : block.goesOn = false) :
    Tame transmits sent before (block :: incoming) ↔
      (block.getType = typeSWtxReq → block.getInf ≠ []) ∧
        (block.isI → before + total [block] ≤ ctaResLen) := by
  have no : ¬ block.goesOn = true := by simp [stop]
  unfold Tame
  rw [List.takeWhile_cons_of_neg no, List.dropWhile_cons_of_neg no,
    List.head?_cons]
  constructor
  · intro right
    exact right (fun i none => absurd none (Nat.not_lt_zero i)) block rfl
  · rintro right _ _ ⟨⟩
    exact right

/-- One turn of the loop, with a block that is answered. -/
theorem respond_of_goesOn (transmits : Nat → Bool) {block : Block}
    (incoming : List Block) (s : Exchange) (buffer : Memory) {counter : Nat}
    (small : counter < 2 ^ 16) (goesOn : block.goesOn = true) :
    ∃ s' buffer', s'.received = s.received ++ [block] ∧
      s'.sent.length = s.sent.length + 1 ∧
      respond transmits (block :: incoming) s buffer counter =
        if transmits s.sent.length then
          respond transmits incoming s' buffer'
            ((counter + total [block]) % 2 ^ 16)
        else { ret := .error, exchange := s' } := by
  unfold Block.goesOn at goesOn
  by_cases isI : block.isI = true
  · rw [if_pos isI] at goesOn
    have type : block.getType = typeI := eq_of_beq isI
    refine ⟨(s.receive block).send
      (.newRBlock typeROk ((block.getNS + 1) % 2)),
      buffer.write counter block.getInf, rfl, by simp [Exchange.send,
        Exchange.receive], ?_⟩
    rw [total_of_isI isI]
    simp only [respond, type, goesOn, if_true]
    rfl
  · rw [if_neg isI, Bool.and_eq_true, beq_iff_eq, bne_iff_ne] at goesOn
    obtain ⟨type, some⟩ := goesOn
    have other : ¬ typeSWtxReq = typeI := by decide
    obtain ⟨wtx, rest, inf⟩ := List.exists_cons_of_ne_nil some
    refine ⟨(s.receive block).send
      (.newSBlock typeSWtxRes 1 (Memory.zero.write 0 [wtx])), buffer, rfl,
      by simp [Exchange.send, Exchange.receive], ?_⟩
    rw [total_of_not_isI (by simpa using isI), Nat.add_zero,
      Nat.mod_eq_of_lt small]
    simp only [respond, type, other, inf, if_false, if_true]
    rfl

/-- The last turn of the loop. -/
theorem respond_of_stop (transmits : Nat → Bool) {block : Block}
    (incoming : List Block) (s : Exchange) (buffer : Memory) (counter : Nat)
    (stop : block.goesOn = false) :
    (respond transmits (block :: incoming) s buffer counter).exchange.received =
        s.received ++ [block] ∧
      (respond transmits (block :: incoming) s buffer counter).ret =
        if block.isI then
          .ok (some ((buffer.write counter block.getInf).read 0
            ((counter + total [block]) % 2 ^ 16)))
        else if block.getType = typeSWtxReq then .crash
        else .error := by
  unfold Block.goesOn at stop
  by_cases isI : block.isI = true
  · rw [if_pos isI] at stop
    have type : block.getType = typeI := eq_of_beq isI
    rw [if_pos isI, total_of_isI isI]
    simp only [respond, type, stop, if_true]
    exact ⟨rfl, rfl⟩
  · have type : ¬ block.getType = typeI := fun same =>
      isI (beq_iff_eq.mpr same)
    rw [if_neg isI] at stop ⊢
    by_cases wtx : block.getType = typeSWtxReq
    · have inf : block.getInf = [] := by simpa [wtx] using stop
      have other : ¬ typeSWtxReq = typeI := by decide
      simp only [respond, wtx, other, inf, if_true, if_false]
      exact ⟨rfl, trivial⟩
    · simp only [respond, type, wtx, if_false]
      exact ⟨rfl, trivial⟩

/-! ## The whole response -/

/-- The response is bounded exactly if the blocks are tame. -/
theorem bounded_respond_iff (transmits : Nat → Bool) {incoming : List Block}
    {s : Exchange} {buffer : Memory} {counter : Nat}
    (count : counter = total s.received % 2 ^ 16) :
    (respond transmits incoming s buffer counter).Bounded ↔
      Tame transmits s.sent.length (total s.received) incoming := by
  induction incoming generalizing s buffer counter with
  | nil =>
      exact iff_of_true (Outcome.bounded_error s) fun _ _ none => nomatch none
  | cons block incoming induction =>
      have small : counter < 2 ^ 16 := count ▸ Nat.mod_lt _ (by decide)
      cases goesOn : block.goesOn with
      | true =>
          obtain ⟨s', buffer', received, sent, turn⟩ :=
            respond_of_goesOn transmits incoming s buffer small goesOn
          have sum : total s'.received = total s.received + total [block] := by
            rw [received, total_append]
          rw [tame_of_goesOn goesOn, turn]
          by_cases transmitted : transmits s.sent.length = true
          · rw [if_pos transmitted, induction (by rw [sum, count]; omega), sent,
              sum]
            exact ⟨fun tame _ => tame, fun tame => tame transmitted⟩
          · rw [if_neg transmitted]
            exact iff_of_true (Outcome.bounded_error s')
              fun other => absurd other transmitted
      | false =>
          obtain ⟨received, ret⟩ :=
            respond_of_stop transmits incoming s buffer counter goesOn
          have sum : total (s.received ++ [block]) =
              total s.received + total [block] := total_append _ _
          rw [tame_of_stop goesOn]
          by_cases isI : block.isI = true
          · have other : block.getType ≠ typeSWtxReq := by
              rw [show block.getType = typeI from eq_of_beq isI]
              decide
            rw [if_pos isI] at ret
            rw [Outcome.bounded_ok_iff ret, received, sum, Memory.length_read]
            have room : ctaResLen = 512 := rfl
            constructor
            · rintro ⟨fits, exact⟩
              exact ⟨fun wtx => absurd wtx other, fun _ => exact ▸ fits⟩
            · rintro ⟨-, fits⟩
              have short := fits isI
              omega
          · rw [if_neg isI] at ret
            by_cases wtx : block.getType = typeSWtxReq
            · rw [if_pos wtx] at ret
              have inf : block.getInf = [] := by
                simpa [Block.goesOn, isI, wtx] using goesOn
              refine iff_of_false (fun bounded => bounded.inf ?_)
                fun right => right.1 wtx inf
              exact ⟨ret, block, by rw [received, List.getLast?_concat],
                .inl wtx, inf⟩
            · rw [if_neg wtx] at ret
              refine iff_of_true ?_ ⟨fun type => absurd type wtx,
                fun type => absurd type isI⟩
              apply Outcome.bounded_of_ne
              · rw [ret]
                nofun
              · rw [ret]
                nofun

/-! ## The whole command -/

theorem total_of_acks {blocks : List Block}
    (acks : ∀ block ∈ blocks, block.getType = typeROk) : total blocks = 0 := by
  induction blocks with
  | nil => rfl
  | cons block blocks induction =>
      rw [List.forall_mem_cons] at acks
      have other : block.isI = false := by
        rw [Block.isI, acks.1]
        rfl
      rw [total_cons, total_of_not_isI other, induction acks.2]

theorem length_afterCommand {commandLen ifsc : Nat} {incoming rest : List Block}
    {counter : Nat} {bytes : UInt8} {more : Bool}
    (sent : afterCommand commandLen ifsc incoming counter bytes more =
      some rest) : rest.length ≤ incoming.length := by
  induction incoming generalizing counter bytes more with
  | nil =>
      cases more with
      | false =>
          cases sent
          exact Nat.le_refl _
      | true => cases sent
  | cons block incoming induction =>
      cases more with
      | false =>
          cases sent
          exact Nat.le_refl _
      | true =>
          unfold afterCommand at sent
          split at sent
          · exact Nat.le_succ_of_le (induction sent)
          · cases sent

/-- The response begins. -/
theorem bounded_sent_iff (transmits : Nat → Bool) {heap : Memory}
    {incoming : List Block} {s : Exchange}
    (acks : ∀ block ∈ s.received, block.getType = typeROk) :
    (respond transmits incoming s heap 0).Bounded ↔
      ∀ rest, some incoming = some rest →
        Tame transmits (s.sent.length + (incoming.length - rest.length)) 0
          rest := by
  have nothing := total_of_acks acks
  rw [bounded_respond_iff transmits (by rw [nothing]; rfl), nothing]
  constructor
  · rintro tame _ ⟨⟩
    rwa [Nat.sub_self, Nat.add_zero]
  · intro right
    have tame := right incoming rfl
    rwa [Nat.sub_self, Nat.add_zero] at tame

/-- While the command is sent, nothing but acknowledgements is taken. -/
theorem bounded_sendChain_iff (transmits : Nat → Bool) {command : Memory}
    {commandLen ifsc : Nat} {heap : Memory} {incoming : List Block}
    {s : Exchange} {counter : Nat} {bytes : UInt8} {more : Bool}
    (acks : ∀ block ∈ s.received, block.getType = typeROk) :
    (sendChain transmits command commandLen ifsc heap incoming s counter bytes
        more).Bounded ↔
      ∀ rest, afterCommand commandLen ifsc incoming counter bytes more =
          some rest →
        Tame transmits (s.sent.length + (incoming.length - rest.length)) 0
          rest := by
  induction incoming generalizing s counter bytes more with
  | nil =>
      cases more with
      | false =>
          unfold sendChain afterCommand
          exact bounded_sent_iff transmits acks
      | true =>
          -- the block that is missing has no information field to be read
          refine iff_of_true (Outcome.bounded_of_none ?_ ?_) ?_
          · exact Outcome.not_readsNull_of_last (by decide) acks
          · intro _ wrong
            cases wrong
          · intro _ wrong
            cases wrong
  | cons block incoming induction =>
      cases more with
      | false =>
          unfold sendChain afterCommand
          exact bounded_sent_iff transmits acks
      | true =>
          unfold sendChain afterCommand
          by_cases ack : block.getType = typeROk
          · rw [if_pos ack]
            dsimp only
            rw [if_pos ack, induction (by
              intro other member
              rcases List.mem_append.mp member with before | last
              · exact acks other before
              · exact List.mem_singleton.mp last ▸ ack)]
            apply forall₂_congr
            intro rest sent
            have shorter := length_afterCommand sent
            have place : s.sent.length +
                  ((block :: incoming).length - rest.length) =
                s.sent.length + 1 + (incoming.length - rest.length) := by
              rw [List.length_cons]
              omega
            rw [place]
            simp only [Exchange.send, Exchange.receive, List.length_append,
              List.length_singleton]
          · rw [if_neg ack]
            dsimp only
            rw [if_neg ack]
            refine iff_of_true (Outcome.bounded_error _) ?_
            intro _ wrong
            cases wrong

theorem bounded_ifsAnswered_iff (answer : Block) (s : Exchange) :
    (ifsAnswered answer (s.receive answer)).Bounded ↔
      (answer.getType = typeSIfsRes → answer.getInf ≠ []) := by
  unfold ifsAnswered
  split
  · rename_i null
    refine iff_of_false (fun bounded => bounded.inf ?_) fun right =>
      right null.1 null.2
    exact ⟨rfl, answer, List.getLast?_concat, .inr null.1, null.2⟩
  · rename_i other
    exact iff_of_true (Outcome.bounded_of_ne nofun nofun)
      fun type inf => other ⟨type, inf⟩

/-- The response is bounded exactly if the blocks of the card do no harm: a
WTX request and the answer to an IFS request have an information field, and a
response that is complete has at most 512 bytes. -/
theorem bounded_iff_tolerated (transmits : Nat → Bool) (reader : Reader)
    (command : Memory) (commandLen : Nat) (heap : Memory) (line : List UInt8) :
    (runCommand transmits reader command commandLen heap line).Bounded ↔
      Tolerated transmits reader command commandLen
        (receiveBlocks line.length line) := by
  unfold runCommand protocolT1Command Tolerated
  generalize receiveBlocks line.length line = incoming
  dsimp only
  by_cases ifs : command 1 = typeSIfsReq
  · rw [if_pos ifs, if_pos ifs]
    cases incoming with
    | nil => exact iff_of_true (Outcome.bounded_error _) nofun
    | cons answer rest =>
        unfold sRequest
        rw [bounded_ifsAnswered_iff]
        constructor
        · rintro right _ ⟨⟩
          exact right
        · intro right
          exact right answer rfl
  · rw [if_neg ifs, if_neg ifs]
    by_cases resynch : command 1 = typeSResynchReq
    · rw [if_pos resynch, if_pos resynch]
      refine iff_of_true ?_ trivial
      cases incoming with
      | nil => exact Outcome.bounded_error _
      | cons answer rest => exact Outcome.bounded_of_ne nofun nofun
    · rw [if_neg resynch, if_neg resynch]
      exact bounded_sendChain_iff transmits fun _ none =>
        absurd none List.not_mem_nil

/-- A WTX request with no multiplier. -/
def emptyWtx : List UInt8 := [0, 0xC3, 0, 0xC3]

/-- The multiplier is read through a null pointer. -/
theorem emptyWtx_not_bounded : ¬ ∀ (transmits : Nat → Bool) (reader : Reader)
    (command : Memory) (commandLen : Nat) (heap : Memory) (line : List UInt8),
    (runCommand transmits reader command commandLen heap line).Bounded := by
  intro always
  have bounded := always (fun _ => true) { ns := 0, ifsc := 32 } Memory.zero 5
    Memory.zero emptyWtx
  exact bounded.inf ⟨rfl, ⟨emptyWtx, rfl⟩, rfl, .inl rfl, rfl⟩

end Oscam.T1
