import Oscam.Csctapi.T0Transfer

/-!
# A card that follows T=0

The answer to a TPDU is given step by step: a procedure byte, and the data
bytes that it announces.  An answer of a card that follows T=0 is read as it
was given, unless it is one of 256 bytes that are sent behind an ACK.
-/

namespace Oscam.T0

/-- A procedure byte and the data bytes behind it. -/
structure Step where
  byte : UInt8
  block : List UInt8

structure Answer where
  steps : List Step
  sw1 : UInt8
  sw2 : UInt8

namespace Answer

variable (answer : Answer)

def status : List UInt8 := [answer.sw1, answer.sw2]

def data : List UInt8 := answer.steps.flatMap Step.block

/-- What comes over the line. -/
def bytes : List UInt8 :=
  answer.steps.flatMap (fun step => step.byte :: step.block) ++ answer.status

end Answer

namespace Tpdu

variable (tpdu : Tpdu)

/-- The data bytes that the card takes or gives; zero in the place of `Le`
stands for 256. -/
def total : Nat :=
  if tpdu.sends then tpdu.lc else if tpdu.le = 0 then 256 else tpdu.le

/-- The data bytes that the card gives behind a procedure byte. -/
def given (n : Nat) : Nat := if tpdu.sends then 0 else n

/-- The steps of a card that follows T=0, when so many data bytes were
transferred before, and so many `NULL` bytes sent in a row. -/
inductive Follows : Nat → Nat → List Step → Prop where
  | nil {done nulls : Nat} : Follows done nulls []
  | null {done nulls : Nat} {step : Step} {steps : List Step} :
      procedure tpdu.ins step.byte = .null →
      step.block = [] →
      nulls + 1 < maxNulls →
      Follows done (nulls + 1) steps →
      Follows done nulls (step :: steps)
  | all {done nulls : Nat} {step : Step} {steps : List Step} :
      procedure tpdu.ins step.byte = .ack →
      done < tpdu.total →
      step.block.length = tpdu.given (tpdu.total - done) →
      Follows tpdu.total 0 steps →
      Follows done nulls (step :: steps)
  | one {done nulls : Nat} {step : Step} {steps : List Step} :
      procedure tpdu.ins step.byte = .complement →
      done < tpdu.total →
      step.block.length = tpdu.given 1 →
      Follows (done + 1) 0 steps →
      Follows done nulls (step :: steps)

/-- No step is an ACK where `Le` is zero. -/
def Plain (steps : List Step) : Prop :=
  tpdu.sends = false → tpdu.le = 0 →
    ∀ step ∈ steps, procedure tpdu.ins step.byte ≠ .ack

end Tpdu

structure Answer.Follows (answer : Answer) (tpdu : Tpdu) : Prop where
  steps : tpdu.Follows 0 0 answer.steps
  status : procedure tpdu.ins answer.sw1 = .sw1

namespace Tpdu

variable {tpdu : Tpdu} {done nulls : Nat} {steps : List Step}

theorem total_le (tpdu : Tpdu) : tpdu.total ≤ 256 := by
  have few := tpdu.few
  have short := tpdu.short
  unfold total
  split
  · omega
  · split <;> omega

/-- The steps are no more than so many. -/
theorem Follows.length_le (follows : tpdu.Follows done nulls steps)
    (few : nulls < maxNulls) (inside : done ≤ tpdu.total) :
    steps.length + nulls < maxNulls * (tpdu.total - done + 1) := by
  have size : maxNulls = 200 := rfl
  induction follows with
  | nil =>
      rw [List.length_nil, Nat.mul_add]
      omega
  | null _ _ fewer _ induction =>
      have rest := induction fewer inside
      rw [List.length_cons]
      omega
  | all _ less _ _ induction =>
      have rest := induction (by omega) (Nat.le_refl _)
      rw [List.length_cons]
      rw [size] at rest ⊢
      omega
  | one _ less _ _ induction =>
      have rest := induction (by omega) less
      rw [List.length_cons]
      rw [size] at rest ⊢
      omega

/-- Data come only when they are received. -/
theorem Follows.data_of_sends (follows : tpdu.Follows done nulls steps)
    (sends : tpdu.sends = true) : steps.flatMap Step.block = [] := by
  induction follows with
  | nil => rfl
  | null _ none _ _ induction => rw [List.flatMap_cons, none, induction]; rfl
  | all _ _ size _ induction =>
      rw [given, if_pos sends] at size
      rw [List.flatMap_cons, List.length_eq_zero_iff.mp size, induction]
      rfl
  | one _ _ size _ induction =>
      rw [given, if_pos sends] at size
      rw [List.flatMap_cons, List.length_eq_zero_iff.mp size, induction]
      rfl

/-- No more data come than are awaited. -/
theorem Follows.length_data_le (follows : tpdu.Follows done nulls steps) :
    (steps.flatMap Step.block).length ≤ tpdu.total - done := by
  induction follows with
  | nil => exact Nat.zero_le _
  | null _ none _ _ induction =>
      rw [List.flatMap_cons, none]
      exact induction
  | all _ _ size _ induction =>
      rw [List.flatMap_cons, List.length_append, size]
      unfold given
      split <;> omega
  | one _ _ size _ induction =>
      rw [List.flatMap_cons, List.length_append, size]
      unfold given
      split <;> omega

theorem Plain.tail {step : Step} (plain : tpdu.Plain (step :: steps)) :
    tpdu.Plain steps := by
  intro receives zero later member
  exact plain receives zero later (List.mem_cons_of_mem step member)

/-- An ACK is followed by all that is received. -/
theorem Plain.given_total {step : Step} (plain : tpdu.Plain (step :: steps))
    (said : procedure tpdu.ins step.byte = .ack) :
    tpdu.given tpdu.total = tpdu.le := by
  unfold given total
  split
  · rename_i sends
    exact (tpdu.nothing sends).symm
  · rename_i receives
    split
    · rename_i zero
      exact absurd said (plain (by simpa using receives) zero step
        List.mem_cons_self)
    · rfl

theorem given_sub (tpdu : Tpdu) (n k : Nat) :
    tpdu.given (n - k) = tpdu.given n - tpdu.given k := by
  unfold given
  split <;> simp

theorem next_complement (tpdu : Tpdu) (n : Nat) :
    tpdu.next .complement (tpdu.given n) = tpdu.given (n + 1) := by
  show tpdu.given n + (if tpdu.sends then 0 else 1) = _
  unfold given
  cases tpdu.sends <;> rfl

/-- The steps are taken apart as T=0 does. -/
theorem Follows.heard (follows : tpdu.Follows done nulls steps)
    (plain : tpdu.Plain steps) {sw1 sw2 : UInt8}
    (status : procedure tpdu.ins sw1 = .sw1) :
    tpdu.Heard sw1 sw2 [] (tpdu.given done)
      (steps.flatMap (fun step => step.byte :: step.block) ++ [sw1, sw2])
      (steps.flatMap Step.block) := by
  induction follows with
  | nil => exact .status status
  | @null done nulls step steps said none _ _ induction =>
      have rest := induction plain.tail
      rw [List.flatMap_cons, List.flatMap_cons, List.cons_append,
        List.cons_append, List.append_assoc]
      apply Tpdu.Heard.step
      · rw [said]
        trivial
      · rw [said, none]
        rfl
      · rw [said]
        exact rest
  | @all done nulls step steps said less size _ induction =>
      have rest := induction plain.tail
      rw [List.flatMap_cons, List.flatMap_cons, List.cons_append,
        List.cons_append, List.append_assoc]
      have whole := plain.given_total said
      have before : tpdu.given done ≤ tpdu.le := by
        rw [← whole]
        unfold given
        split <;> omega
      apply Tpdu.Heard.step
      · rw [said]
        exact before
      · rw [said, size, given_sub, whole]
        rfl
      · rw [said]
        show tpdu.Heard sw1 sw2 [] tpdu.le _ _
        rw [← whole]
        exact rest
  | @one done nulls step steps said less size _ induction =>
      have rest := induction plain.tail
      rw [List.flatMap_cons, List.flatMap_cons, List.cons_append,
        List.cons_append, List.append_assoc]
      apply Tpdu.Heard.step
      · rw [said]
        show tpdu.next .complement (tpdu.given done) < maxShortResponse
        rw [next_complement]
        unfold given
        split
        · exact Nat.zero_lt_succ 257
        · have bound := tpdu.total_le
          have room : maxShortResponse = 258 := rfl
          omega
      · rw [said]
        exact size
      · rw [said, next_complement]
        exact rest

end Tpdu

/-! ## The exchange ends -/

namespace Exchange

variable {inverse : Bool} {tpdu : Tpdu} {s : Exchange}

theorem goes_of_null (said : procedure tpdu.ins (s.heard inverse) = .null)
    (few : s.nulls + 1 < maxNulls) :
    ∃ s', s.round inverse tpdu = .again s' ∧ s'.nulls = s.nulls + 1 := by
  rw [round_eq, said]
  dsimp only
  unfold onNull
  dsimp only
  split
  · rename_i many
    exact absurd few (Nat.not_lt_of_le many)
  · exact ⟨_, rfl, rfl⟩

theorem goes_of_ack (said : procedure tpdu.ins (s.heard inverse) = .ack)
    (more : tpdu.sends = true → s.sent < tpdu.lc)
    (room : s.recv < maxShortResponse) :
    ∃ s', s.round inverse tpdu = .again s' ∧ s'.nulls = 0 := by
  rw [round_eq, said]
  dsimp only
  unfold onAck
  dsimp only
  split
  · rename_i sends
    split
    · rename_i all
      exact absurd (more sends) (Nat.not_lt_of_le all)
    · exact ⟨_, rfl, rfl⟩
  · split
    · rename_i full
      exact absurd room (Nat.not_lt_of_le full)
    · exact ⟨_, rfl, rfl⟩

theorem goes_of_complement
    (said : procedure tpdu.ins (s.heard inverse) = .complement)
    (more : tpdu.sends = true → s.sent < tpdu.lc)
    (room : s.recv < maxShortResponse) :
    ∃ s', s.round inverse tpdu = .again s' ∧ s'.nulls = 0 := by
  rw [round_eq, said]
  dsimp only
  unfold onComplement
  dsimp only
  split
  · rename_i sends
    split
    · rename_i all
      exact absurd (more sends) (Nat.not_lt_of_le all)
    · exact ⟨_, rfl, rfl⟩
  · split
    · rename_i full
      exact absurd room (Nat.not_lt_of_le full)
    · exact ⟨_, rfl, rfl⟩

theorem ends_of_status (said : procedure tpdu.ins (s.heard inverse) = .sw1)
    (room : s.recv + 1 < maxShortResponse) :
    ∃ e, s.round inverse tpdu = .ended e := by
  rw [round_eq, said]
  dsimp only
  unfold onStatus
  dsimp only
  split
  · rename_i full
    exact absurd room (Nat.not_lt_of_le full)
  · exact ⟨_, rfl⟩

/-- The loop goes on with a step of the card, where so many data bytes were
transferred. -/
structure AtStep (tpdu : Tpdu) (s : Exchange) (done nulls : Nat)
    (steps : List Step) (status : List UInt8) : Prop where
  nulls : s.nulls = nulls
  sent : tpdu.sends = true → s.sent = done
  recv : s.recv = tpdu.given done
  inside : done ≤ tpdu.total
  line : s.line =
    steps.flatMap (fun step => step.byte :: step.block) ++ status

theorem AtStep.quiet {done nulls : Nat} {steps : List Step}
    {status : List UInt8} (at_step : AtStep tpdu s done nulls steps status)
    (sends : tpdu.sends = true) : s.recv = 0 := by
  rw [at_step.recv, Tpdu.given, if_pos sends]

theorem AtStep.room {done nulls : Nat} {steps : List Step}
    {status : List UInt8} (at_step : AtStep tpdu s done nulls steps status) :
    s.recv + 1 < maxShortResponse := by
  have size : maxShortResponse = 258 := rfl
  have inside := at_step.inside
  rw [at_step.recv, Tpdu.given]
  split
  · omega
  · have bound := tpdu.total_le
    omega

theorem AtStep.more {done nulls : Nat} {steps : List Step}
    {status : List UInt8} (at_step : AtStep tpdu s done nulls steps status)
    (less : done < tpdu.total) (sends : tpdu.sends = true) :
    s.sent < tpdu.lc := by
  rw [at_step.sent sends]
  rw [Tpdu.total, if_pos sends] at less
  exact less

theorem AtStep.heard_eq {done nulls : Nat} {step : Step} {steps : List Step}
    {status : List UInt8}
    (at_step : AtStep tpdu s done nulls (step :: steps) status) :
    s.heard inverse = step.byte :=
  heard_cons at_step.line

/-- The next step, after a round. -/
theorem AtStep.next {s' : Exchange} {done nulls done' nulls' : Nat}
    {step : Step} {steps : List Step} {status : List UInt8}
    (at_step : AtStep tpdu s done nulls (step :: steps) status)
    (moves : s.round inverse tpdu = .again s')
    (size : step.block.length =
      tpdu.block (procedure tpdu.ins step.byte) s.recv)
    (counted : s'.nulls = nulls')
    (sent : tpdu.sends = true →
      done + tpdu.out (procedure tpdu.ins step.byte) done = done')
    (recv : tpdu.next (procedure tpdu.ins step.byte) s.recv =
      tpdu.given done')
    (inside : done' ≤ tpdu.total) :
    AtStep tpdu s' done' nulls' steps status := by
  obtain ⟨said, moved⟩ := round_again at_step.quiet moves
  have same := moved.byte
  rw [at_step.heard_eq] at same
  subst same
  have line := at_step.line
  rw [List.flatMap_cons, List.cons_append, List.cons_append,
    List.append_assoc] at line
  exact
    { nulls := counted
      sent := by
        intro sends
        rw [(moved.gone sends).sent, at_step.sent sends]
        exact sent sends
      recv := moved.recv.trans recv
      inside
      line := moved.line_eq line size }

/-- An answer of a card that follows T=0 is read to its end. -/
theorem ends_of_follows {done nulls : Nat} {steps : List Step}
    (follows : tpdu.Follows done nulls steps) (plain : tpdu.Plain steps)
    {sw1 sw2 : UInt8} (status : procedure tpdu.ins sw1 = .sw1)
    {fuel : Nat} (enough : steps.length < fuel)
    (at_step : AtStep tpdu s done nulls steps [sw1, sw2]) :
    ∃ e, s.loop inverse tpdu fuel = .ended e := by
  induction follows generalizing s fuel with
  | nil =>
      cases fuel with
      | zero => exact absurd enough (Nat.not_lt_zero _)
      | succ fuel =>
          have said : procedure tpdu.ins (s.heard inverse) = .sw1 := by
            rw [heard_cons at_step.line, status]
          obtain ⟨e, ends⟩ := ends_of_status said at_step.room
          rw [loop, if_pos (Nat.lt_of_succ_lt at_step.room), ends]
          exact ⟨e, rfl⟩
  | null said none fewer _ induction =>
      cases fuel with
      | zero => exact absurd enough (Nat.not_lt_zero _)
      | succ fuel =>
          have heard : procedure tpdu.ins (s.heard inverse) = .null := by
            rw [at_step.heard_eq, said]
          obtain ⟨s', moves, counted⟩ := goes_of_null heard
            (at_step.nulls ▸ fewer)
          rw [loop, if_pos (Nat.lt_of_succ_lt at_step.room), moves]
          apply induction plain.tail (Nat.lt_of_succ_lt_succ enough)
          apply at_step.next moves
          · rw [said, none]
            rfl
          · rw [counted, at_step.nulls]
          · rw [said]
            exact fun _ => rfl
          · rw [said]
            exact at_step.recv
          · exact at_step.inside
  | all said less size _ induction =>
      cases fuel with
      | zero => exact absurd enough (Nat.not_lt_zero _)
      | succ fuel =>
          have heard : procedure tpdu.ins (s.heard inverse) = .ack := by
            rw [at_step.heard_eq, said]
          obtain ⟨s', moves, counted⟩ := goes_of_ack heard
            (at_step.more less) (Nat.lt_of_succ_lt at_step.room)
          have whole := plain.given_total said
          rw [loop, if_pos (Nat.lt_of_succ_lt at_step.room), moves]
          apply induction plain.tail (Nat.lt_of_succ_lt_succ enough)
          apply at_step.next moves
          · rw [said, size, Tpdu.given_sub, whole, at_step.recv]
            rfl
          · exact counted
          · rw [said]
            intro sends
            have lc : tpdu.total = tpdu.lc := if_pos sends
            show _ + (tpdu.lc - _) = _
            omega
          · rw [said]
            exact whole.symm
          · exact Nat.le_refl _
  | one said less size _ induction =>
      cases fuel with
      | zero => exact absurd enough (Nat.not_lt_zero _)
      | succ fuel =>
          have heard : procedure tpdu.ins (s.heard inverse) =
              .complement := by
            rw [at_step.heard_eq, said]
          obtain ⟨s', moves, counted⟩ := goes_of_complement heard
            (at_step.more less) (Nat.lt_of_succ_lt at_step.room)
          rw [loop, if_pos (Nat.lt_of_succ_lt at_step.room), moves]
          apply induction plain.tail (Nat.lt_of_succ_lt_succ enough)
          apply at_step.next moves
          · rw [said]
            exact size
          · exact counted
          · rw [said]
            exact fun _ => rfl
          · rw [said, at_step.recv, Tpdu.next_complement]
          · exact less

end Exchange

/-! ## The answer to a TPDU -/

/-- The rounds of a loop that are enough for any answer. -/
abbrev patience : Nat := maxNulls * 257

/-- What a card says that answers the TPDUs so far. -/
def cardOf (answers : List (List UInt8) → Answer) (tpdus : List (List UInt8)) :
    List UInt8 :=
  (answers tpdus).bytes

variable {reader : Reader} {fuel : Nat} {tpdu : Tpdu} {command : List UInt8}
  {answers : List (List UInt8) → Answer} {s : Session}

/-- Every answer follows T=0. -/
def FollowsT0 (answers : List (List UInt8) → Answer) : Prop :=
  ∀ tpdus command tpdu, tpduOf command = some tpdu →
    (answers (tpdus ++ [command])).Follows tpdu

/-- An answer is read as it was given. -/
theorem exchangeTPDU_answer (card : reader.card = cardOf answers)
    (follows : FollowsT0 answers) (short : tpduOf command = some tpdu)
    (plain : tpdu.Plain (answers (s.tpdus ++ [command])).steps)
    (enough : patience ≤ fuel) (line : s.line = []) (rsp : Response) :
    let answer := answers (s.tpdus ++ [command])
    let o := protocolT0ExchangeTPDU reader fuel command rsp s
    o.ret = .ok ∧ o.rsp = rsp.reset.put (answer.data ++ answer.status) ∧
      o.session.line = [] ∧ o.session.tpdus = s.tpdus ++ [command] := by
  intro answer o
  have follows := follows s.tpdus command tpdu short
  have bytes : s.line ++ reader.card (s.tpdus ++ [command]) = answer.bytes := by
    rw [line, card]
    rfl
  have zero : tpdu.given 0 = 0 := by
    unfold Tpdu.given
    split <;> rfl
  have few : answer.steps.length < fuel := by
    have bound := follows.steps.length_le (by decide) (Nat.zero_le _)
    have total := tpdu.total_le
    have most : maxNulls * (tpdu.total - 0 + 1) ≤ patience :=
      Nat.mul_le_mul_left maxNulls (by omega)
    exact Nat.lt_of_lt_of_le bound (Nat.le_trans most enough)
  have at_step : Exchange.AtStep tpdu
      (.start (reader.buffer s.tpdus.length) answer.bytes) 0 0 answer.steps
        answer.status :=
    { nulls := rfl
      sent := fun _ => rfl
      recv := zero.symm
      inside := Nat.zero_le _
      line := rfl }
  obtain ⟨e, ends⟩ : ∃ e, Exchange.loop reader.inverse tpdu fuel _ =
      .ended e :=
    Exchange.ends_of_follows follows.steps plain follows.status few at_step
  have heard := @Tpdu.Follows.heard _ _ _ _ follows.steps plain _ answer.sw2
    follows.status
  rw [zero] at heard
  have read := Exchange.read_of_heard heard rfl rfl (Nat.zero_lt_succ 257) rfl
    (fun _ => rfl) ends
  have exchanged : exchange reader fuel tpdu command s = .ended e := by
    unfold exchange
    dsimp only
    rw [bytes]
    exact ends
  have outcome : o =
      { ret := .ok
        rsp := rsp.reset.put e.rsp
        session := (s.after command e).wrote 0 e.recv } := by
    unfold o protocolT0ExchangeTPDU
    dsimp only
    rw [short]
    dsimp only
    rw [exchanged]
  rw [outcome]
  refine ⟨rfl, ?_, read.line, rfl⟩
  show rsp.reset.put e.rsp = _
  rw [read.rsp, read.received, read.status]
  rfl

end Oscam.T0
