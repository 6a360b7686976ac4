import Oscam.Csctapi.T0Card

/-!
# Extended APDUs over T=0

The TPDUs of an extended APDU and its response, against the answers of a card
that follows T=0.  The card may answer every TPDU as it likes, in view of all
the TPDUs before.
-/

namespace Oscam.T0

/-! ## Answers -/

/-- The answers to some TPDUs behind others. -/
def answersTo (answers : List (List UInt8) → Answer) :
    List (List UInt8) → List (List UInt8) → List Answer
  | _, [] => []
  | before, tpdu :: tpdus =>
      answers (before ++ [tpdu]) :: answersTo answers (before ++ [tpdu]) tpdus

/-- All their data bytes and the last status bytes. -/
def responseOf (given : List Answer) : List UInt8 :=
  given.flatMap Answer.data ++ given.getLast?.elim [] Answer.status

variable {answers : List (List UInt8) → Answer}

theorem answersTo_append (answers : List (List UInt8) → Answer)
    (before first second : List (List UInt8)) :
    answersTo answers before (first ++ second) =
      answersTo answers before first ++
        answersTo answers (before ++ first) second := by
  induction first generalizing before with
  | nil => rw [List.nil_append, List.append_nil]; rfl
  | cons tpdu first induction =>
      rw [List.cons_append, answersTo, induction, answersTo, List.cons_append,
        List.append_assoc, List.singleton_append]

theorem responseOf_singleton (answer : Answer) :
    responseOf [answer] = answer.data ++ answer.status := by
  simp [responseOf]

/-- Answers without data add nothing in front of others. -/
theorem responseOf_append {first second : List Answer}
    (none : first.flatMap Answer.data = []) (some : second ≠ []) :
    responseOf (first ++ second) = responseOf second := by
  unfold responseOf
  rw [List.flatMap_append, none, List.getLast?_append_of_ne_nil _ some]
  rfl

theorem length_responseOf {given : List Answer} (some : given ≠ []) :
    (responseOf given).length =
      (given.map fun answer => answer.data.length).sum + 2 := by
  unfold responseOf
  rw [List.length_append, List.length_flatMap,
    List.getLast?_eq_some_getLast some]
  rfl

/-- With two more bytes for each, the lengths are too many. -/
theorem length_lt_sum {given : List Answer} (some : given ≠ []) :
    (given.map fun answer => answer.data.length).sum <
      (given.map fun answer => answer.data.length + 2).sum := by
  cases given with
  | nil => exact absurd rfl some
  | cons answer given =>
      have rest : (given.map fun answer => answer.data.length).sum ≤
          (given.map fun answer => answer.data.length + 2).sum := by
        clear some
        induction given with
        | nil => exact Nat.le_refl 0
        | cons answer given induction =>
            rw [List.map_cons, List.map_cons, List.sum_cons, List.sum_cons]
            omega
      rw [List.map_cons, List.map_cons, List.sum_cons, List.sum_cons]
      omega

theorem answersTo_ne_nil {before tpdus : List (List UInt8)}
    (some : tpdus ≠ []) : answersTo answers before tpdus ≠ [] := by
  cases tpdus with
  | nil => exact absurd rfl some
  | cons tpdu tpdus => nofun

/-! ## TPDUs -/

theorem header_of_length {header : List UInt8} (four : header.length = 4) :
    ∃ cla ins p1 p2, header = [cla, ins, p1, p2] := by
  match header, four with
  | [cla, ins, p1, p2], _ => exact ⟨cla, ins, p1, p2, rfl⟩

theorem tpduOf_receives {header : List UInt8} (four : header.length = 4)
    (p3 : UInt8) :
    ∃ tpdu, tpduOf (header ++ [p3]) = some tpdu ∧ tpdu.sends = false ∧
      tpdu.le = p3.toNat := by
  obtain ⟨cla, ins, p1, p2, rfl⟩ := header_of_length four
  have case3S : apduCmdCase ([cla, ins, p1, p2] ++ [p3]) = .case3S := by
    simp [apduCmdCase]
  have other : apduCmdCase ([cla, ins, p1, p2] ++ [p3]) ≠ .case2S := by
    rw [case3S]
    nofun
  unfold tpduOf
  rw [dif_neg other, if_pos case3S]
  exact ⟨_, rfl, rfl, rfl⟩

theorem tpduOf_sends {header data : List UInt8} (four : header.length = 4)
    (some : 0 < data.length) (few : data.length < 256) :
    ∃ tpdu, tpduOf (header ++ [UInt8.ofNat data.length] ++ data) =
      .some tpdu ∧ tpdu.sends = true := by
  obtain ⟨cla, ins, p1, p2, rfl⟩ := header_of_length four
  have size : (UInt8.ofNat data.length).toNat = data.length := by
    rw [UInt8.toNat_ofNat', Nat.mod_eq_of_lt few]
  have case2S : apduCmdCase
      ([cla, ins, p1, p2] ++ [UInt8.ofNat data.length] ++ data) =
        .case2S := by
    unfold apduCmdCase
    dsimp only
    have length : ([cla, ins, p1, p2] ++ [UInt8.ofNat data.length] ++
        data).length - 4 = data.length + 1 := by
      simp
    have b1 : ([cla, ins, p1, p2] ++ [UInt8.ofNat data.length] ++
        data).getD 4 0 = UInt8.ofNat data.length := by
      simp
    rw [length, b1, size, if_neg (by omega), if_pos ⟨by omega, rfl⟩]
  unfold tpduOf
  rw [dif_pos case2S]
  exact ⟨_, rfl, rfl⟩

/-- The answer does not send 256 data bytes behind an ACK. -/
def PlainAnswer (answers : List (List UInt8) → Answer)
    (before : List (List UInt8)) (command : List UInt8) : Prop :=
  ∀ tpdu, tpduOf command = some tpdu →
    tpdu.Plain (answers (before ++ [command])).steps

theorem plain_of_le {header : List UInt8} (four : header.length = 4)
    {p3 : UInt8} (some : p3 ≠ 0) (before : List (List UInt8)) :
    PlainAnswer answers before (header ++ [p3]) := by
  intro tpdu short _ zero
  obtain ⟨_, short', -, le⟩ := tpduOf_receives four p3
  cases short.symm.trans short'
  rw [zero] at le
  exact absurd (UInt8.toNat_inj.mp le.symm) some

theorem plain_of_sends {command : List UInt8} {tpdu : Tpdu}
    (short : tpduOf command = some tpdu) (sends : tpdu.sends = true)
    (before : List (List UInt8)) : PlainAnswer answers before command := by
  intro _ short' receives
  cases short.symm.trans short'
  rw [sends] at receives
  cases receives

/-! ## What a function got -/

theorem Response.status_of_bytes {rsp : Response} {data : List UInt8}
    {sw1 sw2 : UInt8} (bytes : rsp.bytes = data ++ [sw1, sw2]) :
    rsp.sw1 = sw1 ∧ rsp.sw2 = sw2 := by
  have length : rsp.lr = data.length + 2 := by
    have length := congrArg List.length bytes
    rwa [Response.bytes, Memory.length_read, List.length_append] at length
  have byte (i : Nat) (inside : i < rsp.lr) :
      rsp.memory (2 + i) = (data ++ [sw1, sw2]).getD i 0 := by
    rw [← bytes]
    exact (Memory.getD_read rsp.memory 2 inside).symm
  constructor
  · show rsp.memory rsp.lr = sw1
    have first := byte data.length (by omega)
    rw [List.getD_append_right _ _ _ _ (Nat.le_refl _), Nat.sub_self] at first
    rw [length, Nat.add_comm]
    exact first
  · show rsp.memory (rsp.lr + 1) = sw2
    have second := byte (data.length + 1) (by omega)
    rw [List.getD_append_right _ _ _ _ (Nat.le_add_right _ 1),
      Nat.add_sub_cancel_left] at second
    rw [length, show data.length + 2 + 1 = 2 + (data.length + 1) by omega]
    exact second

/-- The function returns well after it has sent some TPDUs, with the response
that the answers to them make up. -/
structure Got (answers : List (List UInt8) → Answer) (s : Session)
    (more : List (List UInt8)) (o : Outcome) : Prop where
  ok : o.ret = .ok
  line : o.session.line = []
  tpdus : o.session.tpdus = s.tpdus ++ more
  rsp : o.rsp.bytes = responseOf (answersTo answers s.tpdus more)

section

variable {reader : Reader} {fuel : Nat} {tpdu : Tpdu} {command : List UInt8}
  {s : Session}

variable (card : reader.card = cardOf answers) (follows : FollowsT0 answers)
  (enough : patience ≤ fuel)

include card follows enough

theorem got_exchangeTPDU (short : tpduOf command = some tpdu)
    (plain : PlainAnswer answers s.tpdus command) (line : s.line = [])
    (rsp : Response) :
    Got answers s [command]
      (protocolT0ExchangeTPDU reader fuel command rsp s) := by
  obtain ⟨ok, bytes, after, tpdus⟩ := exchangeTPDU_answer card follows short
    (plain tpdu short) enough line rsp
  exact
    { ok
      line := after
      tpdus
      rsp := by
        rw [bytes, Response.bytes_put]
        exact (responseOf_singleton _).symm }

theorem got_receives {header : List UInt8} (four : header.length = 4)
    (p3 : UInt8) (plain : PlainAnswer answers s.tpdus (header ++ [p3]))
    (line : s.line = []) (rsp : Response) :
    Got answers s [header ++ [p3]]
      (protocolT0ExchangeTPDU reader fuel (header ++ [p3]) rsp s) := by
  obtain ⟨tpdu, short, -⟩ := tpduOf_receives four p3
  exact got_exchangeTPDU card follows enough short plain line rsp

end

theorem Got.status {s : Session} {o : Outcome} {tpdu : List UInt8}
    (got : Got answers s [tpdu] o) :
    o.rsp.sw1 = (answers (s.tpdus ++ [tpdu])).sw1 ∧
      o.rsp.sw2 = (answers (s.tpdus ++ [tpdu])).sw2 := by
  have bytes := got.rsp
  rw [answersTo, answersTo, responseOf_singleton] at bytes
  exact Response.status_of_bytes bytes

/-- What is copied is got as well. -/
theorem Got.copied {s : Session} {o : Outcome} {more : List (List UInt8)}
    (got : Got answers s more o) (rsp : Response) :
    Got answers s more (copied rsp o.rsp o.session) where
  ok := rfl
  line := got.line
  tpdus := got.tpdus
  rsp := by
    show (rsp.put o.rsp.bytes).bytes = _
    rw [Response.bytes_put, got.rsp]

/-- More TPDUs, behind those of which the answers have no data. -/
theorem Got.behind {s middle : Session} {o : Outcome}
    {first second : List (List UInt8)} (got : Got answers middle second o)
    (before : middle.tpdus = s.tpdus ++ first)
    (none : (answersTo answers s.tpdus first).flatMap Answer.data = [])
    (some : second ≠ []) : Got answers s (first ++ second) o where
  ok := got.ok
  line := got.line
  tpdus := by rw [got.tpdus, before, List.append_assoc]
  rsp := by
    rw [got.rsp, before, answersTo_append,
      responseOf_append none (answersTo_ne_nil some)]

/-- Status bytes that follow no data. -/
theorem Got.last {s : Session} {o : Outcome} {more : List (List UInt8)}
    (got : Got answers s more o) (some : more ≠ [])
    (none : (answersTo answers s.tpdus more).flatMap Answer.data = []) :
    ∃ last, (answersTo answers s.tpdus more).getLast? = .some last ∧
      o.rsp.sw1 = last.sw1 ∧ o.rsp.sw2 = last.sw2 := by
  have last := List.getLast?_eq_some_getLast
    (@answersTo_ne_nil answers s.tpdus _ some)
  have bytes := got.rsp
  rw [responseOf, none, last] at bytes
  exact ⟨_, last, @Response.status_of_bytes _ [] _ _ bytes⟩

/-! ## Case 3E -/

/-- An APDU for `le` bytes that is sent in TPDUs with this header.  For 256
bytes and more a zero is in the place of `Le`: the answer to it may not come
behind an ACK, and for more bytes it may neither announce a rest nor correct
the length after some data. -/
def Readable (answers : List (List UInt8) → Answer)
    (before : List (List UInt8)) (header : List UInt8) (le : Nat) : Prop :=
  256 ≤ le →
    let first := header ++ [0]
    let answer := answers (before ++ [first])
    PlainAnswer answers before first ∧
      (256 < le → answer.sw1 ≠ 0x61 ∧
        (answer.sw1 = 0x6C → answer.data = [] ∧
          (answer.sw2 = 0 → PlainAnswer answers (before ++ [first]) first)))

section

variable {reader : Reader} {fuel : Nat} {command : List UInt8} {s : Session}

variable (card : reader.card = cardOf answers) (follows : FollowsT0 answers)
  (enough : patience ≤ fuel)

include card follows enough

theorem got_case3E (four : (command.take 4).length = 4)
    (line : s.line = [])
    (readable : Readable answers s.tpdus (command.take 4)
      (expected (extendedLength command))) (rsp : Response) :
    ∃ more, more ≠ [] ∧ more.flatMap (List.drop 5) = [] ∧
      Got answers s more (protocolT0Case3E reader fuel command rsp s) := by
  have short (p3 : UInt8) : (command.take 4 ++ [p3]).drop 5 = [] :=
    List.drop_eq_nil_of_le (by rw [List.length_append, four]; rfl)
  have positive : 0 < expected (extendedLength command) := by
    unfold expected
    split <;> omega
  unfold protocolT0Case3E
  dsimp only
  generalize expected (extendedLength command) = le at readable positive ⊢
  split
  · rename_i small
    have plain : PlainAnswer answers s.tpdus
        (command.take 4 ++ [UInt8.ofNat le]) := by
      by_cases large : 256 ≤ le
      · obtain rfl := Nat.le_antisymm small large
        exact (readable large).1
      · apply plain_of_le four
        intro zero
        have zero := congrArg UInt8.toNat zero
        rw [UInt8.toNat_ofNat', Nat.mod_eq_of_lt (by omega)] at zero
        exact absurd zero (by simpa using Nat.ne_of_gt positive)
    exact ⟨[_], List.cons_ne_nil _ _, by rw [List.flatMap_singleton, short],
      got_receives card follows enough four _ plain line rsp⟩
  · rename_i large
    obtain ⟨plain, more⟩ := readable (by omega)
    obtain ⟨announced, corrected⟩ := more (by omega)
    have got := got_receives card follows enough four 0 plain line
      { memory := reader.case3E, lr := 0 }
    obtain ⟨sw1, sw2⟩ := got.status
    generalize protocolT0ExchangeTPDU reader fuel (command.take 4 ++ [0])
      { memory := reader.case3E, lr := 0 } s = o at got sw1 sw2 ⊢
    rw [if_neg (by rw [got.ok]; nofun), sw1]
    split
    · rename_i wrong
      obtain ⟨none, again⟩ := corrected wrong
      rw [sw2]
      have plain : PlainAnswer answers (s.tpdus ++ [command.take 4 ++ [0]])
          (command.take 4 ++
            [(answers (s.tpdus ++ [command.take 4 ++ [0]])).sw2]) := by
        by_cases zero : (answers (s.tpdus ++ [command.take 4 ++ [0]])).sw2 = 0
        · rw [zero]
          exact again zero
        · exact plain_of_le four zero _
      have plain' : PlainAnswer answers o.session.tpdus
          (command.take 4 ++
            [(answers (s.tpdus ++ [command.take 4 ++ [0]])).sw2]) := by
        rw [got.tpdus]
        exact plain
      have second := got_receives card follows enough four _ plain' got.line rsp
      refine ⟨[_] ++ [_], ?_, ?_, second.behind got.tpdus ?_ nofun⟩
      · nofun
      · rw [List.flatMap_append, List.flatMap_singleton,
          List.flatMap_singleton, short, short]
        rfl
      · simpa [answersTo] using none
    · exact ⟨[_], List.cons_ne_nil _ _,
        by rw [List.flatMap_singleton, short], got.copied rsp⟩

/-- Every answer to `GET RESPONSE` is counted with its status bytes. -/
theorem lr_getResponses {header : List UInt8} (four : header.length = 4)
    (never : ∀ before command, PlainAnswer answers before command)
    {le lx : Nat} (rounds : Nat) (tpduRsp rsp : Response)
    (line : s.line = [])
    (ok : (getResponses reader fuel header le lx rounds tpduRsp rsp s).ret =
      .ok) :
    ∃ more,
      (getResponses reader fuel header le lx rounds tpduRsp rsp
        s).session.tpdus = s.tpdus ++ more ∧
      (getResponses reader fuel header le lx rounds tpduRsp rsp s).rsp.lr =
        rsp.lr + ((answersTo answers s.tpdus more).map fun answer =>
          answer.data.length + 2).sum ∧
      (rsp.lr < le + 2 → more ≠ []) := by
  induction rounds generalizing tpduRsp rsp s with
  | zero => cases ok
  | succ rounds induction =>
      rw [getResponses] at ok ⊢
      dsimp only at ok ⊢
      split at ok
      · rename_i less
        have got := got_receives card follows enough four
          (UInt8.ofNat (min (le + 2 - rsp.lr) lx)) (never _ _) line tpduRsp
        rw [if_pos less]
        generalize protocolT0ExchangeTPDU reader fuel _ tpduRsp s = o
          at got ok ⊢
        rw [if_neg (by rw [got.ok]; nofun)] at ok ⊢
        split at ok
        · cases ok
        · rename_i fits
          rw [if_neg fits]
          have line : (o.session.wrote (rsp.lr - 2) o.rsp.lr).line = [] :=
            got.line
          obtain ⟨more, tpdus, lr, -⟩ := induction _ _ line ok
          refine ⟨(header ++ [UInt8.ofNat (min (le + 2 - rsp.lr) lx)]) :: more,
            ?_, ?_, fun _ => List.cons_ne_nil _ _⟩
          · rw [tpdus]
            show o.session.tpdus ++ more = _
            rw [got.tpdus, List.append_assoc]
            rfl
          · rw [lr]
            show rsp.lr + o.rsp.bytes.length +
              ((answersTo answers o.session.tpdus more).map _).sum = _
            rw [got.tpdus, got.rsp,
              length_responseOf (answersTo_ne_nil (List.cons_ne_nil _ _))]
            simp only [answersTo, List.map_cons, List.map_nil, List.sum_cons,
              List.sum_nil]
            omega
      · rename_i full
        rw [if_neg full]
        refine ⟨[], (List.append_nil _).symm, rfl, fun less => ?_⟩
        omega

/-- The response to an APDU for more than 256 bytes is too long by the status
bytes of every `GET RESPONSE`. -/
theorem readable_of_got (four : (command.take 4).length = 4)
    (never : ∀ before command, PlainAnswer answers before command)
    (line : s.line = []) {rsp : Response} {more : List (List UInt8)}
    {o : Outcome} (returns : protocolT0Case3E reader fuel command rsp s = o)
    (ok : o.ret = .ok) (tpdus : o.session.tpdus = s.tpdus ++ more)
    (bytes : o.rsp.bytes = responseOf (answersTo answers s.tpdus more)) :
    Readable answers s.tpdus (command.take 4)
      (expected (extendedLength command)) := by
  intro _
  refine ⟨never _ _, fun large => ?_⟩
  subst returns
  unfold protocolT0Case3E at ok tpdus bytes
  dsimp only at ok tpdus bytes
  rw [if_neg (Nat.not_le_of_lt large)] at ok tpdus bytes
  have first := got_receives card follows enough four 0 (never _ _) line
    { memory := reader.case3E, lr := 0 }
  obtain ⟨sw1, sw2⟩ := first.status
  obtain ⟨tpdu, short, -⟩ := tpduOf_receives four 0
  generalize protocolT0ExchangeTPDU reader fuel (command.take 4 ++ [0])
    { memory := reader.case3E, lr := 0 } s = o at first sw1 sw2 ok tpdus bytes
  rw [if_neg (by rw [first.ok]; nofun), sw1] at ok tpdus bytes
  constructor
  · intro announced
    rw [announced, if_neg (by decide), if_pos rfl] at ok tpdus bytes
    obtain ⟨rest, sent, lr, some⟩ := lr_getResponses card follows enough rfl
      never fuel _ _ (show (copied rsp o.rsp o.session).session.line = [] from
        first.line) ok
    have start : (copied rsp o.rsp o.session).rsp.lr =
        (answers (s.tpdus ++ [command.take 4 ++ [0]])).data.length + 2 := by
      show o.rsp.bytes.length = _
      rw [first.rsp,
        length_responseOf (answersTo_ne_nil (List.cons_ne_nil _ _))]
      simp [answersTo]
    have before : (copied rsp o.rsp o.session).session.tpdus =
        s.tpdus ++ [command.take 4 ++ [0]] := first.tpdus
    have few := (follows s.tpdus _ _ short).steps.length_data_le
    have total := tpdu.total_le
    have some := some (by
      rw [start]
      show (Answer.data _).length + 2 < _
      unfold Answer.data
      omega)
    rw [before] at sent lr
    rw [tpdus, List.append_assoc] at sent
    have all := List.append_cancel_left sent
    have length := congrArg List.length bytes
    rw [all, answersTo_append,
      length_responseOf (List.append_ne_nil_of_right_ne_nil _
        (answersTo_ne_nil some)), Response.bytes, Memory.length_read, lr, start,
      List.map_append, List.sum_append] at length
    have more := length_lt_sum (@answersTo_ne_nil answers
      (s.tpdus ++ [command.take 4 ++ [0]]) _ some)
    simp only [answersTo, List.map_cons, List.map_nil, List.sum_cons,
      List.sum_nil] at length
    omega
  · intro wrong
    refine ⟨?_, fun _ => never _ _⟩
    rw [if_pos wrong] at tpdus bytes
    have second := (got_receives card follows enough four o.rsp.sw2
      (never _ _) first.line rsp)
    rw [second.tpdus, first.tpdus, List.append_assoc] at tpdus
    have all := List.append_cancel_left tpdus
    have length := congrArg List.length (second.rsp.symm.trans bytes)
    rw [← all, answersTo_append, first.tpdus,
      length_responseOf (answersTo_ne_nil (List.cons_ne_nil _ _)),
      length_responseOf (List.append_ne_nil_of_right_ne_nil _
        (answersTo_ne_nil (List.cons_ne_nil _ _)))] at length
    simp only [answersTo, List.map_cons, List.map_nil, List.sum_cons,
      List.sum_nil, List.map_append, List.sum_append] at length
    exact List.length_eq_zero_iff.mp (by omega)

end

/-! ## The TPDUs that were sent -/

theorem prefix_exchangeTPDU (reader : Reader) (fuel : Nat)
    (command : List UInt8) (rsp : Response) (s : Session) :
    s.tpdus <+:
      (protocolT0ExchangeTPDU reader fuel command rsp s).session.tpdus := by
  unfold protocolT0ExchangeTPDU
  dsimp only
  split
  · exact List.prefix_refl _
  · split <;> exact List.prefix_append _ _

theorem prefix_getResponses (reader : Reader) (fuel : Nat)
    (header : List UInt8) (le lx rounds : Nat) (tpduRsp rsp : Response)
    (s : Session) :
    s.tpdus <+: (getResponses reader fuel header le lx rounds tpduRsp rsp
      s).session.tpdus := by
  induction rounds generalizing tpduRsp rsp s with
  | zero => exact List.prefix_refl _
  | succ rounds induction =>
      have first := prefix_exchangeTPDU reader fuel
        (header ++ [UInt8.ofNat (min (le + 2 - rsp.lr) lx)]) tpduRsp s
      rw [getResponses]
      dsimp only
      split
      · split
        · exact first
        · split
          · exact first
          · exact first.trans (induction _ _ (Session.wrote _ _ _))
      · exact List.prefix_refl _

/-- The first TPDU of an APDU for some bytes. -/
theorem sends_case3E (reader : Reader) (fuel : Nat) {command : List UInt8}
    (four : (command.take 4).length = 4) (rsp : Response) (s : Session) :
    ∃ tpdu, s.tpdus ++ [tpdu] <+:
      (protocolT0Case3E reader fuel command rsp s).session.tpdus := by
  have sent (p3 : UInt8) (rsp : Response) :
      (protocolT0ExchangeTPDU reader fuel (command.take 4 ++ [p3]) rsp
        s).session.tpdus = s.tpdus ++ [command.take 4 ++ [p3]] := by
    obtain ⟨tpdu, short, -⟩ := tpduOf_receives four p3
    unfold protocolT0ExchangeTPDU
    dsimp only
    rw [short]
    dsimp only
    split <;> rfl
  have first := sent 0 { memory := reader.case3E, lr := 0 }
  unfold protocolT0Case3E
  dsimp only
  split
  · rw [sent]
    exact ⟨_, List.prefix_refl _⟩
  · refine ⟨command.take 4 ++ [0], ?_⟩
    rw [← first]
    split
    · exact List.prefix_refl _
    · split
      · exact prefix_exchangeTPDU ..
      · split
        · exact prefix_getResponses reader fuel _ _ _ _ _ _
            (copied _ _ _).session
        · exact List.prefix_refl _

/-! ## The data -/

/-- The envelopes of an APDU, up to one that the card refuses. -/
def envelopesOf (answers : List (List UInt8) → Answer) (cla : UInt8) :
    Nat → List UInt8 → List (List UInt8) → List (List UInt8)
  | 0, _, _ => []
  | rounds + 1, left, before =>
      if left = [] then []
      else
        let n := min 255 left.length
        let tpdu := [cla, 0xC2, 0, 0] ++ [UInt8.ofNat n] ++ left.take n
        tpdu ::
          if (answers (before ++ [tpdu])).sw1 = 0x90 then
            envelopesOf answers cla rounds (left.drop n) (before ++ [tpdu])
          else []

/-- The data that the TPDUs carry. -/
def carried (tpdus : List (List UInt8)) : List UInt8 :=
  tpdus.flatMap (List.drop 5)

/-- An envelope was not answered with 0x90. -/
def Refused (answers : List (List UInt8) → Answer)
    (before tpdus : List (List UInt8)) : Prop :=
  ∃ front tpdu, front ++ [tpdu] <+: tpdus ∧ tpdu.getD 1 0 = 0xC2 ∧
    (answers (before ++ (front ++ [tpdu]))).sw1 ≠ 0x90

/-- The envelopes carry the APDU, unless one is refused. -/
theorem carried_envelopesOf (answers : List (List UInt8) → Answer)
    (cla : UInt8) {rounds : Nat} {left : List UInt8}
    (all : left.length ≤ rounds) (before : List (List UInt8)) :
    carried (envelopesOf answers cla rounds left before) <+: left ∧
      (carried (envelopesOf answers cla rounds left before) = left ∨
        Refused answers before
          (envelopesOf answers cla rounds left before)) := by
  induction rounds generalizing left before with
  | zero =>
      obtain rfl := List.length_eq_zero_iff.mp (Nat.le_zero.mp all)
      exact ⟨List.prefix_refl _, .inl rfl⟩
  | succ rounds induction =>
      rw [envelopesOf]
      split
      · rename_i none
        rw [none]
        exact ⟨List.prefix_refl _, .inl rfl⟩
      · rename_i some
        have positive := List.length_pos_iff.mpr some
        dsimp only
        generalize named : [cla, 0xC2, 0, 0] ++
          [UInt8.ofNat (min 255 left.length)] ++
            left.take (min 255 left.length) = tpdu
        have ins : tpdu.getD 1 0 = 0xC2 := by rw [← named]; rfl
        have data : tpdu.drop 5 = left.take (min 255 left.length) := by
          rw [← named]
          rfl
        unfold carried at induction ⊢
        rw [List.flatMap_cons, data]
        split
        · have fewer : (left.drop (min 255 left.length)).length ≤ rounds := by
            rw [List.length_drop]
            omega
          obtain ⟨front, whole⟩ := induction fewer (before ++ [tpdu])
          constructor
          · conv_rhs => rw [← List.take_append_drop (min 255 left.length) left]
            exact (List.prefix_append_right_inj _).mpr front
          · rcases whole with whole | ⟨front, last, sent, ins, refused⟩
            · left
              rw [whole, List.take_append_drop]
            · right
              refine ⟨tpdu :: front, last, ?_, ins, ?_⟩
              · exact List.cons_prefix_cons.mpr ⟨rfl, sent⟩
              · rw [List.append_assoc] at refused
                exact refused
        · rename_i refused
          rw [List.flatMap_nil, List.append_nil]
          exact ⟨List.take_prefix _ _, .inr ⟨[], tpdu, List.prefix_refl _, ins,
            refused⟩⟩

section

variable {reader : Reader} {fuel : Nat} {command : List UInt8} {s : Session}

variable (card : reader.card = cardOf answers) (follows : FollowsT0 answers)
  (enough : patience ≤ fuel)

include card follows enough

/-- A TPDU with data, and its answer without. -/
theorem got_sends (header data : List UInt8) (four : header.length = 4)
    (some : 0 < data.length) (few : data.length < 256) (line : s.line = [])
    (rsp : Response) :
    Got answers s [header ++ [UInt8.ofNat data.length] ++ data]
        (protocolT0ExchangeTPDU reader fuel
          (header ++ [UInt8.ofNat data.length] ++ data) rsp s) ∧
      (answers (s.tpdus ++
        [header ++ [UInt8.ofNat data.length] ++ data])).data = [] := by
  obtain ⟨tpdu, short, sends⟩ := tpduOf_sends four some few
  exact ⟨got_exchangeTPDU card follows enough short
      (plain_of_sends short sends _) line rsp,
    (follows s.tpdus _ _ short).steps.data_of_sends sends⟩

theorem got_envelopes {rounds : Nat} {left : List UInt8} (cla : UInt8)
    (some : left ≠ []) (all : left.length ≤ rounds) (line : s.line = [])
    (tpduRsp rsp : Response) :
    envelopesOf answers cla rounds left s.tpdus ≠ [] ∧
      (answersTo answers s.tpdus
        (envelopesOf answers cla rounds left s.tpdus)).flatMap
          Answer.data = [] ∧
      Got answers s (envelopesOf answers cla rounds left s.tpdus)
        (envelopes reader fuel cla rounds left tpduRsp rsp s) := by
  induction rounds generalizing left s tpduRsp with
  | zero => exact absurd (List.length_eq_zero_iff.mp (Nat.le_zero.mp all)) some
  | succ rounds induction =>
      have positive := List.length_pos_iff.mpr some
      have size : (left.take (min 255 left.length)).length =
          min 255 left.length := by
        rw [List.length_take]
        omega
      obtain ⟨got, none⟩ := got_sends card follows enough [cla, 0xC2, 0, 0]
        (left.take (min 255 left.length)) rfl (by omega) (by omega) line tpduRsp
      rw [size] at got none
      obtain ⟨sw1, -⟩ := got.status
      have alone : (answersTo answers s.tpdus
          [[cla, 0xC2, 0, 0] ++ [UInt8.ofNat (min 255 left.length)] ++
            left.take (min 255 left.length)]).flatMap Answer.data = [] := by
        rw [answersTo, answersTo, List.flatMap_singleton, none]
      rw [envelopesOf, envelopes, if_neg some, if_neg some]
      dsimp only
      generalize [cla, 0xC2, 0, 0] ++ [UInt8.ofNat (min 255 left.length)] ++
        left.take (min 255 left.length) = tpdu at got alone sw1 ⊢
      generalize protocolT0ExchangeTPDU reader fuel tpdu tpduRsp s = o
        at got sw1 ⊢
      have returned : o.ret ≠ .running := by rw [got.ok]; nofun
      rw [if_neg returned, sw1]
      split
      · split
        · rename_i more
          have some' : left.drop (min 255 left.length) ≠ [] := by
            intro nothing
            have length := congrArg List.length nothing
            rw [List.length_drop, List.length_nil] at length
            omega
          have fewer : (left.drop (min 255 left.length)).length ≤ rounds := by
            rw [List.length_drop]
            omega
          obtain ⟨later, nothing, second⟩ :=
            induction some' fewer got.line o.rsp.reset
          rw [got.tpdus] at later nothing second
          refine ⟨List.cons_ne_nil _ _, ?_, second.behind got.tpdus alone later⟩
          show (answersTo answers s.tpdus ([tpdu] ++ _)).flatMap _ = []
          rw [answersTo_append, List.flatMap_append, alone, nothing]
          rfl
        · rename_i last
          have nothing : left.drop (min 255 left.length) = [] :=
            List.drop_eq_nil_of_le (Nat.le_of_not_lt last)
          have ended : envelopesOf answers cla rounds
              (left.drop (min 255 left.length)) (s.tpdus ++ [tpdu]) = [] := by
            rw [nothing]
            cases rounds with
            | zero => rfl
            | succ rounds => rw [envelopesOf, if_pos rfl]
          rw [ended]
          exact ⟨List.cons_ne_nil _ _, alone, got.copied rsp⟩
      · exact ⟨List.cons_ne_nil _ _, alone, got.copied rsp⟩

end

/-! ## Extended commands -/

theorem length_of_extended {command : List UInt8} :
    (apduCmdCase command = .case2E →
      command.length = extendedLength command + 7 ∧
        0 < extendedLength command) ∧
    (apduCmdCase command = .case3E → command.length = 7) ∧
    (apduCmdCase command = .case4E →
      command.length = extendedLength command + 9 ∧
        0 < extendedLength command) := by
  unfold apduCmdCase
  grind

/-- The data field of a command. -/
def dataField (command : List UInt8) : List UInt8 :=
  if apduCmdCase command = .case3E then []
  else (command.drop 7).take (extendedLength command)

/-- The APDU goes out in envelopes. -/
def Enveloped (command : List UInt8) : Prop :=
  apduCmdCase command ≠ .case3E ∧ 256 ≤ extendedLength command

/-- The TPDUs carry the data field, or the APDU up to an envelope that is
refused. -/
structure Carries (answers : List (List UInt8) → Answer)
    (command : List UInt8) (tpdus : List (List UInt8)) : Prop where
  data : ¬ Enveloped command → carried tpdus = dataField command
  envelopes : Enveloped command → carried tpdus <+: command ∧
    (carried tpdus = command ∨ Refused answers [] tpdus)

/-- The TPDUs carry the data of the command, and the response is made up by
the answers. -/
structure Sound (answers : List (List UInt8) → Answer)
    (command : List UInt8) (o : Outcome) : Prop where
  ok : o.ret = .ok
  carries : Carries answers command o.session.tpdus
  rsp : o.rsp.bytes = responseOf (answersTo answers [] o.session.tpdus)

/-- The TPDUs with the data of a command. -/
def dataTpdus (answers : List (List UInt8) → Answer)
    (command : List UInt8) : List (List UInt8) :=
  if extendedLength command < 256 then
    [command.take 4 ++ [UInt8.ofNat (extendedLength command)] ++
      dataField command]
  else
    envelopesOf answers (command.getD 0 0) command.length command []

/-- How many bytes `GET RESPONSE` asks for after the data, if it is sent. -/
def getResponseLength (sw1 sw2 : UInt8) (le : Nat) : Option Nat :=
  if sw1 = 0x61 then some (if sw2 = 0 then le else min sw2.toNat le)
  else if sw1 &&& 0xF0 = 0x60 then none
  else some (expected (le % 256))

/-- The answers to the TPDUs of a command are read as they were given, and its
data are sent as they are. -/
def Fits (answers : List (List UInt8) → Answer) (command : List UInt8) :
    Prop :=
  (apduCmdCase command = .case3E →
    Readable answers [] (command.take 4)
      (expected (extendedLength command))) ∧
  (apduCmdCase command = .case4E →
    (extendedLength command < 256 →
      command.take (extendedLength command) = dataField command) ∧
    ∀ answer le,
      (answersTo answers [] (dataTpdus answers command)).getLast? =
        some answer →
      getResponseLength answer.sw1 answer.sw2 (expectedLength command) =
        some le →
      Readable answers (dataTpdus answers command)
        [command.getD 0 0, 0xC0, 0, 0] le)

theorem extendedLength_getResponse (cla hi lo : UInt8) :
    extendedLength [cla, 0xC0, 0, 0, 0, hi, lo] =
      hi.toNat * 256 + lo.toNat :=
  rfl

/-- The `GET RESPONSE` that follows asks for that many bytes. -/
theorem extendedGetResponse_eq {command : List UInt8} {tpduRsp : Response}
    {le : Nat}
    (length : getResponseLength tpduRsp.sw1 tpduRsp.sw2
      (expectedLength command) = some le) :
    ∃ apdu, extendedGetResponse command tpduRsp = some apdu ∧
      apdu.take 4 = [command.getD 0 0, 0xC0, 0, 0] ∧
      apdu.getD 0 0 = command.getD 0 0 ∧
      expected (extendedLength apdu) = le := by
  have bounds : 0 < expectedLength command ∧
      expectedLength command ≤ 65536 := by
    have hi := (command.getD (command.length - 2) 0).toNat_lt
    have lo := (command.getD (command.length - 1) 0).toNat_lt
    unfold expectedLength expected
    split <;> omega
  have two (n : Nat) (positive : 0 < n) (most : n ≤ 65536) :
      expected (extendedLength [command.getD 0 0, 0xC0, 0, 0, 0,
        UInt8.ofNat (n / 256), UInt8.ofNat n]) = n := by
    rw [extendedLength_getResponse, UInt8.toNat_ofNat', UInt8.toNat_ofNat']
    unfold expected
    split <;> omega
  unfold getResponseLength at length
  unfold extendedGetResponse
  dsimp only
  generalize expectedLength command = whole at bounds length ⊢
  split at length
  · rename_i announced
    rw [if_pos announced]
    cases length
    refine ⟨_, rfl, rfl, rfl, two _ ?_ ?_⟩
    · split
      · exact bounds.1
      · rename_i some
        have positive : 0 < tpduRsp.sw2.toNat := by
          apply Nat.pos_of_ne_zero
          intro zero
          exact some (UInt8.toNat_inj.mp zero)
        omega
    · split <;> omega
  · rename_i other
    rw [if_neg other]
    split at length
    · cases length
    · rename_i processed
      rw [if_neg processed]
      cases length
      refine ⟨_, rfl, rfl, rfl, ?_⟩
      rw [extendedLength_getResponse, UInt8.toNat_ofNat', UInt8.toNat_ofNat']
      congr 1
      omega

theorem take_extendedGetResponse {command apdu : List UInt8}
    {tpduRsp : Response}
    (follow : extendedGetResponse command tpduRsp = some apdu) :
    (apdu.take 4).length = 4 := by
  unfold extendedGetResponse at follow
  dsimp only at follow
  split at follow
  · cases follow
    rfl
  · split at follow
    · cases follow
    · cases follow
      rfl

theorem extendedGetResponse_eq_none {command : List UInt8}
    {tpduRsp : Response}
    (length : getResponseLength tpduRsp.sw1 tpduRsp.sw2
      (expectedLength command) = none) :
    extendedGetResponse command tpduRsp = none := by
  unfold getResponseLength at length
  unfold extendedGetResponse
  dsimp only
  split at length
  · cases length
  · rename_i other
    rw [if_neg other]
    split at length
    · rename_i processed
      rw [if_pos processed]
    · cases length

theorem length_dataField {command : List UInt8}
    (other : apduCmdCase command ≠ .case3E)
    (long : extendedLength command + 7 ≤ command.length) :
    (dataField command).length = extendedLength command := by
  rw [dataField, if_neg other, List.length_take, List.length_drop]
  omega

theorem carries_dataTpdus {command : List UInt8}
    (other : apduCmdCase command ≠ .case3E)
    (long : extendedLength command + 7 ≤ command.length)
    {more : List (List UInt8)} (none : carried more = []) :
    Carries answers command (dataTpdus answers command ++ more) where
  data := by
    intro short
    have few : extendedLength command < 256 :=
      Nat.lt_of_not_le fun large => short ⟨other, large⟩
    have five : (command.take 4 ++
        [UInt8.ofNat (extendedLength command)]).length = 5 := by
      rw [List.length_append, List.length_take]
      show min 4 command.length + 1 = 5
      omega
    rw [dataTpdus, if_pos few, carried, List.flatMap_append,
      List.flatMap_singleton, show more.flatMap _ = [] from none,
      List.append_nil, List.drop_left' five]
  envelopes := by
    intro enveloped
    rw [dataTpdus, if_neg (Nat.not_lt_of_le enveloped.2), carried,
      List.flatMap_append, show more.flatMap _ = [] from none, List.append_nil]
    obtain ⟨front, whole⟩ := carried_envelopesOf answers (command.getD 0 0)
      (Nat.le_refl command.length) []
    refine ⟨front, whole.imp id ?_⟩
    rintro ⟨front, tpdu, sent, ins, refused⟩
    exact ⟨front, tpdu, sent.trans (List.prefix_append _ _), ins, refused⟩

section

variable {reader : Reader} {fuel : Nat} {command : List UInt8}

/-- 4E1 sends the data of 2E, if it takes them from the right place. -/
theorem case4EData_eq (other : apduCmdCase command ≠ .case3E)
    (same : extendedLength command < 256 →
      command.take (extendedLength command) = dataField command)
    (s : Session) :
    case4EData reader fuel command s =
      protocolT0Case2E reader fuel command { memory := reader.case4E, lr := 0 }
        s := by
  unfold case4EData protocolT0Case2E
  dsimp only
  split
  · rename_i few
    rw [same few, dataField, if_neg other]
  · rfl

variable (card : reader.card = cardOf answers) (follows : FollowsT0 answers)
  (enough : patience ≤ fuel)

include card follows enough

theorem got_case2E (other : apduCmdCase command ≠ .case3E)
    (long : extendedLength command + 7 ≤ command.length)
    (some : 0 < extendedLength command) (rsp : Response) :
    dataTpdus answers command ≠ [] ∧
      (answersTo answers [] (dataTpdus answers command)).flatMap
        Answer.data = [] ∧
      Got answers .start (dataTpdus answers command)
        (protocolT0Case2E reader fuel command rsp .start) := by
  have size := length_dataField other long
  unfold dataTpdus protocolT0Case2E
  dsimp only
  split
  · rename_i few
    have four : (command.take 4).length = 4 := by
      rw [List.length_take]
      omega
    obtain ⟨got, none⟩ := got_sends (s := .start) card follows enough
      (command.take 4) (dataField command) four (by omega) (by omega) rfl rsp
    rw [size] at got none
    refine ⟨List.cons_ne_nil _ _, ?_, ?_⟩
    · rw [answersTo, answersTo, List.flatMap_singleton]
      exact none
    · have same : dataField command =
          (command.drop 7).take (extendedLength command) := if_neg other
      rw [same] at got ⊢
      exact got
  · have some : command ≠ [] := by
      rintro rfl
      cases long
    exact got_envelopes (s := .start) card follows enough _ some
      (Nat.le_refl _) rfl _ _

/-- A command that fits is sound. -/
theorem sound_of_fits (extended : apduCmdCase command = .case2E ∨
      apduCmdCase command = .case3E ∨ apduCmdCase command = .case4E)
    (fits : Fits answers command) (rsp : Response) :
    Sound answers command
      (protocolT0Command reader fuel command rsp .start) := by
  unfold protocolT0Command
  dsimp only
  rcases extended with case2E | case3E | case4E
  · obtain ⟨length, some⟩ := length_of_extended.1 case2E
    have other : apduCmdCase command ≠ .case3E := by rw [case2E]; nofun
    obtain ⟨-, -, got⟩ := got_case2E card follows enough other (by omega) some
      rsp.reset
    rw [if_neg (by omega), case2E]
    have carries : Carries answers command (dataTpdus answers command ++ []) :=
      carries_dataTpdus other (by omega) rfl
    rw [List.append_nil] at carries
    exact
      { ok := got.ok
        carries := got.tpdus ▸ carries
        rsp := got.tpdus ▸ got.rsp }
  · have length := length_of_extended.2.1 case3E
    have four : (command.take 4).length = 4 := by
      rw [List.length_take]
      omega
    obtain ⟨more, -, none, got⟩ := got_case3E (s := .start) card follows enough
      four rfl (fits.1 case3E) rsp.reset
    rw [if_neg (by omega), case3E]
    have carries : Carries answers command more :=
      { data := fun _ => by rw [dataField, if_pos case3E]; exact none
        envelopes := fun enveloped => absurd case3E enveloped.1 }
    exact
      { ok := got.ok
        carries := got.tpdus ▸ carries
        rsp := got.tpdus ▸ got.rsp }
  · obtain ⟨length, some⟩ := length_of_extended.2.2 case4E
    have other : apduCmdCase command ≠ .case3E := by rw [case4E]; nofun
    obtain ⟨same, readable⟩ := fits.2 case4E
    obtain ⟨sent, empty, got⟩ := got_case2E card follows enough other
      (by omega) some { memory := reader.case4E, lr := 0 }
    obtain ⟨last, answered, sw1, sw2⟩ := got.last sent empty
    rw [if_neg (by omega), case4E]
    dsimp only
    unfold protocolT0Case4E
    rw [case4EData_eq other same]
    generalize protocolT0Case2E reader fuel command
      { memory := reader.case4E, lr := 0 } .start = o at got sw1 sw2
    dsimp only
    rw [if_pos got.ok]
    cases length : getResponseLength last.sw1 last.sw2
        (expectedLength command) with
    | none =>
        have alone := extendedGetResponse_eq_none (by rw [sw1, sw2, length])
        have carries : Carries answers command
            (dataTpdus answers command ++ []) :=
          carries_dataTpdus other (by omega) rfl
        rw [List.append_nil] at carries
        rw [alone]
        have copy := got.copied rsp.reset
        exact
          { ok := copy.ok
            carries := copy.tpdus ▸ carries
            rsp := copy.tpdus ▸ copy.rsp }
    | some le =>
        have readable := readable last le answered length
        rw [← sw1, ← sw2] at length
        obtain ⟨apdu, follow, header, -, asks⟩ := extendedGetResponse_eq length
        rw [← header, ← asks] at readable
        have four : (apdu.take 4).length = 4 := by rw [header]; rfl
        have behind : o.session.tpdus = dataTpdus answers command := got.tpdus
        rw [← behind] at readable
        obtain ⟨more, some, none', second⟩ := got_case3E card follows enough
          four got.line readable rsp.reset
        have both := second.behind got.tpdus empty some
        rw [follow]
        exact
          { ok := both.ok
            carries := both.tpdus ▸ carries_dataTpdus other (by omega) none'
            rsp := both.tpdus ▸ both.rsp }

/-- The data come from the right place if they are sent as they are. -/
theorem data_of_sound (case4E : apduCmdCase command = .case4E)
    (few : extendedLength command < 256) {rsp : Response}
    (sound : Sound answers command
      (protocolT0Case4E reader fuel command rsp .start)) :
    command.take (extendedLength command) = dataField command := by
  obtain ⟨length, some⟩ := length_of_extended.2.2 case4E
  have other : apduCmdCase command ≠ .case3E := by rw [case4E]; nofun
  have four : (command.take 4).length = 4 := by
    rw [List.length_take]
    omega
  have size : (command.take (extendedLength command)).length =
      extendedLength command := by
    rw [List.length_take]
    omega
  obtain ⟨got, -⟩ := got_sends (s := .start) card follows enough
    (command.take 4) (command.take (extendedLength command)) four (by omega)
    (by omega) rfl { memory := reader.case4E, lr := 0 }
  rw [size] at got
  have carries := sound.carries.data fun enveloped =>
    Nat.not_lt_of_le enveloped.2 few
  obtain ⟨more, sent⟩ : [command.take 4 ++
      [UInt8.ofNat (extendedLength command)] ++
        command.take (extendedLength command)] <+:
      (protocolT0Case4E reader fuel command rsp .start).session.tpdus := by
    unfold protocolT0Case4E case4EData
    dsimp only
    rw [if_pos few]
    generalize protocolT0ExchangeTPDU reader fuel _ _ .start = o at got ⊢
    have tpdus : [_] = o.session.tpdus := got.tpdus.symm
    rw [if_pos got.ok, tpdus]
    split
    · rename_i apdu follow
      obtain ⟨first, sent⟩ := sends_case3E reader fuel
        (take_extendedGetResponse follow) rsp o.session
      exact (List.prefix_append _ _).trans sent
    · exact List.prefix_refl _
  have five : (command.take 4 ++
      [UInt8.ofNat (extendedLength command)]).length = 5 := by
    rw [List.length_append, four]
    rfl
  rw [← sent, carried, List.flatMap_append, List.flatMap_singleton,
    List.drop_left' five] at carries
  have lengths := congrArg List.length carries
  rw [List.length_append, size, length_dataField other (by omega)] at lengths
  rw [List.length_eq_zero_iff.mp (show (more.flatMap _).length = 0 by omega),
    List.append_nil] at carries
  exact carries

/-- A sound command fits, when no answer of 256 bytes comes behind an ACK. -/
theorem fits_of_sound
    (never : ∀ before command, PlainAnswer answers before command)
    {rsp : Response}
    (sound : Sound answers command
      (protocolT0Command reader fuel command rsp .start)) :
    Fits answers command := by
  unfold protocolT0Command at sound
  dsimp only at sound
  constructor
  · intro case3E
    have length := length_of_extended.2.1 case3E
    have four : (command.take 4).length = 4 := by
      rw [List.length_take]
      omega
    rw [if_neg (by omega), case3E] at sound
    exact readable_of_got (s := .start) card follows enough four never rfl rfl
      sound.ok rfl sound.rsp
  · intro case4E
    obtain ⟨length, some⟩ := length_of_extended.2.2 case4E
    have other : apduCmdCase command ≠ .case3E := by rw [case4E]; nofun
    rw [if_neg (by omega), case4E] at sound
    have same (few : extendedLength command < 256) :=
      data_of_sound card follows enough case4E few sound
    refine ⟨same, ?_⟩
    intro answer le answered length
    obtain ⟨sent, empty, got⟩ := got_case2E card follows enough other
      (by omega) some { memory := reader.case4E, lr := 0 }
    obtain ⟨last, final, sw1, sw2⟩ := got.last sent empty
    cases Option.some.inj (final.symm.trans answered)
    rw [← sw1, ← sw2] at length
    obtain ⟨apdu, follow, header, -, asks⟩ := extendedGetResponse_eq length
    have four := take_extendedGetResponse follow
    dsimp only at sound
    unfold protocolT0Case4E at sound
    rw [case4EData_eq other same] at sound
    dsimp only at sound
    rw [if_pos got.ok, follow] at sound
    generalize protocolT0Case2E reader fuel command
      { memory := reader.case4E, lr := 0 } .start = o at got sound
    obtain ⟨first, more, tpdus⟩ := sends_case3E reader fuel four rsp.reset
      o.session
    have behind : o.session.tpdus = dataTpdus answers command := got.tpdus
    rw [List.append_assoc] at tpdus
    have bytes := sound.rsp
    have some : [first] ++ more ≠ [] := List.cons_ne_nil _ _
    rw [← tpdus, behind, answersTo_append,
      responseOf_append empty (answersTo_ne_nil some)] at bytes
    have readable := readable_of_got card follows enough four never got.line
      rfl sound.ok tpdus.symm (by rw [behind]; exact bytes)
    rw [behind, header, asks] at readable
    exact readable

end

/-- An extended command for a card that follows T=0 is sound if it fits, and
only then, unless an answer of 256 bytes comes behind an ACK. -/
theorem extended_sound {reader : Reader} {fuel : Nat} {command : List UInt8}
    (extended : apduCmdCase command = .case2E ∨
      apduCmdCase command = .case3E ∨ apduCmdCase command = .case4E)
    (card : reader.card = cardOf answers) (follows : FollowsT0 answers)
    (enough : patience ≤ fuel) (rsp : Response) :
    (Fits answers command →
      Sound answers command
        (protocolT0Command reader fuel command rsp .start)) ∧
    ((∀ before command, PlainAnswer answers before command) →
      Sound answers command
        (protocolT0Command reader fuel command rsp .start) →
      Fits answers command) :=
  ⟨fun fits => sound_of_fits card follows enough extended fits rsp,
    fun never sound => fits_of_sound card follows enough never sound⟩

/-- A card that takes all data at once and answers 90 00. -/
def accepting (tpdus : List (List UInt8)) : Answer :=
  let steps :=
    match tpduOf (tpdus.getLastD []) with
    | some tpdu =>
        if tpdu.sends ∧ 0 < tpdu.lc ∧ procedure tpdu.ins tpdu.ins = .ack then
          [{ byte := tpdu.ins, block := [] }]
        else []
    | none => []
  { steps := steps, sw1 := 0x90, sw2 := 0x00 }

def acceptingReader : Reader :=
  { clearReader [] with card := cardOf accepting }

theorem followsT0_accepting : FollowsT0 accepting := by
  intro tpdus command tpdu short
  have status : procedure tpdu.ins 0x90 = .sw1 := by
    unfold procedure
    rw [if_neg (by decide), if_pos (by decide)]
  refine { steps := ?_, status }
  unfold accepting
  dsimp only
  rw [List.getLastD_concat, short]
  dsimp only
  split
  · rename_i takes
    obtain ⟨sends, some, ack⟩ := takes
    have total : tpdu.total = tpdu.lc := if_pos sends
    exact .all ack (total ▸ some) (if_pos sends).symm .nil
  · exact .nil

theorem updateBinary_sound :
    Sound accepting [0x00, 0xD6, 0x00, 0x00, 0x00, 0x00, 0x01, 0xAA]
      (protocolT0Command acceptingReader patience
        [0x00, 0xD6, 0x00, 0x00, 0x00, 0x00, 0x01, 0xAA]
        { memory := Memory.zero, lr := 0 } .start) := by
  have case2E : apduCmdCase
      [0x00, 0xD6, 0x00, 0x00, 0x00, 0x00, 0x01, 0xAA] = .case2E := by
    decide
  have fits : Fits accepting
      [0x00, 0xD6, 0x00, 0x00, 0x00, 0x00, 0x01, 0xAA] := by
    unfold Fits
    rw [case2E]
    exact ⟨nofun, nofun⟩
  have enough : patience ≤ patience := Nat.le_refl _
  exact (extended_sound (.inl case2E) rfl followsT0_accepting enough _).1 fits

/-- The data of a short command of case 4E are taken from its header. -/
theorem selectFile_not_sound :
    let o := protocolT0Command acceptingReader 3
      [0x00, 0xA4, 0x00, 0x00, 0x00, 0x00, 0x01, 0x3F, 0x00, 0x10]
      { memory := Memory.zero, lr := 0 } .start
    FollowsT0 accepting ∧ acceptingReader.card = cardOf accepting ∧
      o.ret = .ok ∧ ¬ Sound accepting
        [0x00, 0xA4, 0x00, 0x00, 0x00, 0x00, 0x01, 0x3F, 0x00, 0x10] o := by
  intro o
  refine ⟨followsT0_accepting, rfl, rfl, ?_⟩
  intro sound
  have data := sound.carries.data (by
    rintro ⟨-, large⟩
    exact absurd large (by decide))
  have sent : carried o.session.tpdus = [0x00] := rfl
  rw [sent] at data
  exact absurd data (by decide)

end Oscam.T0
