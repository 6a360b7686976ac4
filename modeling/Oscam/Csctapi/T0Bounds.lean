import Oscam.Csctapi.ProtocolT14
import Oscam.Csctapi.T0Transfer

/-!
# Bounds of the buffers for T=0 and T=14

Whatever bytes the card sends, an exchange stays inside its buffer.  A response
is left only on the way back from a `GET RESPONSE` that had nothing in front of
it, and the buffer for T=14 where a length is too large for it.
-/

namespace Oscam.T0

/-- A write to an array of so many bytes. -/
def Write.Inside (size : Nat) (write : Write) : Prop :=
  write.size = 0 ∨ 0 ≤ write.start ∧ write.start + write.size ≤ size

/-! ## One exchange -/

namespace Exchange

variable {inverse : Bool} {tpdu : Tpdu} {s s' e : Exchange} {recv n : Nat}

def Inside (s : Exchange) : Prop :=
  ∀ write ∈ s.writes, write.Inside maxShortResponse

theorem Adds.inside (adds : Adds s s' recv n) (inside : s.Inside)
    (fits : recv + n ≤ maxShortResponse) : s'.Inside := by
  obtain ⟨more, wrote, ofMore⟩ := adds
  intro write member
  rw [wrote] at member
  rcases List.mem_append.mp member with before | behind
  · exact inside write before
  · obtain ⟨start, size⟩ := ofMore write behind
    right
    omega

theorem Moved.inside {said : Procedure} (moved : Moved inverse tpdu s s' said)
    (below : s.recv < maxShortResponse) (inside : s.Inside) : s'.Inside := by
  have short := tpdu.short
  have size : maxShortResponse = 258 := rfl
  apply moved.writes.inside inside
  unfold Tpdu.block
  rcases moved.goes with rfl | rfl | rfl
  · dsimp only
    omega
  · dsimp only
    omega
  · dsimp only
    split <;> omega

theorem Moved.recv_le {said : Procedure} (moved : Moved inverse tpdu s s' said)
    (below : s.recv < maxShortResponse) : s'.recv ≤ maxShortResponse := by
  have short := tpdu.short
  have size : maxShortResponse = 258 := rfl
  rw [moved.recv]
  unfold Tpdu.next
  rcases moved.goes with rfl | rfl | rfl
  · exact Nat.le_of_lt below
  · dsimp only
    omega
  · dsimp only
    split <;> omega

theorem Ended.inside_exchange (ended : Ended inverse tpdu s e)
    (inside : s.Inside) : e.Inside := by
  have below := ended.inside
  obtain ⟨middle, first, second⟩ := ended.writes
  exact second.inside (first.inside inside (by omega)) (by omega)

/-- A round that ends with an error has read its procedure byte. -/
theorem round_error (fails : s.round inverse tpdu = .error e) :
    Adds s e s.recv 1 := by
  have first := adds_receive inverse s 1
  unfold Adds at first ⊢
  have same : e.writes = (s.receive inverse 1).writes := by
    unfold round at fails
    dsimp only at fails
    split at fails
    · unfold onNull at fails
      dsimp only at fails
      split at fails <;> cases fails
      rfl
    · unfold onStatus at fails
      dsimp only at fails
      split at fails <;> cases fails
      rfl
    · unfold onAck at fails
      dsimp only at fails
      split at fails <;> split at fails <;> cases fails <;> rfl
    · unfold onComplement at fails
      dsimp only at fails
      split at fails <;> split at fails <;> cases fails <;> rfl
    · cases fails
      rfl
  rw [same]
  exact first

/-- Every run of the loop stays inside the buffer, and a response that is
returned has two bytes at least. -/
theorem inside_of_loop (fuel : Nat) (quiet : tpdu.sends = true → s.recv = 0)
    (below : s.recv ≤ maxShortResponse) (inside : s.Inside) :
    (s.loop inverse tpdu fuel).state.Inside ∧
      ∀ e, s.loop inverse tpdu fuel = .ended e →
        2 ≤ e.recv ∧ e.recv ≤ maxShortResponse := by
  induction fuel generalizing s with
  | zero =>
      refine ⟨inside, ?_⟩
      intro _ ended
      cases ended
  | succ fuel induction =>
      rw [loop]
      split
      · rename_i less
        cases next : s.round inverse tpdu with
        | again s' =>
            obtain ⟨said, moved⟩ := round_again quiet next
            exact induction (moved.quiet quiet) (moved.recv_le less)
              (moved.inside less inside)
        | ended e =>
            have ended := round_ended next
            have room := ended.inside
            refine ⟨ended.inside_exchange inside, ?_⟩
            intro _ same
            cases same
            rw [ended.recv]
            omega
        | error e =>
            refine ⟨(round_error next).inside inside (by omega), ?_⟩
            intro _ ended
            cases ended
      · rename_i full
        refine ⟨inside, ?_⟩
        intro _ same
        cases same
        have size : maxShortResponse = 258 := rfl
        omega

end Exchange

/-! ## The responses -/

namespace Session

structure Inside (s : Session) : Prop where
  buffers : ∀ write ∈ s.buffers, write.Inside maxShortResponse
  responses : ∀ write ∈ s.responses, write.Inside ctaResLen

theorem inside_start : Session.start.Inside where
  buffers := nofun
  responses := nofun

theorem Inside.wrote {s : Session} (inside : s.Inside) {start : Int}
    {size : Nat}
    (fits : Write.Inside ctaResLen { start := start, size := size }) :
    (s.wrote start size).Inside where
  buffers := inside.buffers
  responses := by
    intro write member
    rcases List.mem_append.mp member with before | last
    · exact inside.responses write before
    · rw [List.mem_singleton.mp last]
      exact fits

end Session

variable {reader : Reader} {fuel : Nat} {command : List UInt8}
  {rsp tpduRsp : Response} {s : Session}

theorem inside_exchange (reader : Reader) (fuel : Nat) (tpdu : Tpdu)
    (command : List UInt8) (s : Session) :
    (exchange reader fuel tpdu command s).state.Inside ∧
      ∀ e, exchange reader fuel tpdu command s = .ended e →
        2 ≤ e.recv ∧ e.recv ≤ maxShortResponse :=
  Exchange.inside_of_loop fuel (fun _ => rfl) (Nat.zero_le _) nofun

/-- What `Protocol_T0_ExchangeTPDU` leaves: a response of two bytes or more, or
none. -/
structure Answered (reader : Reader) (rsp : Response) (o : Outcome) : Prop where
  inside : o.session.Inside
  some : o.ret = .ok → 2 ≤ o.rsp.lr ∧ o.rsp.lr ≤ maxShortResponse
  none : o.ret ≠ .ok → o.rsp = rsp.reset

theorem answered_exchangeTPDU (reader : Reader) (fuel : Nat)
    (command : List UInt8) (rsp : Response) (inside : s.Inside) :
    Answered reader rsp
      (protocolT0ExchangeTPDU reader fuel command rsp s) := by
  unfold protocolT0ExchangeTPDU
  dsimp only
  split
  · exact { inside, some := nofun, none := fun _ => rfl }
  · rename_i tpdu short
    obtain ⟨within, size⟩ := inside_exchange reader fuel tpdu command s
    have after (e : Exchange) (within : e.Inside) :
        (s.after command e).Inside :=
      { buffers := by
          intro write member
          rcases List.mem_append.mp member with before | behind
          · exact inside.buffers write before
          · exact within write behind
        responses := inside.responses }
    cases next : exchange reader fuel tpdu command s with
    | again e =>
        rw [next] at within
        exact
          { inside := after e within, some := nofun, none := fun _ => rfl }
    | error e =>
        rw [next] at within
        exact
          { inside := after e within, some := nofun, none := fun _ => rfl }
    | ended e =>
        rw [next] at within
        have bounds := size e next
        have fits : Write.Inside ctaResLen { start := 0, size := e.recv } := by
          refine .inr ⟨Int.le_refl 0, ?_⟩
          show (0 : Int) + e.recv ≤ (512 : Nat)
          have size : maxShortResponse = 258 := rfl
          omega
        exact
          { inside := (after e within).wrote fits
            some := by
              intro _
              show 2 ≤ e.rsp.length ∧ e.rsp.length ≤ maxShortResponse
              rw [e.length_rsp]
              exact bounds
            none := fun other => absurd rfl other }

theorem Answered.size {o : Outcome} (answered : Answered reader rsp o) :
    o.rsp.lr ≤ maxShortResponse := by
  by_cases ok : o.ret = .ok
  · exact (answered.some ok).2
  · rw [answered.none ok]
    exact Nat.zero_le _

/-- Within the bounds, with a response that is no longer than that of a
TPDU. -/
structure Bounded (o : Outcome) : Prop where
  inside : o.session.Inside
  size : o.rsp.lr ≤ maxShortResponse

theorem bounded_exchangeTPDU (reader : Reader) (fuel : Nat)
    (command : List UInt8) (rsp : Response) (inside : s.Inside) :
    Bounded (protocolT0ExchangeTPDU reader fuel command rsp s) where
  inside := (answered_exchangeTPDU reader fuel command rsp inside).inside
  size := (answered_exchangeTPDU reader fuel command rsp inside).size

theorem bounded_copied (rsp : Response) (inside : s.Inside)
    (size : tpduRsp.lr ≤ maxShortResponse) :
    Bounded (copied rsp tpduRsp s) where
  inside := by
    apply inside.wrote
    refine .inr ⟨Int.le_refl 0, ?_⟩
    show (0 : Int) + tpduRsp.lr ≤ (512 : Nat)
    have bound : maxShortResponse = 258 := rfl
    omega
  size := by
    show tpduRsp.bytes.length ≤ maxShortResponse
    rw [Response.bytes, Memory.length_read]
    exact size

theorem bounded_envelopes (reader : Reader) (fuel : Nat) (cla : UInt8)
    (rounds : Nat) (left : List UInt8) (tpduRsp : Response)
    (size : rsp.lr ≤ maxShortResponse) (inside : s.Inside) :
    Bounded (envelopes reader fuel cla rounds left tpduRsp rsp s) := by
  induction rounds generalizing left tpduRsp s with
  | zero => exact { inside, size }
  | succ rounds induction =>
      rw [envelopes]
      split
      · exact { inside, size }
      · have bounded := bounded_exchangeTPDU reader fuel
          ([cla, 0xC2, 0, 0] ++ [UInt8.ofNat (min 255 left.length)] ++
            left.take (min 255 left.length)) tpduRsp inside
        dsimp only
        split
        · exact { inside := bounded.inside, size }
        · split
          · split
            · exact induction _ _ bounded.inside
            · exact bounded_copied _ bounded.inside bounded.size
          · exact bounded_copied _ bounded.inside bounded.size

theorem bounded_case2E (size : rsp.lr ≤ maxShortResponse)
    (inside : s.Inside) :
    Bounded (protocolT0Case2E reader fuel command rsp s) := by
  unfold protocolT0Case2E
  dsimp only
  split
  · exact bounded_exchangeTPDU reader fuel _ _ inside
  · exact bounded_envelopes reader fuel _ _ _ _ size inside

theorem bounded_case4EData (reader : Reader) (fuel : Nat)
    (command : List UInt8) (inside : s.Inside) :
    Bounded (case4EData reader fuel command s) := by
  unfold case4EData
  dsimp only
  split
  · exact bounded_exchangeTPDU reader fuel _ _ inside
  · exact bounded_case2E (Nat.zero_le _) inside

/-! ## `GET RESPONSE` -/

/-- As long as nothing is answered to a TPDU that is repeated, the next one
follows; then there is an answer. -/
def Late (reader : Reader) (fuel : Nat) (tpdu : List UInt8) :
    Nat → Session → Prop
  | 0, _ => False
  | rounds + 1, s =>
      let o := protocolT0ExchangeTPDU reader fuel tpdu
        { memory := Memory.zero, lr := 0 } s
      o.ret = .ok ∨ o.ret = .error ∧ Late reader fuel tpdu rounds o.session

/-- The card has got the same so far. -/
def SameCard (s other : Session) : Prop :=
  s.line = other.line ∧ s.tpdus = other.tpdus

/-- `rsp` and what was written before have no part in what is exchanged. -/
theorem exchangeTPDU_congr (reader : Reader) (fuel : Nat)
    (command : List UInt8) (rsp other : Response) {s t : Session}
    (same : SameCard s t) :
    (protocolT0ExchangeTPDU reader fuel command rsp s).ret =
        (protocolT0ExchangeTPDU reader fuel command other t).ret ∧
      SameCard (protocolT0ExchangeTPDU reader fuel command rsp s).session
        (protocolT0ExchangeTPDU reader fuel command other t).session := by
  obtain ⟨line, tpdus⟩ := same
  have exchanged (tpdu : Tpdu) :
      exchange reader fuel tpdu command s =
        exchange reader fuel tpdu command t := by
    unfold exchange
    rw [line, tpdus]
  have after (e : Exchange) :
      SameCard (s.after command e) (t.after command e) :=
    ⟨rfl, congrArg (· ++ [command]) tpdus⟩
  unfold protocolT0ExchangeTPDU
  dsimp only
  cases tpduOf command with
  | none => exact ⟨rfl, line, tpdus⟩
  | some tpdu =>
      dsimp only
      rw [exchanged]
      cases exchange reader fuel tpdu command t with
      | again e => exact ⟨rfl, after e⟩
      | error e => exact ⟨rfl, after e⟩
      | ended e => exact ⟨rfl, after e⟩

theorem length_bytes (rsp : Response) : rsp.bytes.length = rsp.lr :=
  Memory.length_read rsp.memory 2 rsp.lr

section

variable {header : List UInt8} {le lx : Nat}

theorem responses_exchangeTPDU (s : Session) {write : Write}
    (member : write ∈ s.responses) :
    write ∈ (protocolT0ExchangeTPDU reader fuel command rsp
      s).session.responses := by
  unfold protocolT0ExchangeTPDU
  dsimp only
  split
  · exact member
  · split
    · exact member
    · exact member
    · exact List.mem_append_left _ member

theorem responses_getResponses (rounds : Nat) (tpduRsp rsp : Response)
    (s : Session) {write : Write} (member : write ∈ s.responses) :
    write ∈ (getResponses reader fuel header le lx rounds tpduRsp rsp
      s).session.responses := by
  induction rounds generalizing tpduRsp rsp s with
  | zero => exact member
  | succ rounds induction =>
      rw [getResponses]
      dsimp only
      split
      · split
        · exact responses_exchangeTPDU s member
        · split
          · exact responses_exchangeTPDU s member
          · apply induction
            exact List.mem_append_left _ (responses_exchangeTPDU s member)
      · exact member

/-- Behind status bytes, the responses stay inside. -/
theorem inside_getResponses (rounds : Nat) (tpduRsp : Response)
    (some : 2 ≤ rsp.lr) (inside : s.Inside) :
    (getResponses reader fuel header le lx rounds tpduRsp rsp
      s).session.Inside := by
  induction rounds generalizing tpduRsp rsp s with
  | zero => exact inside
  | succ rounds induction =>
      rw [getResponses]
      dsimp only
      split
      · have answered := answered_exchangeTPDU reader fuel
          (header ++ [UInt8.ofNat (min (le + 2 - rsp.lr) lx)]) tpduRsp inside
        split
        · exact answered.inside
        · split
          · exact answered.inside
          · rename_i fits
            apply induction
            · exact Nat.le_add_right_of_le some
            · apply answered.inside.wrote
              right
              dsimp only
              omega
      · exact inside

/-- With nothing in front, the first answer is written in front of `rsp`. -/
theorem inside_getResponses_iff (rounds : Nat) (tpduRsp : Response)
    {t : Session} (nothing : rsp.lr = 0) (more : lx ≤ le) (positive : 0 < le)
    (inside : s.Inside) (card : SameCard s t) :
    (getResponses reader fuel header le lx rounds tpduRsp rsp
        s).session.Inside ↔
      ¬ Late reader fuel (header ++ [UInt8.ofNat lx]) rounds t := by
  induction rounds generalizing tpduRsp rsp s t with
  | zero => exact iff_of_true inside nofun
  | succ rounds induction =>
      have same : min (le + 2 - rsp.lr) lx = lx := by omega
      obtain ⟨ret, session⟩ := exchangeTPDU_congr reader fuel
        (header ++ [UInt8.ofNat lx]) tpduRsp { memory := Memory.zero, lr := 0 }
        card
      have answered := answered_exchangeTPDU reader fuel
        (header ++ [UInt8.ofNat lx]) tpduRsp inside
      rw [getResponses, Late]
      dsimp only
      rw [same, if_pos (by omega), ← ret]
      generalize protocolT0ExchangeTPDU reader fuel
        (header ++ [UInt8.ofNat lx]) tpduRsp s = o at answered session ⊢
      cases returned : o.ret with
      | running =>
          rw [if_pos rfl]
          refine iff_of_true answered.inside ?_
          rintro (other | ⟨other, -⟩) <;> cases other
      | error =>
          have none := answered.none (by rw [returned]; nofun)
          have empty : o.rsp.lr = 0 := congrArg Response.lr none
          have appended : (rsp.append o.rsp.bytes).lr = 0 := by
            show rsp.lr + o.rsp.bytes.length = 0
            rw [length_bytes, nothing, empty]
          have wrote : (o.session.wrote (rsp.lr - 2) o.rsp.lr).Inside :=
            answered.inside.wrote (.inl empty)
          rw [if_neg nofun, if_neg (by rw [nothing, empty]; exact nofun)]
          refine (induction _ appended wrote session).trans (not_congr ?_)
          exact ⟨fun late => .inr ⟨rfl, late⟩, fun late =>
            late.elim (fun other => nomatch other) And.right⟩
      | ok =>
          obtain ⟨some, size⟩ := answered.some returned
          have bound : maxShortResponse = 258 := rfl
          have room : ¬ ctaResLen < rsp.lr + o.rsp.lr := by
            show ¬ 512 < rsp.lr + o.rsp.lr
            omega
          rw [if_neg nofun, if_neg room]
          refine iff_of_false ?_ (fun late => late (.inl rfl))
          intro within
          have outside := within.responses
            { start := (rsp.lr : Int) - 2, size := o.rsp.lr }
            (responses_getResponses rounds _ _ _
              (List.mem_append_right _ (List.mem_singleton.mpr rfl)))
          rcases outside with none | ⟨start, -⟩
          · dsimp only at none
            omega
          · dsimp only at start
            omega

end

/-- The first TPDU of an APDU for more than 256 bytes fails, what is in front
of `tpdu_rsp` reads as 0x61, and a `GET RESPONSE` is answered after all. -/
def Astray (reader : Reader) (fuel : Nat) (command : List UInt8)
    (s : Session) : Prop :=
  let first := protocolT0ExchangeTPDU reader fuel (command.take 4 ++ [0])
    { memory := reader.case3E, lr := 0 } s
  256 < expected (extendedLength command) ∧ first.ret = .error ∧
    reader.case3E 0 = 0x61 ∧
      Late reader fuel ([command.getD 0 0, 0xC0, 0, 0] ++ [reader.case3E 1])
        fuel first.session

theorem ofNat_lx (sw2 : UInt8) :
    UInt8.ofNat (if sw2 = 0 then 256 else sw2.toNat) = sw2 := by
  split
  · rename_i zero
    rw [zero]
    rfl
  · exact UInt8.ofNat_toNat

theorem inside_case3E_iff (inside : s.Inside) :
    (protocolT0Case3E reader fuel command rsp s).session.Inside ↔
      ¬ Astray reader fuel command s := by
  unfold protocolT0Case3E Astray
  dsimp only
  have answered := answered_exchangeTPDU reader fuel (command.take 4 ++ [0])
    { memory := reader.case3E, lr := 0 } inside
  have size := answered.size
  generalize protocolT0ExchangeTPDU reader fuel (command.take 4 ++ [0])
    { memory := reader.case3E, lr := 0 } s = o at answered size ⊢
  split
  · rename_i short
    refine iff_of_true (answered_exchangeTPDU _ _ _ _ inside).inside ?_
    rintro ⟨long, -⟩
    omega
  · rename_i long
    have lx_le : (if o.rsp.sw2 = 0 then 256 else o.rsp.sw2.toNat) ≤
        expected (extendedLength command) := by
      have byte := o.rsp.sw2.toNat_lt
      split <;> omega
    cases returned : o.ret with
    | running =>
        rw [if_pos rfl]
        refine iff_of_true answered.inside ?_
        rintro ⟨-, other, -⟩
        cases other
    | ok =>
        obtain ⟨some, -⟩ := answered.some returned
        rw [if_neg nofun]
        refine iff_of_true ?_ (fun astray => nomatch astray.2.1)
        have copy := bounded_copied rsp answered.inside size
        split
        · exact (answered_exchangeTPDU _ _ _ _ answered.inside).inside
        · split
          · apply inside_getResponses _ _ _ copy.inside
            show 2 ≤ o.rsp.bytes.length
            rw [length_bytes]
            exact some
          · exact copy.inside
    | error =>
        have none := answered.none (by rw [returned]; nofun)
        have copy := bounded_copied rsp answered.inside size
        have sw1 : o.rsp.sw1 = reader.case3E 0 := by rw [none]; rfl
        have sw2 : o.rsp.sw2 = reader.case3E 1 := by rw [none]; rfl
        rw [if_neg nofun]
        split
        · rename_i other
          have again := answered_exchangeTPDU reader fuel
            (command.take 4 ++ [o.rsp.sw2]) rsp answered.inside
          refine iff_of_true again.inside ?_
          rintro ⟨-, -, more, -⟩
          rw [sw1, more] at other
          exact absurd other (by decide)
        · split
          · rename_i more
            have empty : (copied rsp o.rsp o.session).rsp.lr = 0 := by
              show o.rsp.bytes.length = 0
              rw [length_bytes, none]
              rfl
            have card : SameCard (copied rsp o.rsp o.session).session
                o.session := ⟨rfl, rfl⟩
            refine (inside_getResponses_iff fuel _ empty lx_le (by omega)
              copy.inside card).trans (not_congr ?_)
            rw [ofNat_lx, sw2]
            rw [sw1] at more
            exact ⟨fun late => ⟨by omega, rfl, more, late⟩,
              fun astray => astray.2.2.2⟩
          · rename_i more
            refine iff_of_true copy.inside ?_
            rintro ⟨-, -, same, -⟩
            exact more (sw1.trans same)

/-! ## Commands -/

/-- The call of `Protocol_T0_Case3E` that a command leads to. -/
def case3ECall (reader : Reader) (fuel : Nat) (command : List UInt8)
    (s : Session) : Option (List UInt8 × Session) :=
  match apduCmdCase command with
  | .case3E => some (command, s)
  | .case4E =>
      let o := case4EData reader fuel command s
      if o.ret = .ok then
        (extendedGetResponse command o.rsp).map fun apdu => (apdu, o.session)
      else none
  | _ => none

theorem five_le_of_case {command : List UInt8}
    (extended : apduCmdCase command ≠ .case1) : 5 ≤ command.length := by
  by_contra short
  apply extended
  unfold apduCmdCase
  exact if_pos (by omega)

/-- The writes of `Protocol_T0_Command`. -/
theorem inside_command_iff (reader : Reader) (fuel : Nat)
    (command : List UInt8) (rsp : Response) :
    (protocolT0Command reader fuel command rsp .start).session.Inside ↔
      ∀ apdu s, case3ECall reader fuel command .start = some (apdu, s) →
        ¬ Astray reader fuel apdu s := by
  have inside := Session.inside_start
  unfold protocolT0Command case3ECall
  dsimp only
  split
  · rename_i short
    refine iff_of_true inside ?_
    have case1 : apduCmdCase command = .case1 := by
      by_contra other
      have long := five_le_of_case other
      omega
    rw [case1]
    nofun
  · cases apduCmdCase command with
    | case1 => exact iff_of_true inside nofun
    | malformed => exact iff_of_true inside nofun
    | case2S =>
        exact iff_of_true (bounded_exchangeTPDU reader fuel _ _ inside).inside
          nofun
    | case3S =>
        exact iff_of_true (bounded_exchangeTPDU reader fuel _ _ inside).inside
          nofun
    | case4S =>
        exact iff_of_true (bounded_exchangeTPDU reader fuel _ _ inside).inside
          nofun
    | case2E =>
        exact iff_of_true (bounded_case2E (Nat.zero_le _) inside).inside nofun
    | case3E =>
        refine (inside_case3E_iff inside).trans ?_
        constructor
        · rintro fine apdu s called
          cases called
          exact fine
        · intro fine
          exact fine _ _ rfl
    | case4E =>
        unfold protocolT0Case4E
        dsimp only
        have bounded := bounded_case4EData reader fuel command inside
        generalize case4EData reader fuel command .start = o at bounded ⊢
        split
        · cases extendedGetResponse command o.rsp with
          | none =>
              exact iff_of_true
                (bounded_copied _ bounded.inside bounded.size).inside nofun
          | some apdu =>
              refine (inside_case3E_iff bounded.inside).trans ?_
              constructor
              · rintro fine _ s called
                cases called
                exact fine
              · intro fine
                exact fine _ _ rfl
        · exact iff_of_true bounded.inside nofun

end Oscam.T0

namespace Oscam.T14

open T0 (Write icWrite ctaResLen maxShortResponse apduCmdCase)

/-- Every write is inside `buffer`, or inside `rsp`. -/
structure Outcome.Inside (o : Outcome) : Prop where
  buffer : ∀ write ∈ o.buffer, write.Inside maxShortResponse
  response : ∀ write ∈ o.response, write.Inside ctaResLen

/-- The lengths fit: that of the command where it is copied, the bytes that
come behind the first eight, and the length byte when the checksum is right. -/
structure Fits (beyondMouse inverse : Bool) (stack : Memory)
    (command line : List UInt8) : Prop where
  copied : beyondMouse = true → command.length ≤ 256
  come : (icWrite inverse 8
    (lengthByte beyondMouse inverse stack command line)
    (line.drop 8)).size ≤ 250
  status : checks beyondMouse inverse stack command line = true →
    lengthByte beyondMouse inverse stack command line ≤ 248

theorem inside_sentWrites_iff (beyondMouse : Bool) (command : List UInt8) :
    (∀ write ∈ sentWrites beyondMouse command,
        write.Inside maxShortResponse) ↔
      (beyondMouse = true → command.length ≤ 256) := by
  unfold sentWrites
  cases beyondMouse with
  | false =>
      exact iff_of_true (List.forall_mem_nil _)
        fun wrong => absurd wrong Bool.false_ne_true
  | true =>
      rw [if_pos rfl]
      simp only [List.forall_mem_cons, Write.Inside, maxShortResponse]
      constructor
      · rintro ⟨-, -, last, -⟩ -
        omega
      · intro fits
        have fits := fits trivial
        exact ⟨by omega, by omega, by omega, List.forall_mem_nil _⟩

theorem inside_answerWrites_iff (beyondMouse inverse : Bool) (stack : Memory)
    (command line : List UInt8) :
    (∀ write ∈ answerWrites beyondMouse inverse stack command line,
        write.Inside maxShortResponse) ↔
      (icWrite inverse 8 (lengthByte beyondMouse inverse stack command line)
        (line.drop 8)).size ≤ 250 := by
  have header : (icWrite inverse 0 8 line).Inside maxShortResponse := by
    have size := T0.Exchange.size_icWrite_le inverse 0 8 line
    refine .inr ⟨Int.le_refl 0, ?_⟩
    show (0 : Int) + (icWrite inverse 0 8 line).size ≤ (258 : Nat)
    omega
  unfold answerWrites
  dsimp only
  split
  · rename_i none
    rw [none]
    refine iff_of_true ?_
      (Nat.le_trans (T0.Exchange.size_icWrite_le inverse 8 0 _)
        (Nat.zero_le 250))
    intro write member
    rw [List.mem_singleton.mp member]
    exact header
  · simp only [List.forall_mem_cons, header, true_and]
    have start : (icWrite inverse 8
      (lengthByte beyondMouse inverse stack command line)
      (line.drop 8)).start = 8 := rfl
    simp only [Write.Inside, maxShortResponse, start]
    constructor
    · rintro ⟨inside, -⟩
      omega
    · intro fits
      exact ⟨by omega, nofun⟩

theorem inside_exchangeTPDU_iff (beyondMouse inverse : Bool) (stack : Memory)
    (command line : List UInt8) :
    (protocolT14ExchangeTPDU beyondMouse inverse stack command line).Inside ↔
      (apduCmdCase command = .case2S ∨ apduCmdCase command = .case3S →
        Fits beyondMouse inverse stack command line) := by
  unfold protocolT14ExchangeTPDU
  dsimp only
  have byte : lengthByte beyondMouse inverse stack command line < 256 :=
    UInt8.toNat_lt _
  split
  · rename_i other
    refine iff_of_true
      { buffer := List.forall_mem_nil _, response := List.forall_mem_nil _ } ?_
    rintro (case2S | case3S)
    · exact absurd case2S other.1
    · exact absurd case3S other.2
  · rename_i short
    have sends := inside_sentWrites_iff beyondMouse command
    have receives :=
      inside_answerWrites_iff beyondMouse inverse stack command line
    have known : apduCmdCase command = .case2S ∨
        apduCmdCase command = .case3S := by
      by_contra neither
      exact short (not_or.mp neither)
    cases right : checks beyondMouse inverse stack command line with
    | false =>
        rw [if_neg Bool.false_ne_true]
        constructor
        · rintro ⟨buffer, -⟩ -
          rw [List.forall_mem_append] at buffer
          exact
            { copied := sends.mp buffer.1
              come := receives.mp buffer.2
              status := fun wrong => by rw [right] at wrong; cases wrong }
        · intro fits
          have fits := fits known
          refine { buffer := ?_, response := List.forall_mem_nil _ }
          rw [List.forall_mem_append]
          exact ⟨sends.mpr fits.copied, receives.mpr fits.come⟩
    | true =>
        rw [if_pos rfl]
        constructor
        · rintro ⟨buffer, -⟩ -
          rw [List.forall_mem_append, List.forall_mem_append] at buffer
          refine
            { copied := sends.mp buffer.1.1
              come := receives.mp buffer.1.2
              status := fun _ => ?_ }
          have last := buffer.2 _ List.mem_cons_self
          simp only [Write.Inside, maxShortResponse] at last
          omega
        · intro fits
          have fits := fits known
          have status := fits.status right
          refine { buffer := ?_, response := ?_ }
          · rw [List.forall_mem_append, List.forall_mem_append]
            refine ⟨⟨sends.mpr fits.copied, receives.mpr fits.come⟩, ?_⟩
            intro write member
            rw [List.mem_singleton.mp member]
            simp only [Write.Inside, maxShortResponse]
            omega
          · intro write member
            rw [List.mem_singleton.mp member]
            simp only [Write.Inside, ctaResLen]
            omega

end Oscam.T14

namespace Oscam

open T0 (Reader Response protocolT0Command case3ECall Astray apduCmdCase)
open T14 (protocolT14ExchangeTPDU Fits)

/-- When the writes of the commands for T=0 and T=14 stay inside the
buffers. -/
theorem commands_inside_iff (reader : Reader) (fuel : Nat)
    (rsp : Response) (beyondMouse inverse : Bool) (stack : Memory)
    (command line : List UInt8) :
    ((protocolT0Command reader fuel command rsp .start).session.Inside ↔
      ∀ apdu s, case3ECall reader fuel command .start = some (apdu, s) →
        ¬ Astray reader fuel apdu s) ∧
    ((protocolT14ExchangeTPDU beyondMouse inverse stack command line).Inside ↔
      (apduCmdCase command = .case2S ∨ apduCmdCase command = .case3S →
        Fits beyondMouse inverse stack command line)) :=
  ⟨T0.inside_command_iff reader fuel command rsp,
    T14.inside_exchangeTPDU_iff beyondMouse inverse stack command line⟩

/-- A card that announces 255 bytes, and sends them. -/
theorem longAnswer_not_inside :
    ¬ (protocolT14ExchangeTPDU false false Memory.zero
      [0x00, 0xB0, 0x00, 0x00, 0x01]
      ([0, 0, 0, 0, 0, 0, 0, 0xFF] ++ List.replicate 256 0)).Inside := by
  have announced (rest : List UInt8) :
      T14.lengthByte false false Memory.zero [0x00, 0xB0, 0x00, 0x00, 0x01]
        ([0, 0, 0, 0, 0, 0, 0, 0xFF] ++ rest) = 255 := rfl
  rw [T14.inside_exchangeTPDU_iff]
  intro fits
  have come := (fits (.inr rfl)).come
  rw [announced, List.drop_left' (by rfl)] at come
  have all (rest : List UInt8) :
      (T0.icWrite false 8 255 rest).size = min 255 rest.length := rfl
  rw [all, List.length_replicate] at come
  exact absurd come (by decide)

end Oscam
