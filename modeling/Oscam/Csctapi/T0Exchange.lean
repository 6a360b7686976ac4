import Oscam.Csctapi.ProtocolT0

/-!
# What the card says during a TPDU

Procedure bytes, data and status bytes come over one line.  `Heard` takes the
line apart as T=0 does, and the loop of `Protocol_T0_ExchangeTPDU` is compared
with it round by round.
-/

namespace Oscam.T0

namespace Tpdu

variable (tpdu : Tpdu)

/-- The data bytes that come behind a procedure byte when `recv` of them were
received before. -/
def block : Procedure → Nat → Nat
  | .ack, recv => tpdu.le - recv
  | .complement, _ => if tpdu.sends then 0 else 1
  | _, _ => 0

/-- The data bytes that count as received after it. -/
def next : Procedure → Nat → Nat
  | .ack, _ => tpdu.le
  | .complement, recv => recv + if tpdu.sends then 0 else 1
  | _, recv => recv

/-- The data bytes that are sent after it. -/
def out : Procedure → Nat → Nat
  | .ack, sent => tpdu.lc - sent
  | .complement, _ => 1
  | _, _ => 0

/-- It comes in time: all the rest is not promised after more than `Le` data
bytes, nor does a single byte fill the buffer. -/
def InTime : Procedure → Nat → Prop
  | .null, _ => True
  | .ack, recv => recv ≤ tpdu.le
  | .complement, recv => tpdu.next .complement recv < maxShortResponse
  | _, _ => False

/-- The line from the point on where `recv` data bytes were received: the data
that are still to come, the two status bytes, and what is behind them. -/
inductive Heard (sw1 sw2 : UInt8) (rest : List UInt8) :
    Nat → List UInt8 → List UInt8 → Prop where
  | status {recv : Nat} :
      procedure tpdu.ins sw1 = .sw1 →
      Heard sw1 sw2 rest recv (sw1 :: sw2 :: rest) []
  | step {recv : Nat} {byte : UInt8} {block line data : List UInt8} :
      tpdu.InTime (procedure tpdu.ins byte) recv →
      block.length = tpdu.block (procedure tpdu.ins byte) recv →
      Heard sw1 sw2 rest (tpdu.next (procedure tpdu.ins byte) recv) line data →
      Heard sw1 sw2 rest recv (byte :: (block ++ line)) (block ++ data)

theorem next_eq {tpdu : Tpdu} {said : Procedure} {recv : Nat}
    (inTime : tpdu.InTime said recv) :
    tpdu.next said recv = recv + tpdu.block said recv := by
  cases said with
  | null => rfl
  | sw1 => rfl
  | ack => exact (Nat.add_sub_of_le inTime).symm
  | complement => rfl
  | other => rfl

theorem next_lt {tpdu : Tpdu} {said : Procedure} {recv : Nat}
    (inTime : tpdu.InTime said recv) (inside : recv < maxShortResponse) :
    tpdu.next said recv < maxShortResponse := by
  cases said with
  | null => exact inside
  | sw1 => exact inside
  | ack => exact Nat.lt_trans tpdu.short (by decide)
  | complement => exact inTime
  | other => exact inside

theorem next_le (tpdu : Tpdu) (said : Procedure) (recv : Nat) :
    tpdu.next said recv ≤ recv + tpdu.block said recv := by
  cases said with
  | null => exact Nat.le_refl _
  | sw1 => exact Nat.le_refl _
  | ack =>
      show tpdu.le ≤ recv + (tpdu.le - recv)
      omega
  | complement => exact Nat.le_refl _
  | other => exact Nat.le_refl _

end Tpdu

namespace Exchange

variable {inverse : Bool} {tpdu : Tpdu} {s s' e : Exchange}
  {n recv : Nat}

/-! ## A read -/

theorem receive_front (inverse : Bool) (s : Exchange) (n : Nat)
    {i : Nat} (front : i < s.recv) :
    (s.receive inverse n).buffer i = s.buffer i := by
  show icReceive inverse s.buffer s.recv n s.line i = s.buffer i
  unfold icReceive
  rw [Memory.write_of_lt front]
  split
  · exact Memory.write_of_lt front
  · rfl

theorem read_receive_front (inverse : Bool) (s : Exchange) (n : Nat) :
    (s.receive inverse n).buffer.read 0 s.recv = s.buffer.read 0 s.recv := by
  apply Memory.read_congr
  intro i _ inside
  exact receive_front inverse s n (by omega)

/-- A read that finds all its bytes. -/
theorem read_receive (inverse : Bool) (s : Exchange)
    (enough : n ≤ s.line.length) :
    (s.receive inverse n).buffer.read s.recv n = s.line.take n := by
  have size : (s.line.take n).length = n := by
    rw [List.length_take, Nat.min_eq_left enough]
  have written := Memory.read_write
    (if inverse then
      s.buffer.write s.recv
        ((s.buffer.read s.recv n).map fun byte => ~~~ invertByte byte)
    else s.buffer) s.recv (s.line.take n)
  rw [size] at written
  exact written

/-- The byte that a round begins with. -/
def heard (inverse : Bool) (s : Exchange) : UInt8 :=
  (s.receive inverse 1).buffer s.recv

theorem heard_cons {byte : UInt8} {line : List UInt8}
    (first : s.line = byte :: line) : s.heard inverse = byte := by
  unfold heard
  show icReceive inverse s.buffer s.recv 1 s.line s.recv = byte
  rw [first]
  exact Memory.write_head _ _ byte []

/-! ## A round -/

theorem round_eq (inverse : Bool) (tpdu : Tpdu) (s : Exchange) :
    s.round inverse tpdu =
      match procedure tpdu.ins (s.heard inverse) with
      | .null => (s.receive inverse 1).onNull
      | .sw1 => (s.receive inverse 1).onStatus inverse (s.line.take 1)
      | .ack => (s.receive inverse 1).onAck inverse tpdu
      | .complement => (s.receive inverse 1).onComplement inverse tpdu
      | .other => .error (s.receive inverse 1) :=
  rfl

/-- What a round adds to the data that were sent. -/
structure Gone (tpdu : Tpdu) (s s' : Exchange) (said : Procedure) : Prop where
  sent : s'.sent = s.sent + tpdu.out said s.sent
  transmitted : s'.transmitted =
    s.transmitted ++ (tpdu.data.drop s.sent).take (tpdu.out said s.sent)
  more : said ≠ .null → s.sent < tpdu.lc

/-- The writes of a round: no more than `n` bytes at `recv`. -/
def Adds (s s' : Exchange) (recv n : Nat) : Prop :=
  ∃ more, s'.writes = s.writes ++ more ∧
    ∀ write ∈ more, write.start = recv ∧ write.size ≤ n

theorem size_icWrite_le (inverse : Bool) (off n : Nat) (line : List UInt8) :
    (icWrite inverse off n line).size ≤ n := by
  unfold icWrite
  dsimp only
  split
  · exact Nat.le_refl n
  · exact Nat.min_le_left _ _

theorem adds_receive (inverse : Bool) (s : Exchange) (n : Nat) :
    Adds s (s.receive inverse n) s.recv n := by
  refine ⟨_, rfl, ?_⟩
  intro write member
  rw [List.mem_singleton.mp member]
  exact ⟨rfl, size_icWrite_le ..⟩

theorem Adds.trans {middle : Exchange} {k : Nat} (first : Adds s middle recv k)
    (second : Adds middle s' recv n) : Adds s s' recv (max k n) := by
  obtain ⟨some, wrote, ofSome⟩ := first
  obtain ⟨more, wrote', ofMore⟩ := second
  refine ⟨some ++ more, by rw [wrote', wrote, List.append_assoc], ?_⟩
  intro write member
  rcases List.mem_append.mp member with before | behind
  · obtain ⟨start, size⟩ := ofSome write before
    exact ⟨start, Nat.le_trans size (Nat.le_max_left ..)⟩
  · obtain ⟨start, size⟩ := ofMore write behind
    exact ⟨start, Nat.le_trans size (Nat.le_max_right ..)⟩

/-- A round of the loop that is followed by another. -/
structure Moved (inverse : Bool) (tpdu : Tpdu) (s s' : Exchange)
    (said : Procedure) : Prop where
  byte : procedure tpdu.ins (s.heard inverse) = said
  goes : said = .null ∨ said = .ack ∨ said = .complement
  line : s'.line = s.line.drop (tpdu.block said s.recv + 1)
  received : s'.received =
    s.received ++ (s.line.drop 1).take (tpdu.block said s.recv)
  recv : s'.recv = tpdu.next said s.recv
  status : s'.status = s.status
  front : s'.buffer.read 0 s.recv = s.buffer.read 0 s.recv
  block : tpdu.block said s.recv + 1 ≤ s.line.length →
    s'.buffer.read s.recv (tpdu.block said s.recv) =
      (s.line.drop 1).take (tpdu.block said s.recv)
  asked : s'.asked = s.asked ++ [said]
  gone : tpdu.sends = true → Gone tpdu s s' said
  writes : Adds s s' s.recv (max 1 (tpdu.block said s.recv))

/-- The last round, with SW1 and SW2. -/
structure Ended (inverse : Bool) (tpdu : Tpdu) (s e : Exchange) :
    Prop where
  byte : procedure tpdu.ins (s.heard inverse) = .sw1
  line : e.line = s.line.drop 2
  received : e.received = s.received
  recv : e.recv = s.recv + 2
  status : e.status = s.line.take 2
  front : e.buffer.read 0 s.recv = s.buffer.read 0 s.recv
  block : 2 ≤ s.line.length → e.buffer.read s.recv 2 = s.line.take 2
  inside : s.recv + 1 < maxShortResponse
  asked : e.asked = s.asked
  sent : e.sent = s.sent
  transmitted : e.transmitted = s.transmitted
  writes : ∃ middle, Adds s middle s.recv 1 ∧ Adds middle e (s.recv + 1) 1

/-- A round that receives nothing behind its procedure byte. -/
theorem moved_of_none {said : Procedure}
    (byte : procedure tpdu.ins (s.heard inverse) = said)
    (goes : said = .null ∨ said = .ack ∨ said = .complement)
    (none : tpdu.block said s.recv = 0)
    (recv : s'.recv = tpdu.next said s.recv)
    (buffer : s'.buffer = (s.receive inverse 1).buffer)
    (line : s'.line = s.line.drop 1)
    (received : s'.received = s.received)
    (status : s'.status = s.status)
    (asked : s'.asked = s.asked ++ [said])
    (gone : tpdu.sends = true → Gone tpdu s s' said)
    (writes : s'.writes = (s.receive inverse 1).writes) :
    Moved inverse tpdu s s' said where
  byte := byte
  goes := goes
  line := by rw [line, none]
  received := by rw [received, none, List.take_zero, List.append_nil]
  recv := recv
  status := status
  front := by rw [buffer, read_receive_front]
  block := fun _ => by rw [none]; rfl
  asked := asked
  gone := gone
  writes := by
    have first := adds_receive inverse s 1
    rw [none]
    unfold Adds at first ⊢
    rw [writes]
    exact first

/-- A round that receives data bytes behind its procedure byte. -/
theorem moved_of_receive {said : Procedure} {start : Exchange}
    (byte : procedure tpdu.ins (s.heard inverse) = said)
    (goes : said = .null ∨ said = .ack ∨ said = .complement)
    (recv : s'.recv = tpdu.next said s.recv)
    (buffer : start.buffer = (s.receive inverse 1).buffer)
    (line : start.line = s.line.drop 1)
    (same : start.recv = s.recv)
    (moved : s'.buffer =
      (start.receive inverse (tpdu.block said s.recv)).buffer)
    (rest : s'.line = start.line.drop (tpdu.block said s.recv))
    (received : s'.received =
      s.received ++ start.line.take (tpdu.block said s.recv))
    (status : s'.status = s.status)
    (asked : s'.asked = s.asked ++ [said])
    (gone : tpdu.sends = true → Gone tpdu s s' said)
    (before : start.writes = (s.receive inverse 1).writes)
    (writes : s'.writes =
      (start.receive inverse (tpdu.block said s.recv)).writes) :
    Moved inverse tpdu s s' said where
  byte := byte
  goes := goes
  line := by rw [rest, line, List.drop_drop, Nat.add_comm 1]
  received := by rw [received, line]
  recv := recv
  status := status
  front := by
    have first := read_receive_front inverse start
      (tpdu.block said s.recv)
    rw [same, buffer, read_receive_front] at first
    rw [moved, first]
  block := by
    intro enough
    have left : tpdu.block said s.recv ≤ start.line.length := by
      rw [line, List.length_drop]
      omega
    have second := read_receive inverse start left
    rw [same, line] at second
    rw [moved, second]
  asked := asked
  gone := gone
  writes := by
    have first : Adds s start s.recv 1 := by
      have first := adds_receive inverse s 1
      unfold Adds at first ⊢
      rw [before]
      exact first
    have second := adds_receive inverse start (tpdu.block said s.recv)
    rw [same] at second
    apply first.trans
    unfold Adds at second ⊢
    rw [writes]
    exact second

theorem moved_onNull
    (byte : procedure tpdu.ins (s.heard inverse) = .null)
    (moves : (s.receive inverse 1).onNull = .again s') :
    Moved inverse tpdu s s' .null := by
  unfold onNull at moves
  dsimp only at moves
  split at moves
  · cases moves
  · cases moves
    refine moved_of_none byte (.inl rfl) rfl rfl rfl rfl rfl rfl rfl
      (fun _ => ?_) rfl
    exact
      { sent := rfl
        transmitted := (List.append_nil _).symm
        more := fun other => absurd rfl other }

theorem moved_onAck (quiet : tpdu.sends = true → s.recv = 0)
    (byte : procedure tpdu.ins (s.heard inverse) = .ack)
    (moves : (s.receive inverse 1).onAck inverse tpdu = .again s') :
    Moved inverse tpdu s s' .ack := by
  unfold onAck at moves
  dsimp only at moves
  split at moves
  · rename_i sends
    have le := tpdu.nothing sends
    have none : tpdu.block .ack s.recv = 0 := by
      rw [Tpdu.block, le, Nat.zero_sub]
    have recv : s.recv = tpdu.next .ack s.recv := by
      rw [Tpdu.next, le, quiet sends]
    split at moves
    · cases moves
    · cases moves
      rename_i more
      have more : s.sent < tpdu.lc := Nat.lt_of_not_le more
      refine moved_of_none byte (.inr (.inl rfl)) none recv rfl rfl rfl rfl rfl
        (fun _ => ?_) rfl
      exact
        { sent := (Nat.add_sub_of_le (Nat.le_of_lt more)).symm
          transmitted := rfl
          more := fun _ => more }
  · rename_i receives
    split at moves
    · cases moves
    · cases moves
      exact moved_of_receive byte (.inr (.inl rfl)) rfl rfl rfl rfl rfl rfl rfl
        rfl rfl (fun sends => absurd sends receives) rfl rfl

theorem moved_onComplement
    (byte : procedure tpdu.ins (s.heard inverse) = .complement)
    (moves : (s.receive inverse 1).onComplement inverse tpdu = .again s') :
    Moved inverse tpdu s s' .complement := by
  unfold onComplement at moves
  dsimp only at moves
  split at moves
  · rename_i sends
    have none : tpdu.block .complement s.recv = 0 := if_pos sends
    have recv : s.recv = tpdu.next .complement s.recv := by
      rw [Tpdu.next, if_pos sends, Nat.add_zero]
    split at moves
    · cases moves
    · cases moves
      rename_i more
      have more : s.sent < tpdu.lc := Nat.lt_of_not_le more
      refine moved_of_none byte (.inr (.inr rfl)) none recv rfl rfl rfl rfl rfl
        (fun _ => ?_) rfl
      exact
        { sent := rfl
          transmitted := rfl
          more := fun _ => more }
  · rename_i receives
    have one : tpdu.block .complement s.recv = 1 := if_neg receives
    have recv : s.recv + 1 = tpdu.next .complement s.recv := by
      rw [Tpdu.next, if_neg receives]
    split at moves
    · cases moves
    · cases moves
      exact moved_of_receive byte (.inr (.inr rfl)) recv rfl rfl rfl
        (by rw [one]; rfl) (by rw [one]; rfl) (by rw [one]; rfl) rfl rfl
        (fun sends => absurd sends receives) rfl (by rw [one]; rfl)

/-- All that a round can do without an end. -/
theorem round_again (quiet : tpdu.sends = true → s.recv = 0)
    (moves : s.round inverse tpdu = .again s') :
    ∃ said, Moved inverse tpdu s s' said := by
  unfold round at moves
  dsimp only at moves
  split at moves
  · rename_i byte
    exact ⟨_, moved_onNull byte moves⟩
  · unfold onStatus at moves
    dsimp only at moves
    split at moves <;> cases moves
  · rename_i byte
    exact ⟨_, moved_onAck quiet byte moves⟩
  · rename_i byte
    exact ⟨_, moved_onComplement byte moves⟩
  · cases moves

theorem ended_onStatus
    (byte : procedure tpdu.ins (s.heard inverse) = .sw1)
    (ends : (s.receive inverse 1).onStatus inverse (s.line.take 1) =
      .ended e) : Ended inverse tpdu s e := by
  unfold onStatus at ends
  dsimp only at ends
  split at ends
  · cases ends
  · rename_i inside
    cases ends
    let behind : Exchange :=
      { s.receive inverse 1 with recv := s.recv + 1 }
    have sw1 (enough : 2 ≤ s.line.length) :
        behind.buffer.read s.recv 1 = s.line.take 1 :=
      read_receive inverse s (by omega)
    exact
      { byte
        line := List.drop_drop
        received := rfl
        recv := rfl
        status := (List.take_add (l := s.line) (i := 1) (j := 1)).symm
        front := by
          apply Memory.read_congr
          intro i _ inside
          have second := receive_front inverse behind 1 (i := i)
            (show i < s.recv + 1 by omega)
          exact second.trans (receive_front inverse s 1 (by omega))
        block := by
          intro enough
          have front := read_receive_front inverse behind 1
          have sw2 := read_receive inverse (n := 1) behind (by
            show 1 ≤ (s.line.drop 1).length
            rw [List.length_drop]
            omega)
          have first : (behind.receive inverse 1).buffer.read s.recv 1 =
              behind.buffer.read s.recv 1 := by
            apply Memory.read_congr
            intro i _ inside
            exact receive_front inverse behind 1 (show i < s.recv + 1 by omega)
          have both := Memory.read_add (behind.receive inverse 1).buffer s.recv
            1 1
          rw [first, sw1 enough] at both
          exact both.trans (by
            rw [List.take_add (l := s.line) (i := 1) (j := 1)]
            exact congrArg _ sw2)
        inside := Nat.lt_of_not_le inside
        asked := rfl
        sent := rfl
        transmitted := rfl
        writes :=
          ⟨behind, adds_receive inverse s 1, adds_receive inverse behind 1⟩ }

theorem round_ended (ends : s.round inverse tpdu = .ended e) :
    Ended inverse tpdu s e := by
  unfold round at ends
  dsimp only at ends
  split at ends
  · unfold onNull at ends
    dsimp only at ends
    split at ends <;> cases ends
  · rename_i byte
    exact ended_onStatus byte ends
  · unfold onAck at ends
    dsimp only at ends
    split at ends <;> split at ends <;> cases ends
  · unfold onComplement at ends
    dsimp only at ends
    split at ends <;> split at ends <;> cases ends
  · cases ends

/-- The buffer has the data bytes after a round when it had them before and
the card sent all that were awaited. -/
theorem Moved.fresh {said : Procedure} (moved : Moved inverse tpdu s s' said)
    (fresh : s.rsp = s.received) (inTime : tpdu.InTime said s.recv)
    (enough : tpdu.block said s.recv + 1 ≤ s.line.length) :
    s'.rsp = s'.received := by
  unfold rsp at *
  rw [moved.recv, Tpdu.next_eq inTime, Memory.read_add, Nat.zero_add,
    moved.front, fresh, moved.block enough, moved.received]

/-- The line behind the procedure byte and its data bytes. -/
theorem Moved.line_eq {said : Procedure} (moved : Moved inverse tpdu s s' said)
    {byte : UInt8} {block line : List UInt8}
    (on_line : s.line = byte :: (block ++ line))
    (size : block.length = tpdu.block said s.recv) : s'.line = line := by
  rw [moved.line, on_line, List.drop_succ_cons, ← size, List.drop_left]

/-- Nothing is received while data are sent. -/
theorem Moved.quiet {said : Procedure} (moved : Moved inverse tpdu s s' said)
    (quiet : tpdu.sends = true → s.recv = 0) (sends : tpdu.sends = true) :
    s'.recv = 0 := by
  rw [moved.recv]
  rcases moved.goes with rfl | rfl | rfl
  · exact quiet sends
  · exact tpdu.nothing sends
  · rw [Tpdu.next, if_pos sends, quiet sends]

theorem Ended.rsp_eq (ended : Ended inverse tpdu s e)
    (fresh : s.rsp = s.received) (enough : 2 ≤ s.line.length) :
    e.rsp = e.received ++ e.status := by
  unfold rsp at *
  rw [ended.recv, Memory.read_add, Nat.zero_add, ended.front, fresh,
    ended.block enough, ended.received, ended.status]

/-! ## The loop -/

theorem loop_ended {fuel : Nat}
    (ends : s.loop inverse tpdu (fuel + 1) = .ended e) :
    (maxShortResponse ≤ s.recv ∧ e = s) ∨
      s.recv < maxShortResponse ∧
        (Ended inverse tpdu s e ∨
          ∃ s', s.round inverse tpdu = .again s' ∧
            s'.loop inverse tpdu fuel = .ended e) := by
  rw [loop] at ends
  split at ends
  · rename_i inside
    refine .inr ⟨inside, ?_⟩
    split at ends
    · rename_i s' moves
      exact .inr ⟨s', moves, ends⟩
    · exact .inl (round_ended ends)
  · rename_i full
    cases ends
    exact .inl ⟨Nat.le_of_not_lt full, rfl⟩

/-- What is read of a line that goes on as T=0 wants it. -/
structure Read (s e : Exchange) (data : List UInt8) (sw1 sw2 : UInt8)
    (rest : List UInt8) : Prop where
  line : e.line = rest
  received : e.received = s.received ++ data
  status : e.status = [sw1, sw2]
  rsp : e.rsp = e.received ++ e.status

/-- A line that goes on as T=0 wants it is read so, if the loop ends well. -/
theorem read_of_heard {sw1 sw2 : UInt8} {rest line data : List UInt8}
    (heard : tpdu.Heard sw1 sw2 rest recv line data) {fuel : Nat}
    (at_recv : s.recv = recv) (on_line : s.line = line)
    (inside : s.recv < maxShortResponse) (fresh : s.rsp = s.received)
    (quiet : tpdu.sends = true → s.recv = 0)
    (ends : s.loop inverse tpdu fuel = .ended e) :
    Read s e data sw1 sw2 rest := by
  induction heard generalizing s fuel with
  | status final =>
      cases fuel with
      | zero => cases ends
      | succ fuel =>
          rcases loop_ended ends with ⟨full, -⟩ | ⟨-, ended | ⟨s', moves, -⟩⟩
          · omega
          · have enough : 2 ≤ s.line.length := by
              rw [on_line]
              exact Nat.le_add_left 2 _
            exact
              { line := by rw [ended.line, on_line]; rfl
                received := by rw [ended.received, List.append_nil]
                status := by rw [ended.status, on_line]; rfl
                rsp := ended.rsp_eq fresh enough }
          · obtain ⟨said, moved⟩ := round_again quiet moves
            have status := moved.byte
            rw [heard_cons on_line, final] at status
            rcases moved.goes with rfl | rfl | rfl <;> cases status
  | @step recv byte block line data inTime size heard induction =>
      cases fuel with
      | zero => cases ends
      | succ fuel =>
          rcases loop_ended ends with
            ⟨full, -⟩ | ⟨-, ended | ⟨s', moves, ends⟩⟩
          · omega
          · have status := ended.byte
            rw [heard_cons on_line] at status
            rw [status] at inTime
            cases inTime
          · obtain ⟨said, moved⟩ := round_again quiet moves
            have same := moved.byte
            rw [heard_cons on_line] at same
            subst same at_recv
            have enough :
                tpdu.block (procedure tpdu.ins byte) s.recv + 1 ≤
                  s.line.length := by
              rw [on_line, List.length_cons, List.length_append]
              omega
            have fresh := moved.fresh fresh inTime enough
            have line_eq := moved.line_eq on_line size
            have received : s'.received = s.received ++ block := by
              rw [moved.received, on_line, List.drop_succ_cons, List.drop_zero,
                ← size, List.take_left]
            have inside : s'.recv < maxShortResponse := by
              rw [moved.recv]
              exact Tpdu.next_lt inTime inside
            have read := induction moved.recv line_eq inside fresh
              (moved.quiet quiet) ends
            exact
              { line := read.line
                received := by
                  rw [read.received, received, List.append_assoc]
                status := read.status
                rsp := read.rsp }

/-- Without a byte of the card there are no status bytes. -/
theorem status_of_silent {fuel : Nat} (silent : s.line = [])
    (none : s.status = []) (quiet : tpdu.sends = true → s.recv = 0)
    (ends : s.loop inverse tpdu fuel = .ended e) : e.status = [] := by
  induction fuel generalizing s with
  | zero => cases ends
  | succ fuel induction =>
      rcases loop_ended ends with ⟨-, rfl⟩ | ⟨-, ended | ⟨s', moves, ends⟩⟩
      · exact none
      · rw [ended.status, silent, List.take_nil]
      · obtain ⟨said, moved⟩ := round_again quiet moves
        apply induction _ _ (moved.quiet quiet) ends
        · rw [moved.line, silent, List.drop_nil]
        · rw [moved.status, none]

/-- When both status bytes came, the card sent all data bytes that were
awaited in a round before. -/
theorem Moved.enough {said : Procedure} {fuel : Nat}
    (moved : Moved inverse tpdu s s' said)
    (none : s.status = []) (quiet : tpdu.sends = true → s.recv = 0)
    (ends : s'.loop inverse tpdu fuel = .ended e)
    (both : e.status.length = 2) :
    tpdu.block said s.recv + 1 ≤ s.line.length := by
  by_contra short
  have silent : s'.line = [] := by
    rw [moved.line]
    exact List.drop_eq_nil_of_le (by omega)
  rw [status_of_silent silent (moved.status.trans none) (moved.quiet quiet)
    ends] at both
  cases both

theorem Moved.length_received {said : Procedure}
    (moved : Moved inverse tpdu s s' said)
    (enough : tpdu.block said s.recv + 1 ≤ s.line.length) :
    s'.received.length = s.received.length + tpdu.block said s.recv := by
  rw [moved.received, List.length_append, List.length_take, List.length_drop]
  omega

/-- Data bytes that were dropped are missing in the end. -/
theorem recv_of_dropped {fuel : Nat} (dropped : s.recv < s.received.length)
    (none : s.status = []) (quiet : tpdu.sends = true → s.recv = 0)
    (ends : s.loop inverse tpdu fuel = .ended e)
    (both : e.status.length = 2) : e.recv < e.received.length + 2 := by
  induction fuel generalizing s with
  | zero => cases ends
  | succ fuel induction =>
      rcases loop_ended ends with ⟨-, rfl⟩ | ⟨-, ended | ⟨s', moves, ends⟩⟩
      · rw [none] at both
        cases both
      · rw [ended.recv, ended.received]
        omega
      · obtain ⟨said, moved⟩ := round_again quiet moves
        have enough := moved.enough none quiet ends both
        apply induction _ _ (moved.quiet quiet) ends
        · rw [moved.recv, moved.length_received enough]
          have next := tpdu.next_le said s.recv
          omega
        · rw [moved.status, none]

/-- A line of which both status bytes and all data bytes are in the response
goes on as T=0 wants it. -/
theorem heard_of_read {fuel : Nat} (fresh : s.received.length = s.recv)
    (none : s.status = []) (quiet : tpdu.sends = true → s.recv = 0)
    (ends : s.loop inverse tpdu fuel = .ended e)
    (both : e.status.length = 2) (all : e.recv = e.received.length + 2) :
    ∃ sw1 sw2 rest data, tpdu.Heard sw1 sw2 rest s.recv s.line data := by
  induction fuel generalizing s with
  | zero => cases ends
  | succ fuel induction =>
      rcases loop_ended ends with ⟨-, rfl⟩ | ⟨-, ended | ⟨s', moves, ends⟩⟩
      · rw [none] at both
        cases both
      · rw [ended.status, List.length_take] at both
        obtain ⟨sw1, sw2, rest, on_line⟩ :
            ∃ sw1 sw2 rest, s.line = sw1 :: sw2 :: rest := by
          match line : s.line with
          | [] => simp [line] at both
          | [_] => simp [line] at both
          | sw1 :: sw2 :: rest => exact ⟨sw1, sw2, rest, rfl⟩
        have final := ended.byte
        rw [heard_cons on_line] at final
        exact ⟨sw1, sw2, rest, [], on_line ▸ .status final⟩
      · obtain ⟨said, moved⟩ := round_again quiet moves
        have enough := moved.enough none quiet ends both
        have length := moved.length_received enough
        have none' : s'.status = [] := moved.status.trans none
        have quiet' := moved.quiet quiet
        obtain ⟨byte, tail, on_line⟩ : ∃ byte tail, s.line = byte :: tail :=
          List.exists_cons_of_length_pos (by omega)
        have same := moved.byte
        rw [heard_cons on_line] at same
        have inTime : tpdu.InTime said s.recv := by
          rcases moved.goes with rfl | rfl | rfl
          · trivial
          · by_contra late
            have dropped : s'.recv < s'.received.length := by
              have recv : s'.recv = tpdu.le := moved.recv
              have before : tpdu.le < s.recv := Nat.lt_of_not_le late
              omega
            have missing := recv_of_dropped dropped none' quiet' ends both
            omega
          · by_contra full
            cases fuel with
            | zero => cases ends
            | succ fuel =>
                rcases loop_ended ends with ⟨-, rfl⟩ | ⟨inside, -⟩
                · rw [none'] at both
                  cases both
                · rw [moved.recv] at inside
                  exact full inside
        have next : s'.received.length = s'.recv := by
          rw [length, moved.recv, Tpdu.next_eq inTime, fresh]
        obtain ⟨sw1, sw2, rest, data, heard⟩ :=
          induction next none' quiet' ends
        subst same
        rw [moved.recv, moved.line, on_line, List.drop_succ_cons] at heard
        have size : (tail.take
            (tpdu.block (procedure tpdu.ins byte) s.recv)).length =
              tpdu.block (procedure tpdu.ins byte) s.recv := by
          rw [on_line, List.length_cons] at enough
          rw [List.length_take]
          omega
        have whole := Tpdu.Heard.step inTime size heard
        rw [List.take_append_drop, ← on_line] at whole
        exact ⟨sw1, sw2, rest, _, whole⟩

end Exchange

end Oscam.T0
