import Oscam.Lib.Reach
import Oscam.Log.Remains

/-!
# The log history

`write_to_log` keeps the last messages in one area, where they are written one
behind the other and again from its start when there is no more room.
-/

namespace Oscam.Log

open Http (StringAt)

/-! ## The area -/

/-- `loghist` with its size, and the offset of `loghistptr`. -/
structure LogHistory where
  loghistorysize : Nat
  loghist : Memory
  loghistptr : Nat

/-- A message of the log: the user it is about, and what stands in `log_buf`
behind its first eight bytes. -/
structure Message where
  usrtxt : List UInt8
  txt : List UInt8
  usrShort : usrtxt.length < 64
  txtShort : txt.length + 8 < 700
  plain : 0 ∉ usrtxt ++ 9 :: txt

/-- What is written for a message, without its zero. -/
def Message.line (message : Message) : List UInt8 :=
  message.usrtxt ++ 9 :: message.txt

def Message.targetLen (message : Message) : Nat :=
  message.usrtxt.length + message.txt.length + 1

namespace LogHistory

def lastpos (h : LogHistory) : Nat := h.loghistorysize - 1

/-- There is no room for the message behind `loghistptr`. -/
def Wraps (h : LogHistory) (message : Message) : Prop :=
  h.lastpos - 1 < h.loghistptr + message.targetLen

instance (h : LogHistory) (message : Message) : Decidable (h.Wraps message) :=
  inferInstanceAs (Decidable (_ < _))

/-- The places that `write_to_log` writes to, with the bytes, in order. -/
def stores (h : LogHistory) (message : Message) : List (Nat × List UInt8) :=
  if h.Wraps message then
    [(h.loghistptr, [0]), (message.targetLen + 1, [0]),
      (0, message.line ++ [0])]
  else
    [(h.loghistptr + message.targetLen + 1, [0]),
      (h.loghistptr, message.line ++ [0])]

/-- `write_to_log`. -/
def writeToLog (h : LogHistory) (message : Message) : LogHistory :=
  { h with
    loghist := (h.stores message).foldl
      (fun m store => m.write store.1 store.2) h.loghist
    loghistptr :=
      if h.Wraps message then message.targetLen + 1
      else h.loghistptr + message.targetLen + 1 }

/-- Before `loghist` is allocated. -/
def unset : LogHistory :=
  { loghistorysize := 0, loghist := .zero, loghistptr := 0 }

/-- `cs_reinit_loghist`, when the memory can be allocated. -/
def csReinitLoghist (h : LogHistory) (size : Nat) : LogHistory :=
  if size = h.loghistorysize then h
  else if size < h.loghistorysize then
    { loghistorysize := size, loghist := .zero, loghistptr := 0 }
  else
    { loghistorysize := size
      loghist := Memory.zero.write 0 (h.loghist.read 0 h.loghistorysize)
      loghistptr := h.loghistptr }

end LogHistory

/-! ## Runs -/

/-- The history with all lines written so far, the oldest one first, and the
places where earlier rounds have ended, as far as nothing has been written
over them. -/
structure Logged where
  history : LogHistory
  lines : List (List UInt8)
  ends : List Nat

inductive Event where
  | message (message : Message)
  | resize (size : Nat)

/-- The sizes that the configuration lets through. -/
def Event.Configured : Event → Prop
  | .message _ => True
  | .resize size => 1024 ≤ size

namespace Logged

/-- One message, or one change of the size. -/
def step (s : Logged) : Event → Logged
  | .message message =>
      let history := s.history.writeToLog message
      let ended :=
        if s.history.Wraps message then s.history.loghistptr :: s.ends
        else s.ends
      { history := history
        lines := s.lines ++ [message.line]
        ends := ended.filter (history.loghistptr + 1 ≤ ·) }
  | .resize size =>
      { history := s.history.csReinitLoghist size
        lines := s.lines
        ends := if size < s.history.loghistorysize then [] else s.ends }

/-- The first allocation. -/
def Started (s : Logged) : Prop :=
  ∃ size, 1024 ≤ size ∧
    s = { history := LogHistory.unset.csReinitLoghist size, lines := []
          ends := [] }

/-- The states that runs of the log reach. -/
abbrev Reached : Logged → Prop :=
  StepSystem.Reach step (fun _ event => event.Configured) Started

end Logged

/-! ## A message in the memory -/

variable {m : Memory} {off i : Nat} {line : List UInt8}

/-- A line with its zero, and the zero that ends the round behind it. -/
def putLine (m : Memory) (off : Nat) (line : List UInt8) : Memory :=
  (m.write (off + line.length + 1) [0]).write off (line ++ [0])

theorem putLine_outside (outside : i < off ∨ off + line.length + 1 < i) :
    putLine m off line i = m i := by
  have size : (line ++ [0]).length = line.length + 1 := by simp
  unfold putLine
  rcases outside with before | after
  · rw [Memory.write_of_lt before, Memory.write_of_lt (by omega)]
  · rw [Memory.write_of_le (by omega), Memory.write_of_le]
    rw [List.length_singleton]
    omega

theorem putLine_end (m : Memory) (off : Nat) (line : List UInt8) :
    putLine m off line (off + line.length + 1) = 0 := by
  have size : (line ++ [0]).length = line.length + 1 := by simp
  unfold putLine
  rw [Memory.write_of_le (by omega), Memory.write_head]

theorem putLine_string (m : Memory) (off : Nat) (plain : 0 ∉ line) :
    StringAt (putLine m off line) off line where
  bytes := by
    unfold putLine
    rw [← Memory.write_write]
    rw [Memory.read_congr fun i _ last => Memory.write_of_lt (by omega)]
    exact Memory.read_write _ off line
  ended := by
    unfold putLine
    rw [← Memory.write_write, Memory.write_head]
  plain := plain

/-- A zero that is there already, written again. -/
theorem write_zero (zero : m off = 0) : m.write off [0] = m := by
  have byte : m.read off 1 = [0] := by simp [Memory.read, zero]
  rw [← byte, Memory.write_read]

theorem Message.length_line (message : Message) :
    message.line.length = message.targetLen := by
  unfold line targetLen
  rw [List.length_append, List.length_cons]
  omega

theorem Message.targetLen_le (message : Message) : message.targetLen ≤ 755 := by
  have usr := message.usrShort
  have txt := message.txtShort
  unfold targetLen
  omega

theorem Message.line_ne_nil (message : Message) : message.line ≠ [] :=
  List.append_ne_nil_of_right_ne_nil _ (List.cons_ne_nil _ _)

namespace LogHistory

variable {h : LogHistory} {message : Message}

theorem writeToLog_wrap (wraps : h.Wraps message)
    (zero : h.loghist h.loghistptr = 0) :
    h.writeToLog message =
      { h with
        loghist := putLine h.loghist 0 message.line
        loghistptr := message.line.length + 1 } := by
  simp [writeToLog, stores, wraps, putLine, write_zero zero,
    message.length_line]

theorem writeToLog_behind (fits : ¬ h.Wraps message) :
    h.writeToLog message =
      { h with
        loghist := putLine h.loghist h.loghistptr message.line
        loghistptr := h.loghistptr + message.line.length + 1 } := by
  simp [writeToLog, stores, fits, putLine, message.length_line]

/-- All writes stay inside. -/
theorem stores_inside (enough : 1024 ≤ h.loghistorysize)
    (place : h.loghistptr < h.loghistorysize) :
    ∀ store ∈ h.stores message,
      store.1 + store.2.length ≤ h.loghistorysize := by
  have short := message.targetLen_le
  have size : (message.line ++ [0]).length = message.targetLen + 1 := by
    rw [List.length_append, message.length_line, List.length_singleton]
  unfold stores
  split
  · simp only [List.forall_mem_cons, List.length_singleton, size]
    refine ⟨by omega, by omega, by omega, ?_⟩
    simp
  · next fits =>
      have room : ¬ h.lastpos - 1 < h.loghistptr + message.targetLen := fits
      unfold lastpos at room
      simp only [List.forall_mem_cons, List.length_singleton, size]
      refine ⟨by omega, by omega, ?_⟩
      simp

end LogHistory

/-! ## What every run keeps -/

/-- The lines of the current round lie one behind the other up to
`loghistptr`, and what is left of earlier rounds lies behind it. -/
structure Kept (s : Logged) (current : List (List UInt8))
    (runs : List (List (List UInt8))) : Prop where
  enough : 1024 ≤ s.history.loghistorysize
  place : s.history.loghistptr < s.history.loghistorysize
  strings : Strings s.history.loghist 0 current s.history.loghistptr
  zero : s.history.loghist s.history.loghistptr = 0
  remains : Remains s.history.loghist s.history.loghistorysize
    (s.history.loghistptr + 1) s.ends runs
  newest : current.Sublist s.lines
  order : ∀ run ∈ runs, (run ++ current).Sublist s.lines
  tabs : ∀ line ∈ s.lines, 9 ∈ line

namespace Kept

variable {s : Logged} {current : List (List UInt8)}
  {runs : List (List (List UInt8))} {message : Message} {size : Nat}

theorem tabs_message (kept : Kept s current runs) (message : Message) :
    ∀ line ∈ s.lines ++ [message.line], 9 ∈ line := by
  intro line member
  rcases List.mem_append.mp member with before | now
  · exact kept.tabs line before
  · rw [List.mem_singleton.mp now]
    exact List.mem_append_right _ List.mem_cons_self

/-- The whole round is left behind, and the message begins a new one. -/
theorem wrap (kept : Kept s current runs)
    (wraps : s.history.Wraps message) :
    ∃ left, Kept (s.step (.message message)) [message.line] left := by
  have short := message.targetLen_le
  have enough := kept.enough
  have length := message.length_line
  obtain ⟨whole, round, parts⟩ :=
    Remains.of_round kept.strings kept.zero kept.place kept.remains
  obtain ⟨left, remains, rest⟩ :=
    round.advance (Nat.zero_le (message.line.length + 2))
  have plain : 0 ∉ message.line := message.plain
  have there := putLine_string s.history.loghist 0 plain
  have ended := putLine_end s.history.loghist 0 message.line
  rw [Nat.zero_add] at ended
  refine ⟨left, ?_⟩
  unfold Logged.step
  simp only [s.history.writeToLog_wrap wraps kept.zero, if_pos wraps]
  refine
    { enough := enough
      place := by
        show message.line.length + 1 < s.history.loghistorysize
        omega
      strings := ⟨message.line_ne_nil, there, Nat.zero_add _ ▸ rfl⟩
      zero := ended
      remains := remains.congr fun i first _ =>
        putLine_outside (.inr (by omega))
      newest := List.sublist_append_right _ _
      order := fun run member => ?_
      tabs := kept.tabs_message message }
  obtain ⟨middle, there, suffix⟩ := rest run member
  obtain ⟨source, found, part⟩ := parts middle there
  have old : source.Sublist s.lines := by
    rcases List.mem_cons.mp found with rfl | earlier
    · exact kept.newest
    · exact (List.sublist_append_left _ _).trans (kept.order source earlier)
  exact ((suffix.trans part).sublist.trans old).append_right _

/-- The message goes on with the round. -/
theorem behind (kept : Kept s current runs)
    (fits : ¬ s.history.Wraps message) :
    ∃ left, Kept (s.step (.message message)) (current ++ [message.line])
      left := by
  have enough := kept.enough
  have length := message.length_line
  have room : ¬ s.history.loghistorysize - 1 - 1 <
      s.history.loghistptr + message.targetLen := fits
  obtain ⟨left, remains, parts⟩ := kept.remains.advance
    (show s.history.loghistptr + 1 ≤
      s.history.loghistptr + message.line.length + 1 + 1 by omega)
  have plain : 0 ∉ message.line := message.plain
  have there := putLine_string s.history.loghist s.history.loghistptr plain
  refine ⟨left, ?_⟩
  unfold Logged.step
  simp only [s.history.writeToLog_behind fits, if_neg fits]
  refine
    { enough := enough
      place := by
        show s.history.loghistptr + message.line.length + 1 <
          s.history.loghistorysize
        omega
      strings := (kept.strings.congr fun i _ last =>
        putLine_outside (.inl last)).append ⟨message.line_ne_nil, there, rfl⟩
      zero := putLine_end _ _ _
      remains := remains.congr fun i first _ =>
        putLine_outside (.inr (by omega))
      newest := kept.newest.append_right _
      order := fun run member => ?_
      tabs := kept.tabs_message message }
  obtain ⟨source, found, suffix⟩ := parts run member
  rw [← List.append_assoc]
  exact ((suffix.sublist.append_right current).trans
    (kept.order source found)).append_right _

theorem next (kept : Kept s current runs) (message : Message) :
    ∃ current runs, Kept (s.step (.message message)) current runs := by
  by_cases wraps : s.history.Wraps message
  · exact ⟨_, kept.wrap wraps⟩
  · exact ⟨_, kept.behind wraps⟩

/-- A fresh area has no lines in it. -/
theorem fresh (enough : 1024 ≤ size) {lines : List (List UInt8)}
    (tabs : ∀ line ∈ lines, 9 ∈ line) :
    Kept
      { history :=
          { loghistorysize := size, loghist := .zero, loghistptr := 0 }
        lines := lines, ends := [] } [] [] where
  enough := enough
  place := by
    show 0 < size
    omega
  strings := rfl
  zero := rfl
  remains := .clear fun _ _ _ => rfl
  newest := List.nil_sublist _
  order _ member := absurd member List.not_mem_nil
  tabs := tabs

theorem resize (kept : Kept s current runs) (enough : 1024 ≤ size) :
    ∃ current runs, Kept (s.step (.resize size)) current runs := by
  unfold Logged.step LogHistory.csReinitLoghist
  by_cases same : size = s.history.loghistorysize
  · simp only [if_pos same, if_neg (Nat.not_lt_of_le (Nat.le_of_eq same.symm))]
    exact ⟨current, runs, kept⟩
  by_cases smaller : size < s.history.loghistorysize
  · simp only [if_neg same, if_pos smaller]
    exact ⟨[], [], fresh enough kept.tabs⟩
  -- the old area is copied to the front of the new one
  have front : ∀ i < s.history.loghistorysize,
      Memory.zero.write 0 (s.history.loghist.read 0 s.history.loghistorysize) i
        = s.history.loghist i := by
    intro i inside
    rw [Memory.write_read_apply, if_pos (by omega), Nat.zero_add, Nat.sub_zero]
  have after : ∀ i, s.history.loghistorysize ≤ i →
      Memory.zero.write 0 (s.history.loghist.read 0 s.history.loghistorysize) i
        = 0 := by
    intro i outside
    rw [Memory.write_read_apply, if_neg (by omega)]
    rfl
  have place := kept.place
  simp only [if_neg same, if_neg smaller]
  exact ⟨current, runs,
    { enough := enough
      place := Nat.lt_of_lt_of_le place (Nat.le_of_not_lt smaller)
      strings := kept.strings.congr fun i _ last => front i (by omega)
      zero := (front _ place).trans kept.zero
      remains := kept.remains.grow (Nat.le_of_not_lt smaller) front
        fun i outside _ => after i outside
      newest := kept.newest
      order := kept.order
      tabs := kept.tabs }⟩

end Kept

/-- The area is in order. -/
def Logged.InOrder (s : Logged) : Prop := ∃ current runs, Kept s current runs

/-- In every state that a run reaches the area is in order. -/
theorem Logged.Reached.inOrder {s : Logged} (reached : s.Reached) :
    s.InOrder := by
  apply StepSystem.Reach.invariant _ _ reached
  · rintro s ⟨size, enough, rfl⟩
    have larger : ¬ size < LogHistory.unset.loghistorysize := Nat.not_lt_zero _
    have other : size ≠ LogHistory.unset.loghistorysize :=
      Nat.ne_of_gt (show 0 < size by omega)
    unfold LogHistory.csReinitLoghist
    rw [if_neg other, if_neg larger]
    exact ⟨[], [], Kept.fresh enough fun _ member =>
      absurd member List.not_mem_nil⟩
  · rintro s (message | size) ⟨current, runs, kept⟩ configured
    · exact kept.next message
    · exact kept.resize configured

end Oscam.Log
