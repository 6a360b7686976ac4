import Oscam.Log.LogHistory
import Oscam.Monitor.Requests

/-!
# Sending the log history

A monitor that switches its log on is sent the log history by
`monitor_logsend`, which begins behind the newest message with what is left of
the round before, and turns to the start of the area where that ends.
-/

namespace Oscam.Log

open Http (StringAt)
open Monitor (ascii)

namespace LogHistory

/-! ## The walk -/

/-- What `monitor_logsend` takes out of a line: `p_usr` and the text behind
the tab. -/
structure Shown where
  usr : List UInt8
  txt : List UInt8
  deriving DecidableEq, Repr

/-- The parts of a line; `p_usr` has 32 bytes. -/
def shownLine (line : List UInt8) : Shown :=
  { usr := line.take (min (line.idxOf 9 + 1) 32 - 1)
    txt := line.drop (line.idxOf 9 + 1) }

/-- The line at `ptr1` with the length `l1 - 1`, taken apart; the text is read
up to its zero. -/
def shownAt (h : LogHistory) (ptr1 l1 : Nat) : Option Shown :=
  let line := h.loghist.read ptr1 (l1 - 1)
  let pos1 := line.idxOf 9 + 1
  (strlen h.loghistorysize h.loghist (ptr1 + pos1)).map fun length =>
    { usr := line.take (min pos1 32 - 1)
      txt := h.loghist.read (ptr1 + pos1) length }

/-- The first part of the loop of `monitor_logsend`, which turns to the start
once: `d`, `ptr1` and `l1` behind it. -/
def turn (h : LogHistory) (d : Bool) (ptr1 : Nat) :
    Option (Bool × Nat × Nat) :=
  (strlen h.loghistorysize h.loghist ptr1).bind fun length =>
    if d = false ∧ (h.lastpos ≤ ptr1 ∨ length + 1 < 2) then
      (strlen h.loghistorysize h.loghist 0).map fun length =>
        (true, 0, length + 1)
    else some (d, ptr1, length + 1)

/-- The loop of `monitor_logsend`, with the number of rounds it may still
make.  Nothing comes out when it reads outside of the area. -/
def walk (h : LogHistory) (t : Nat) : Nat → Bool → Nat → Option (List Shown)
  | 0, _, _ => some []
  | i + 1, d, ptr1 =>
      (h.turn d ptr1).bind fun (d, ptr1, l1) =>
        if d = true ∧ (t ≤ ptr1 ∨ l1 < 2) then some []
        else
          (h.shownAt ptr1 l1).bind fun shown =>
            (h.walk t i d (ptr1 + l1)).map (shown :: ·)

/-- `t_loghistptr`. -/
def tLoghistptr (h : LogHistory) : Nat :=
  if h.lastpos ≤ h.loghistptr then 0 else h.loghistptr

/-- `monitor_logsend` with the flag `on`: the lines it visits. -/
def monitorLogsend (h : LogHistory) : Option (List Shown) :=
  (strlen h.loghistorysize h.loghist (h.tLoghistptr + 1)).bind fun length =>
    h.walk h.tLoghistptr 200 false (h.tLoghistptr + (length + 2))

/-! ### The walk over strings -/

variable {h : LogHistory} {off stop t i n : Nat} {d : Bool}
  {line : List UInt8} {lines : List (List UInt8)}

theorem turn_string (there : StringAt h.loghist off line)
    (filled : line ≠ []) (inside : off + line.length < h.loghistorysize) :
    h.turn d off = some (d, off, line.length + 1) := by
  have long : 0 < line.length := List.length_pos_iff.mpr filled
  unfold turn
  rw [strlen_string there inside, Option.bind_some, if_neg]
  rintro ⟨_, last | empty⟩
  · unfold lastpos at last
    omega
  · omega

/-- At the end of a round the walk goes on as it does from the start. -/
theorem turn_end (zero : h.loghist off = 0)
    (inside : off < h.loghistorysize) :
    h.turn false off = h.turn true 0 := by
  have back : (strlen h.loghistorysize h.loghist 0).map
      (fun length => (true, 0, length + 1)) = h.turn true 0 := by
    unfold turn
    simp only [Bool.true_eq_false, false_and, if_false]
    exact Option.map_eq_bind
  rw [← back]
  unfold turn
  rw [strlen_end zero inside, Option.bind_some,
    if_pos ⟨rfl, .inr (Nat.lt_succ_self 1)⟩]

theorem shownAt_string (there : StringAt h.loghist off line)
    (inside : off + line.length < h.loghistorysize) (tab : 9 ∈ line) :
    h.shownAt off (line.length + 1) = some (shownLine line) := by
  have before : line.idxOf 9 < line.length := List.idxOf_lt_length_iff.mpr tab
  have front : (line.take (line.idxOf 9 + 1)).length = line.idxOf 9 + 1 := by
    rw [List.length_take]
    omega
  have text : StringAt h.loghist (off + (line.idxOf 9 + 1))
      (line.drop (line.idxOf 9 + 1)) := by
    rw [← List.take_append_drop (line.idxOf 9 + 1) line] at there
    have behind := there.behind
    rwa [front] at behind
  have short : off + (line.idxOf 9 + 1) +
      (line.drop (line.idxOf 9 + 1)).length < h.loghistorysize := by
    rw [List.length_drop]
    omega
  unfold shownAt
  simp only [Nat.add_sub_cancel, there.bytes]
  rw [strlen_string text short, Option.map_some, text.bytes]
  rfl

/-- Whole lines are visited one after the other; behind the turn they have to
lie before `t`. -/
theorem walk_strings (strings : Strings h.loghist off lines stop)
    (inside : stop < h.loghistorysize) (tabs : ∀ line ∈ lines, 9 ∈ line)
    (before : d = true → stop ≤ t) :
    h.walk t i d off =
      (h.walk t (i - lines.length) d stop).map
        ((lines.take i).map shownLine ++ ·) := by
  induction lines generalizing off i with
  | nil =>
      obtain rfl : off = stop := strings
      simp
  | cons line lines induction =>
      cases i with
      | zero => simp [walk]
      | succ i =>
          obtain ⟨filled, there, behind⟩ := strings
          have bound := behind.le
          have goes : ¬ (d = true ∧ (t ≤ off ∨ line.length + 1 < 2)) := by
            have long : 0 < line.length := List.length_pos_iff.mpr filled
            rintro ⟨turned, past | empty⟩
            · have limit := before turned
              omega
            · omega
          have rest := @induction (off + line.length + 1) i behind
            fun other member => tabs other (List.mem_cons_of_mem line member)
          rw [walk, turn_string there filled (by omega), Option.bind_some]
          simp only [if_neg goes]
          rw [shownAt_string there (by omega)
            (tabs line List.mem_cons_self), Option.bind_some,
            ← Nat.add_assoc, rest, List.length_cons, Nat.add_sub_add_right,
            Option.map_map]
          rfl

theorem walk_end (zero : h.loghist off = 0)
    (inside : off < h.loghistorysize) :
    h.walk t i false off = h.walk t i true 0 := by
  cases i with
  | zero => rfl
  | succ i => rw [walk, walk, turn_end zero inside]

/-- Behind the turn the walk is over at `t`. -/
theorem walk_stop (past : t ≤ off)
    (known : strlen h.loghistorysize h.loghist off = some n) :
    h.walk t i true off = some [] := by
  cases i with
  | zero => rfl
  | succ i =>
      rw [walk]
      unfold turn
      rw [known, Option.bind_some]
      simp only [Bool.true_eq_false, false_and, if_false, Option.bind_some]
      rw [if_pos ⟨trivial, .inl past⟩]

/-- Two bytes before the end of the area the walk begins outside of it. -/
theorem monitorLogsend_outside (last : h.loghistptr + 2 = h.loghistorysize)
    (zero : h.loghist (h.loghistptr + 1) = 0) : h.monitorLogsend = none := by
  have place : h.tLoghistptr = h.loghistptr := by
    unfold tLoghistptr lastpos
    rw [if_neg (by omega)]
  unfold monitorLogsend
  rw [place, strlen_end zero (by omega), Option.bind_some, walk]
  unfold turn
  rw [strlen_outside (by omega)]
  rfl

end LogHistory

/-! ## Every state of a run -/

/-- `loghistptr` is not two bytes before the end of the area, and not right
before the end of an earlier round with something behind it. -/
def Logged.Aligned (s : Logged) : Prop :=
  s.history.loghistptr + 2 ≠ s.history.loghistorysize ∧
    (s.history.loghistptr + 1 ∈ s.ends →
      s.history.loghist (s.history.loghistptr + 2) = 0)

namespace Kept

variable {s : Logged} {current : List (List UInt8)}
  {runs : List (List (List UInt8))}

/-- The lines of the current round, from the start of the area on. -/
theorem walk_current (kept : Kept s current runs) (i : Nat) :
    s.history.walk s.history.loghistptr i true 0 =
      some ((current.take i).map LogHistory.shownLine) := by
  have tabs : ∀ line ∈ current, 9 ∈ line :=
    fun line member => kept.tabs line (kept.newest.subset member)
  have known := strlen_end kept.zero kept.place
  rw [LogHistory.walk_strings kept.strings kept.place tabs
    (fun _ => le_refl _), LogHistory.walk_stop (le_refl _) known,
    Option.map_some, List.append_nil]

/-- When the area is full, the walk begins behind the first line. -/
theorem logsend_full (kept : Kept s current runs)
    (full : s.history.loghistptr + 1 = s.history.loghistorysize) :
    ∃ lines : List (List UInt8), lines.Sublist current ∧
      s.history.monitorLogsend = some (lines.map LogHistory.shownLine) := by
  have enough := kept.enough
  have place : s.history.tLoghistptr = 0 := by
    unfold LogHistory.tLoghistptr LogHistory.lastpos
    rw [if_pos (by omega)]
  have strings := kept.strings
  cases current with
  | nil =>
      have empty : 0 = s.history.loghistptr := strings
      omega
  | cons first rest =>
      obtain ⟨filled, there, behind⟩ := strings
      have long : 0 < first.length := List.length_pos_iff.mpr filled
      have bound := behind.le
      have tabs : ∀ line ∈ rest, 9 ∈ line := fun line member =>
        kept.tabs line (kept.newest.subset (List.mem_cons_of_mem first member))
      obtain ⟨part, cut, same⟩ := cut_string there (Nat.zero_le 1) (by omega)
      have length : strlen s.history.loghistorysize s.history.loghist (0 + 1) =
          some part.length := strlen_string cut (by omega)
      have start : 0 + (part.length + 2) = 0 + first.length + 1 := by omega
      have known : strlen s.history.loghistorysize s.history.loghist 0 =
          some first.length := strlen_string there (by omega)
      have turned : false = true → s.history.loghistptr ≤ 0 :=
        fun no => absurd no Bool.false_ne_true
      refine ⟨rest.take 200, (List.take_sublist 200 rest).trans
        (List.sublist_cons_self first rest), ?_⟩
      unfold LogHistory.monitorLogsend
      rw [place, length, Option.bind_some, start,
        LogHistory.walk_strings behind kept.place tabs turned,
        LogHistory.walk_end kept.zero kept.place,
        LogHistory.walk_stop (le_refl 0) known, Option.map_some,
        List.append_nil]

/-- Otherwise it visits what is left of the round before and then the current
one. -/
theorem logsend_behind (kept : Kept s current runs)
    (room : s.history.loghistptr + 1 ≠ s.history.loghistorysize)
    (aligned : s.Aligned) :
    ∃ lines : List (List UInt8), lines.Sublist s.lines ∧
      s.history.monitorLogsend = some (lines.map LogHistory.shownLine) := by
  have inside := kept.place
  have place : s.history.tLoghistptr = s.history.loghistptr := by
    unfold LogHistory.tLoghistptr LogHistory.lastpos
    rw [if_neg (by omega)]
  have apart := aligned.1
  obtain ⟨n, run, stop, length, strings, zero, before, source⟩ :=
    kept.remains.first (by omega) aligned.2
  have order : (run ++ current).Sublist s.lines := by
    rcases source with rfl | member
    · exact kept.newest
    · exact kept.order run member
  have tabs : ∀ line ∈ run, 9 ∈ line := fun line member =>
    kept.tabs line (order.subset (List.mem_append_left current member))
  have start : s.history.loghistptr + (n + 2) =
      s.history.loghistptr + 1 + n + 1 := by omega
  have turned : false = true → stop ≤ s.history.loghistptr :=
    fun no => absurd no Bool.false_ne_true
  refine ⟨run.take 200 ++ current.take (200 - run.length),
    ((List.take_sublist _ _).append (List.take_sublist _ _)).trans order, ?_⟩
  unfold LogHistory.monitorLogsend
  rw [place, length, Option.bind_some, start,
    LogHistory.walk_strings strings before tabs turned,
    LogHistory.walk_end zero before, kept.walk_current, Option.map_some,
    List.map_append]

end Kept

/-- The walk visits lines in the order in which they were written, and reads
nothing outside of the area. -/
def Logged.Sent (s : Logged) : Prop :=
  ∃ lines : List (List UInt8), lines.Sublist s.lines ∧
    s.history.monitorLogsend = some (lines.map LogHistory.shownLine)

/-- In every state of every run the next message is written inside of the
area, and the walk visits whole lines in their order, when `loghistptr` is
aligned. -/
theorem log_reached {s : Logged} (reached : s.Reached) :
    (∀ message, ∀ store ∈ s.history.stores message,
      store.1 + store.2.length ≤ s.history.loghistorysize) ∧
    (s.Aligned → s.Sent) := by
  obtain ⟨current, runs, kept⟩ := reached.inOrder
  constructor
  · intro message
    exact LogHistory.stores_inside kept.enough kept.place
  · intro aligned
    by_cases full : s.history.loghistptr + 1 = s.history.loghistorysize
    · obtain ⟨lines, part, sent⟩ := kept.logsend_full full
      exact ⟨lines, part.trans kept.newest, sent⟩
    · exact kept.logsend_behind full aligned

/-- What stands before the text of a message. -/
def stamp : List UInt8 := ascii "2012/03/04  5:06:07        0 s "

theorem length_stamp : stamp.length = 31 := by decide

/-- A message that takes 511 bytes, and the history with it, once and twice. -/
def longMessage : Message where
  usrtxt := ascii "user"
  txt := stamp ++ (List.replicate 473 120 ++ [10])
  usrShort := by decide
  txtShort := by
    rw [List.length_append, List.length_append, List.length_replicate,
      length_stamp, List.length_singleton]
    omega
  plain := by
    simp only [List.mem_append, List.mem_cons, List.mem_replicate]
    decide

def startLog : Logged :=
  { history := LogHistory.unset.csReinitLoghist 1024, lines := [], ends := [] }

def onceLogged : Logged := startLog.step (.message longMessage)

def twiceLogged : Logged := onceLogged.step (.message longMessage)

theorem targetLen_longMessage : longMessage.targetLen = 510 := by
  have usr : (ascii "user").length = 4 := by decide
  unfold Message.targetLen longMessage
  simp only [List.length_append, List.length_replicate, length_stamp, usr,
    List.length_singleton]

theorem not_wraps_startLog : ¬ startLog.history.Wraps longMessage := by
  unfold LogHistory.Wraps
  rw [targetLen_longMessage]
  decide

theorem loghistptr_onceLogged : onceLogged.history.loghistptr = 511 := by
  show (startLog.history.writeToLog longMessage).loghistptr = 511
  rw [LogHistory.writeToLog_behind not_wraps_startLog,
    longMessage.length_line, targetLen_longMessage]
  rfl

theorem ends_onceLogged : onceLogged.ends = [] := by
  unfold onceLogged Logged.step
  simp only [if_neg not_wraps_startLog]
  rfl

theorem loghistptr_twiceLogged : twiceLogged.history.loghistptr = 1022 := by
  have fits : ¬ onceLogged.history.Wraps longMessage := by
    unfold LogHistory.Wraps
    rw [targetLen_longMessage, loghistptr_onceLogged]
    decide
  show (onceLogged.history.writeToLog longMessage).loghistptr = 1022
  rw [LogHistory.writeToLog_behind fits, longMessage.length_line,
    targetLen_longMessage]
  show onceLogged.history.loghistptr + 510 + 1 = 1022
  rw [loghistptr_onceLogged]

theorem onceLogged_reached : onceLogged.Reached :=
  .next (.start ⟨1024, le_refl _, rfl⟩) trivial

theorem log_reached_once : onceLogged.Aligned ∧ onceLogged.Sent := by
  have size : onceLogged.history.loghistorysize = 1024 := rfl
  have aligned : onceLogged.Aligned := by
    unfold Logged.Aligned
    rw [loghistptr_onceLogged, size, ends_onceLogged]
    exact ⟨by decide, fun member => absurd member List.not_mem_nil⟩
  exact ⟨aligned, (log_reached onceLogged_reached).2 aligned⟩

/-- Behind the second message `loghistptr` is two bytes before the end. -/
theorem not_sent_twice :
    ¬ ∀ s : Logged, s.Reached →
      (∀ message, ∀ store ∈ s.history.stores message,
        store.1 + store.2.length ≤ s.history.loghistorysize) ∧ s.Sent := by
  intro all
  have reached : twiceLogged.Reached := .next onceLogged_reached trivial
  have size : twiceLogged.history.loghistorysize = 1024 := rfl
  have last : twiceLogged.history.loghistptr + 2 =
      twiceLogged.history.loghistorysize := by
    rw [loghistptr_twiceLogged, size]
  obtain ⟨current, runs, kept⟩ := reached.inOrder
  have remains := kept.remains
  rw [← last] at remains
  obtain ⟨lines, _, sent⟩ := (all twiceLogged reached).2
  rw [LogHistory.monitorLogsend_outside last remains.last] at sent
  exact Option.some_ne_none _ sent.symm

end Oscam.Log
