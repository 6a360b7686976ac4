import Mathlib.Algebra.Ring.Int.Defs
import Mathlib.Data.List.Basic
import Mathlib.Data.List.Induction
import Mathlib.Tactic.SplitIfs

/-!
# Failed logins

`cs_check_v` keeps the list of addresses with a failed login.  The same
function enters an address, counts its connections, drops what is out of time
and answers whether a connection is refused.
-/

namespace Oscam

/-- An `int32_t` that wraps around. -/
def toInt32 (n : Int) : Int := (n + 2 ^ 31) % 2 ^ 32 - 2 ^ 31

theorem toInt32_le_self {n : Int} (nonneg : 0 ≤ n) : toInt32 n ≤ n := by
  unfold toInt32
  omega

/-- An address with the port it connects to. -/
structure Peer where
  ip : UInt32
  port : Int
  deriving DecidableEq, Repr

/-- `V_BAN`. -/
structure VBan where
  vCount : Int
  vIp : UInt32
  vPort : Int
  vTime : Int
  deriving DecidableEq, Repr

/-- The settings of `cfg` that `cs_check_v` reads. -/
structure FailbanCfg where
  failbantime : Int
  failbancount : Int
  deriving DecidableEq, Repr

namespace Failban

/-- `ftime`, the seconds an entry lives. -/
def ftime (cfg : FailbanCfg) : Int := toInt32 (cfg.failbantime * 60)

/-- What the loop does to the entry of the asking peer. -/
def count (cfg : FailbanCfg) (add : Bool) (entry : VBan) : VBan :=
  if !add then
    if entry.vCount ≥ cfg.failbancount then entry
    else { entry with vCount := entry.vCount + 1 }
  else entry

/-- The loop over all entries: the result and the entries that are kept. -/
def sweep (cfg : FailbanCfg) (now : Int) (peer : Peer) (add : Bool) :
    List VBan → Int → Int × List VBan
  | [], result => (result, [])
  | entry :: rest, result =>
      -- entry out of time: it is removed before it can match
      if now - entry.vTime ≥ ftime cfg then
        sweep cfg now peer add rest result
      else if peer.ip = entry.vIp ∧ peer.port = entry.vPort then
        let swept := sweep cfg now peer add rest 1
        (swept.1, count cfg add entry :: swept.2)
      else
        let swept := sweep cfg now peer add rest result
        (swept.1, entry :: swept.2)

/-- `cs_check_v`.  The iterator has passed the last entry when the new one is
inserted, so that it is appended. -/
def csCheckV (cfg : FailbanCfg) (now : Int) (vList : List VBan) (peer : Peer)
    (add : Bool) : Int × List VBan :=
  if cfg.failbantime ≠ 0 then
    let swept := sweep cfg now peer add vList 0
    if add ∧ swept.1 = 0 then
      (swept.1, swept.2 ++
        [{ vCount := 1, vIp := peer.ip, vPort := peer.port, vTime := now }])
    else swept
  else (0, vList)

/-- `cs_check_violation`. -/
def csCheckViolation (cfg : FailbanCfg) (now : Int) (vList : List VBan)
    (peer : Peer) : Int × List VBan :=
  csCheckV cfg now vList peer false

/-- `cs_add_violation`. -/
def csAddViolation (cfg : FailbanCfg) (now : Int) (vList : List VBan)
    (peer : Peer) : List VBan :=
  (csCheckV cfg now vList peer true).2

/-- `accept_connection` for a peer that has no client yet: whether it is
refused, and the list. -/
def acceptConnection (cfg : FailbanCfg) (now : Int) (vList : List VBan)
    (peer : Peer) : Bool × List VBan :=
  let checked := csCheckViolation cfg now vList peer
  (checked.1 != 0, checked.2)

/-! ## One call -/

/-- The entry is not out of time. -/
def live (cfg : FailbanCfg) (now time : Int) : Bool :=
  decide (now - time < ftime cfg)

/-- The times of the entries of a peer. -/
def times (peer : Peer) (vList : List VBan) : List Int :=
  (vList.filter fun entry =>
    entry.vIp = peer.ip ∧ entry.vPort = peer.port).map VBan.vTime

@[simp] theorem times_nil (peer : Peer) : times peer [] = [] := rfl

theorem times_append (peer : Peer) (first second : List VBan) :
    times peer (first ++ second) = times peer first ++ times peer second := by
  simp [times]

theorem times_cons (peer : Peer) (entry : VBan) (rest : List VBan) :
    times peer (entry :: rest) =
      if entry.vIp = peer.ip ∧ entry.vPort = peer.port then
        entry.vTime :: times peer rest
      else times peer rest := by
  unfold times
  rw [List.filter_cons]
  split_ifs <;> simp_all

theorem count_fields (cfg : FailbanCfg) (add : Bool) (entry : VBan) :
    (count cfg add entry).vIp = entry.vIp ∧
      (count cfg add entry).vPort = entry.vPort ∧
      (count cfg add entry).vTime = entry.vTime := by
  unfold count
  split_ifs <;> exact ⟨rfl, rfl, rfl⟩

/-- The loop drops what is out of time, for every peer alike. -/
theorem times_sweep (cfg : FailbanCfg) (now : Int) (asking : Peer)
    (add : Bool) (peer : Peer) (vList : List VBan) (result : Int) :
    times peer (sweep cfg now asking add vList result).2 =
      (times peer vList).filter (live cfg now) := by
  induction vList generalizing result with
  | nil => rfl
  | cons entry rest induction =>
      obtain ⟨sameIp, samePort, sameTime⟩ := count_fields cfg add entry
      rw [sweep]
      split_ifs with expired asked
      · have dead : live cfg now entry.vTime = false := by
          simp only [live, decide_eq_false_iff_not]
          omega
        rw [induction, times_cons]
        split_ifs
        · rw [List.filter_cons_of_neg (by simp [dead])]
        · rfl
      all_goals
        have alive : live cfg now entry.vTime = true := by
          simp only [live, decide_eq_true_eq]
          omega
        simp only [times_cons, sameIp, samePort, sameTime, induction]
        split_ifs
        · rw [List.filter_cons_of_pos (by simp [alive])]
        · rfl

/-- The result of the loop: one as soon as the peer has a live entry. -/
theorem sweep_result (cfg : FailbanCfg) (now : Int) (asking : Peer)
    (add : Bool) (vList : List VBan) (result : Int) :
    (sweep cfg now asking add vList result).1 =
      if (times asking vList).filter (live cfg now) = [] then result
      else 1 := by
  induction vList generalizing result with
  | nil => rfl
  | cons entry rest induction =>
      rw [sweep]
      by_cases expired : now - entry.vTime ≥ ftime cfg
      · have dead : live cfg now entry.vTime = false := by
          simp only [live, decide_eq_false_iff_not]
          omega
        rw [if_pos expired, induction, times_cons]
        congr 2
        split_ifs
        · rw [List.filter_cons_of_neg (by simp [dead])]
        · rfl
      · rw [if_neg expired]
        by_cases asked : asking.ip = entry.vIp ∧ asking.port = entry.vPort
        · have alive : live cfg now entry.vTime = true := by
            simp only [live, decide_eq_true_eq]
            omega
          have own : entry.vIp = asking.ip ∧ entry.vPort = asking.port :=
            ⟨asked.1.symm, asked.2.symm⟩
          rw [if_pos asked, times_cons, if_pos own,
            List.filter_cons_of_pos alive, if_neg (List.cons_ne_nil _ _),
            induction]
          exact ite_self 1
        · have other :
              ¬ (entry.vIp = asking.ip ∧ entry.vPort = asking.port) :=
            fun own => asked ⟨own.1.symm, own.2.symm⟩
          rw [if_neg asked, times_cons, if_neg other]
          exact induction result

/-- What one call leaves of the entries of every peer. -/
theorem times_csCheckV {cfg : FailbanCfg} (enabled : cfg.failbantime ≠ 0)
    (now : Int) (vList : List VBan) (asking : Peer) (add : Bool)
    (peer : Peer) :
    times peer (csCheckV cfg now vList asking add).2 =
      (times peer vList).filter (live cfg now) ++
        if add = true ∧ asking = peer ∧
            (times peer vList).filter (live cfg now) = [] then [now]
        else [] := by
  unfold csCheckV
  rw [if_pos enabled]
  simp only [sweep_result]
  by_cases own : asking = peer
  · subst own
    by_cases none : (times asking vList).filter (live cfg now) = []
    · cases add
      · simp [times_sweep]
      · simp [none, times_append, times_sweep, times_cons]
    · simp [none, times_sweep]
  · have other : ¬ (asking.ip = peer.ip ∧ asking.port = peer.port) := by
      rintro ⟨sameIp, samePort⟩
      exact own (by cases asking; cases peer; simp_all)
    have nothing : ¬ (add = true ∧ asking = peer ∧
        (times peer vList).filter (live cfg now) = []) :=
      fun entered => own entered.2.1
    rw [if_neg nothing, List.append_nil]
    split_ifs <;> simp [times_append, times_sweep, times_cons, other]

/-- A connection is refused as soon as there is a live entry. -/
theorem acceptConnection_refused {cfg : FailbanCfg}
    (enabled : cfg.failbantime ≠ 0) (now : Int) (vList : List VBan)
    (peer : Peer) :
    (acceptConnection cfg now vList peer).1 = true ↔
      (times peer vList).filter (live cfg now) ≠ [] := by
  simp [acceptConnection, csCheckViolation, csCheckV, enabled, sweep_result]

/-! ## Histories -/

/-- What happens to the list, with the time of the clock. -/
inductive Event where
  | failedLogin (now : Int) (peer : Peer)
  | connection (now : Int) (peer : Peer)
  deriving DecidableEq, Repr

def Event.now : Event → Int
  | .failedLogin now _ => now
  | .connection now _ => now

/-- A failed login of the peer after the given time. -/
def Event.failedSince (start : Int) (peer : Peer) : Event → Bool
  | .failedLogin now other => other = peer ∧ start < now
  | .connection _ _ => false

/-- The clock does not run backwards. -/
def Ordered (events : List Event) : Prop :=
  events.Pairwise fun earlier later => earlier.now ≤ later.now

def step (cfg : FailbanCfg) (vList : List VBan) : Event → List VBan
  | .failedLogin now peer => csAddViolation cfg now vList peer
  | .connection now peer => (acceptConnection cfg now vList peer).2

/-- `cfg.v_list` after a history. -/
def run (cfg : FailbanCfg) (events : List Event) : List VBan :=
  events.foldl (step cfg) []

/-- Failed logins of a peer in the last `failbantime` minutes. -/
def failures (cfg : FailbanCfg) (now : Int) (peer : Peer)
    (events : List Event) : Nat :=
  events.countP (Event.failedSince (now - cfg.failbantime * 60) peer)

/-- Every connection that is refused comes from a peer with `failbancount`
failed logins in the last `failbantime` minutes. -/
def RefusalsEarned (cfg : FailbanCfg) (events : List Event) : Prop :=
  ∀ before now peer after,
    events = before ++ Event.connection now peer :: after →
    (acceptConnection cfg now (run cfg before) peer).1 = true →
    cfg.failbancount ≤ failures cfg now peer before

/-- No peer has two entries. -/
def OneEntryEach (vList : List VBan) : Prop :=
  ∀ peer, (times peer vList).length ≤ 1

/-- When the ban of a peer began: a failed login opens one unless an earlier
one is still running. -/
def banStep (cfg : FailbanCfg) (peer : Peer) (since : Option Int) :
    Event → Option Int
  | .failedLogin now other =>
      if other = peer ∧ since.all (fun time => !live cfg now time) then
        some now
      else since
  | .connection _ _ => since

def bannedSince (cfg : FailbanCfg) (peer : Peer) (events : List Event) :
    Option Int :=
  events.foldl (banStep cfg peer) none

/-- Whenever a connection arrives during a ban of its peer, there were enough
failed logins. -/
def BansEarned (cfg : FailbanCfg) (events : List Event) : Prop :=
  ∀ before now peer after,
    events = before ++ Event.connection now peer :: after →
    (bannedSince cfg peer before).any (live cfg now) = true →
    cfg.failbancount ≤ failures cfg now peer before

/-! ## The list and the history -/

/-- The list holds for every peer the ban that is running, as far as it can
still be seen from `now` on. -/
def Mirrors (cfg : FailbanCfg) (now : Int) (events : List Event) : Prop :=
  ∀ later peer, now ≤ later →
    (times peer (run cfg events)).filter (live cfg later) =
      (bannedSince cfg peer events).toList.filter (live cfg later)

theorem live_earlier {cfg : FailbanCfg} {now later time : Int}
    (ordered : now ≤ later) (alive : live cfg later time = true) :
    live cfg now time = true := by
  simp only [live, decide_eq_true_eq] at alive ⊢
  omega

/-- Filtering twice is filtering at the later time. -/
theorem filter_live_live {cfg : FailbanCfg} {now later : Int}
    (ordered : now ≤ later) (entries : List Int) :
    (entries.filter (live cfg now)).filter (live cfg later) =
      entries.filter (live cfg later) := by
  rw [List.filter_filter]
  apply List.filter_congr
  intro time _
  by_cases alive : live cfg later time = true
  · simp [alive, live_earlier ordered alive]
  · simp [Bool.eq_false_iff.mpr alive]

theorem run_append (cfg : FailbanCfg) (events : List Event) (event : Event) :
    run cfg (events ++ [event]) = step cfg (run cfg events) event := by
  simp [run]

theorem bannedSince_append (cfg : FailbanCfg) (peer : Peer)
    (events : List Event) (event : Event) :
    bannedSince cfg peer (events ++ [event]) =
      banStep cfg peer (bannedSince cfg peer events) event := by
  simp [bannedSince]

/-- The entries of a peer after one event. -/
theorem times_step {cfg : FailbanCfg} (enabled : cfg.failbantime ≠ 0)
    (vList : List VBan) (event : Event) (peer : Peer) :
    times peer (step cfg vList event) =
      (times peer vList).filter (live cfg event.now) ++
        match event with
        | .failedLogin now other =>
            if other = peer ∧ (times peer vList).filter (live cfg now) = []
            then [now] else []
        | .connection _ _ => [] := by
  cases event with
  | failedLogin now other =>
      simp only [step, csAddViolation, Event.now, times_csCheckV enabled,
        true_and]
  | connection now other =>
      simp [step, acceptConnection, csCheckViolation, Event.now,
        times_csCheckV enabled]

/-- One event keeps list and history together. -/
theorem Mirrors.step {cfg : FailbanCfg} (enabled : cfg.failbantime ≠ 0)
    {now : Int} {events : List Event} {event : Event}
    (ordered : now ≤ event.now) (mirrors : Mirrors cfg now events) :
    Mirrors cfg event.now (events ++ [event]) := by
  intro later peer after
  have same := mirrors later peer (Int.le_trans ordered after)
  have before := mirrors event.now peer ordered
  rw [run_append, bannedSince_append, times_step enabled,
    List.filter_append, filter_live_live after, same]
  cases event with
  | connection time other => simp [banStep]
  | failedLogin time other =>
      simp only [Event.now] at before
      simp only [banStep, before]
      by_cases own : other = peer
      · cases since : bannedSince cfg peer events with
        | none => simp [own]
        | some start =>
            by_cases running : live cfg time start = true
            · simp [own, running]
            · have past : live cfg later start ≠ true :=
                fun alive => running (live_earlier after alive)
              simp [own, running, past]
      · simp [own]

theorem mirrors_run {cfg : FailbanCfg} (enabled : cfg.failbantime ≠ 0)
    {now : Int} {events : List Event} (ordered : Ordered events)
    (reached : ∀ event ∈ events, event.now ≤ now) :
    Mirrors cfg now events := by
  induction events using List.reverseRecOn generalizing now with
  | nil =>
      intro later peer _
      rfl
  | append_singleton events event induction =>
      have apart := List.pairwise_append.mp ordered
      have earlier : Mirrors cfg event.now events :=
        induction apart.1 fun first inside =>
          apart.2.2 first inside event (by simp)
      have stepped := earlier.step enabled (Int.le_refl event.now)
      have latest : event.now ≤ now := reached event (by simp)
      intro later peer after
      exact stepped later peer (Int.le_trans latest after)

/-- A refused connection is one that arrives during a ban. -/
theorem refused_iff_banned {cfg : FailbanCfg} (enabled : cfg.failbantime ≠ 0)
    {now : Int} {events : List Event} (ordered : Ordered events)
    (reached : ∀ event ∈ events, event.now ≤ now) (peer : Peer) :
    (acceptConnection cfg now (run cfg events) peer).1 = true ↔
      (bannedSince cfg peer events).any (live cfg now) = true := by
  have mirrors := mirrors_run enabled ordered reached now peer (Int.le_refl now)
  rw [acceptConnection_refused enabled, mirrors]
  cases bannedSince cfg peer events <;> simp

theorem oneEntryEach_step {cfg : FailbanCfg} (enabled : cfg.failbantime ≠ 0)
    {vList : List VBan} (event : Event) (single : OneEntryEach vList) :
    OneEntryEach (step cfg vList event) := by
  intro peer
  have kept : ((times peer vList).filter (live cfg event.now)).length ≤ 1 :=
    Nat.le_trans (List.length_filter_le _ _) (single peer)
  rw [times_step enabled, List.length_append]
  cases event with
  | connection now other => simpa [Event.now] using kept
  | failedLogin now other =>
      simp only [Event.now] at kept ⊢
      split_ifs with entered
      · simp [entered.2]
      · simpa using kept

theorem oneEntryEach_run {cfg : FailbanCfg} (enabled : cfg.failbantime ≠ 0)
    (events : List Event) : OneEntryEach (run cfg events) := by
  induction events using List.reverseRecOn with
  | nil =>
      intro peer
      simp [run]
  | append_singleton events event induction =>
      rw [run_append]
      exact oneEntryEach_step enabled event induction

/-! ## Refusals and failures -/

theorem ordered_before {before after : List Event} {event : Event}
    (ordered : Ordered (before ++ event :: after)) :
    Ordered before ∧ ∀ earlier ∈ before, earlier.now ≤ event.now := by
  have apart := List.pairwise_append.mp ordered
  exact ⟨apart.1, fun earlier inside =>
    apart.2.2 earlier inside event (by simp)⟩

theorem refusalsEarned_iff_bansEarned {cfg : FailbanCfg}
    (enabled : cfg.failbantime ≠ 0) {events : List Event}
    (ordered : Ordered events) :
    RefusalsEarned cfg events ↔ BansEarned cfg events := by
  constructor
  · intro earned before now peer after split banned
    subst split
    obtain ⟨sorted, reached⟩ := ordered_before ordered
    exact earned before now peer after rfl
      ((refused_iff_banned enabled sorted reached peer).mpr banned)
  · intro earned before now peer after split refused
    subst split
    obtain ⟨sorted, reached⟩ := ordered_before ordered
    exact earned before now peer after rfl
      ((refused_iff_banned enabled sorted reached peer).mp refused)

/-- A ban begins with a failed login of the peer. -/
theorem bannedSince_mem {cfg : FailbanCfg} {peer : Peer}
    {events : List Event} {start : Int}
    (since : bannedSince cfg peer events = some start) :
    Event.failedLogin start peer ∈ events := by
  induction events using List.reverseRecOn with
  | nil => simp [bannedSince] at since
  | append_singleton events event induction =>
      rw [bannedSince_append] at since
      cases event with
      | connection now other =>
          exact List.mem_append_left _ (induction since)
      | failedLogin now other =>
          simp only [banStep] at since
          split_ifs at since with opened
          · obtain rfl : now = start := Option.some.inj since
            simp [opened.1]
          · exact List.mem_append_left _ (induction since)

/-- A ban lasts no longer than the minutes of the setting, so that the failed
login that began it is among those counted. -/
theorem failures_pos_of_banned {cfg : FailbanCfg}
    (positive : 0 < cfg.failbantime) {now : Int} {peer : Peer}
    {events : List Event}
    (banned : (bannedSince cfg peer events).any (live cfg now) = true) :
    0 < failures cfg now peer events := by
  obtain ⟨start, since, alive⟩ := (Option.any_eq_true ..).mp banned
  have short : ftime cfg ≤ cfg.failbantime * 60 :=
    toInt32_le_self (by omega)
  simp only [live, decide_eq_true_eq] at alive
  refine List.countP_pos_iff.mpr ⟨_, bannedSince_mem since, ?_⟩
  simp only [Event.failedSince, true_and, decide_eq_true_eq]
  omega

/-- A ban of no length never refuses anybody. -/
theorem not_banned_of_ftime_nonpos {cfg : FailbanCfg} (short : ftime cfg ≤ 0)
    {now : Int} (peer : Peer) {events : List Event}
    (reached : ∀ event ∈ events, event.now ≤ now) :
    (bannedSince cfg peer events).any (live cfg now) = false := by
  rw [Bool.eq_false_iff]
  intro banned
  obtain ⟨start, since, alive⟩ := (Option.any_eq_true ..).mp banned
  have past : start ≤ now := reached _ (bannedSince_mem since)
  simp only [live, decide_eq_true_eq] at alive
  omega

/-- One failed login and a connection right after it. -/
def oneFailure (peer : Peer) : List Event :=
  [.failedLogin 0 peer, .connection 0 peer]

theorem oneFailure_ordered (peer : Peer) : Ordered (oneFailure peer) := by
  simp [Ordered, oneFailure, Event.now]

/-- The connection after one failed login is refused, whatever the count. -/
theorem oneFailure_earned {cfg : FailbanCfg} (positive : 0 < cfg.failbantime)
    (long : 0 < ftime cfg) (peer : Peer)
    (earned : RefusalsEarned cfg (oneFailure peer)) :
    cfg.failbancount ≤ 1 := by
  have reached : ∀ event ∈ [Event.failedLogin 0 peer], event.now ≤ 0 := by
    simp [Event.now]
  have refused : (acceptConnection cfg 0
      (run cfg [Event.failedLogin 0 peer]) peer).1 = true := by
    refine (refused_iff_banned (by omega) (List.pairwise_singleton _ _)
      reached peer).mpr ?_
    simp [bannedSince, banStep, live, long]
  have enough := earned [.failedLogin 0 peer] 0 peer [] rfl refused
  have once : failures cfg 0 peer [Event.failedLogin 0 peer] ≤ 1 :=
    List.countP_le_length
  omega

/-- The list never has two entries of one peer.  In every history the refused
connections are exactly those that arrive during a ban, which one failed login
is enough to begin; so refusals are earned in all histories only when one
failed login is all that is asked for, or when the time of a ban overflows. -/
theorem refusalsEarned_iff {cfg : FailbanCfg}
    (positive : 0 < cfg.failbantime) :
    (∀ events, Ordered events →
      OneEntryEach (run cfg events) ∧
        (RefusalsEarned cfg events ↔ BansEarned cfg events)) ∧
    ((∀ events, Ordered events → RefusalsEarned cfg events) ↔
      cfg.failbancount ≤ 1 ∨ ftime cfg ≤ 0) := by
  have enabled : cfg.failbantime ≠ 0 := by omega
  refine ⟨?_, ?_, ?_⟩
  · intro events ordered
    exact ⟨oneEntryEach_run enabled events,
      refusalsEarned_iff_bansEarned enabled ordered⟩
  · intro earned
    by_cases short : ftime cfg ≤ 0
    · exact .inr short
    · exact .inl (oneFailure_earned positive (by omega) ⟨0, 0⟩
        (earned _ (oneFailure_ordered _)))
  · intro condition events ordered before now peer after split refused
    subst split
    obtain ⟨sorted, reached⟩ := ordered_before ordered
    have banned := (refused_iff_banned enabled sorted reached peer).mp refused
    have once : 0 < failures cfg now peer before :=
      failures_pos_of_banned positive banned
    rcases condition with small | short
    · omega
    · have free := not_banned_of_ftime_nonpos short peer reached
      rw [free] at banned
      exact absurd banned Bool.false_ne_true

/-- Ten minutes, and two failed logins for a ban. -/
theorem refusalsEarned_iff_ten :
    OneEntryEach (run { failbantime := 10, failbancount := 2 }
        (oneFailure ⟨0x0100007f, 988⟩)) ∧
      (RefusalsEarned { failbantime := 10, failbancount := 2 }
          (oneFailure ⟨0x0100007f, 988⟩) ↔
        BansEarned { failbantime := 10, failbancount := 2 }
          (oneFailure ⟨0x0100007f, 988⟩)) :=
  (refusalsEarned_iff (by decide)).1 _ (oneFailure_ordered _)

/-- With a count of three, the connection after the first failed login is
already refused. -/
theorem refused_after_one :
    Ordered (oneFailure ⟨0x0100007f, 988⟩) ∧
      ¬ RefusalsEarned { failbantime := 10, failbancount := 3 }
        (oneFailure ⟨0x0100007f, 988⟩) := by
  refine ⟨oneFailure_ordered _, ?_⟩
  intro earned
  have small := oneFailure_earned (by decide) (by decide) _ earned
  exact absurd small (by decide)

end Failban

end Oscam
