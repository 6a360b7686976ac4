import Oscam.Ecm.Readers
import Oscam.Ecm.Waiting

/-!
# Deadlines

When `chk_pending` moves a request to its fallback readers or answers it with a
time-out.  The deadline of a request is the sum of two time stamps whose
milliseconds are not carried over to the seconds, and `comp_timeb` compares the
seconds first.
-/

namespace Oscam

/-- Milliseconds from `start` to `time`. -/
def Timeb.msSince (time start : Timeb) : Int :=
  1000 * (time.time - start.time) + (time.millitm - start.millitm)

/-- The seconds of a deadline are over, its milliseconds reach further. -/
def SecondsOnly (now tpc : Timeb) : Prop :=
  tpc.time < now.time ∧
    1000 * (now.time - tpc.time) + now.millitm < tpc.millitm

theorem compTimeb_pos_iff (left right : Timeb) :
    compTimeb left right > 0 ↔
      right.time < left.time ∨
        left.time = right.time ∧ right.millitm < left.millitm := by
  unfold compTimeb
  split
  · omega
  · split
    · omega
    · split
      · omega
      · split
        · omega
        · omega

/-- A deadline that has come, as `comp_timeb` sees it, is over in milliseconds
as well unless only its seconds are. -/
theorem due_iff {now tps tpc : Timeb} {tt : Nat}
    (sum : 1000 * tpc.time + tpc.millitm =
      1000 * tps.time + tps.millitm + tt) :
    (compTimeb now tpc > 0 → tt ≤ now.msSince tps) ↔ ¬ SecondsOnly now tpc := by
  unfold Timeb.msSince SecondsOnly
  rw [compTimeb_pos_iff]
  omega

namespace Server

/-! ## Turns of the loop -/

variable {cfg : Config} {s t : Server} {c : ClientId} {i j : Nat}
  {er : EcmRequest}

/-- What the deadlines are made of: the clock, the active readers and which of
them are network readers. -/
structure SameView (s t : Server) : Prop where
  now : t.now = s.now
  activeReaders : t.activeReaders = s.activeReaders
  isNetwork : ∀ r, (t.readers r).isNetwork = (s.readers r).isNetwork

namespace SameView

theorem refl (s : Server) : SameView s s := ⟨rfl, rfl, fun _ => rfl⟩

theorem trans {u : Server} (first : SameView s t) (second : SameView t u) :
    SameView s u :=
  ⟨second.now.trans first.now, second.activeReaders.trans first.activeReaders,
    fun r => (second.isNetwork r).trans (first.isNetwork r)⟩

theorem nothingAsked (same : SameView s t) (cfg : Config) (er : EcmRequest) :
    t.nothingAsked cfg er = s.nothingAsked cfg er := by
  unfold Server.nothingAsked
  simp only [same.isNetwork]

end SameView

theorem isNetwork_write (rdr : Reader) (er : EcmRequest) :
    (rdr.write er).isNetwork = rdr.isNetwork := by
  unfold Reader.write
  split
  · rfl
  · rfl

theorem sameView_askAgain (s : Server) (c : ClientId) (i : Nat)
    (er : EcmRequest) (flag types : Nat) :
    SameView s (s.askAgain c i er flag types) := by
  refine ⟨rfl, rfl, fun r => ?_⟩
  show (if _ then (s.readers r).write _ else s.readers r).isNetwork = _
  split
  · exact isNetwork_write (s.readers r) _
  · rfl

theorem sameView_retry (cfg : Config) (s : Server) (c : ClientId) (i : Nat)
    (er : EcmRequest) : SameView s (s.retry cfg c i er).1 := by
  unfold retry
  split
  · exact sameView_askAgain s c i _ _ _
  · exact SameView.refl s

theorem sameView_expire (s : Server) (c : ClientId) (i : Nat)
    (er : EcmRequest) : SameView s (s.expire c i er) := by
  unfold expire
  split
  · exact ⟨rfl, rfl, fun _ => rfl⟩
  · dsimp only
    split
    · exact sameView_askAgain s c i _ _ _
    · exact ⟨rfl, rfl, fun _ => rfl⟩

theorem sameView_keepWaiting (cfg : Config) (s : Server) (c : ClientId)
    (i : Nat) (er : EcmRequest) : SameView s (s.keepWaiting cfg c i er) := by
  unfold keepWaiting
  dsimp only
  split
  · exact (sameView_retry cfg s c i er).trans (sameView_expire _ c i _)
  · exact sameView_retry cfg s c i er

/-- The slots of the other turns stay as they are. -/
def SameOthers (c : ClientId) (i : Nat) (s t : Server) : Prop :=
  ∀ j, j ≠ i → t.slotOf c j = s.slotOf c j

theorem sameOthers_setSlot (s : Server) (c : ClientId) (i : Nat)
    (er : EcmRequest) : SameOthers c i s (s.setSlot c i er) := by
  intro j other
  rw [slotOf_setSlot, if_neg fun both => other both.2]

theorem sameOthers_retry (cfg : Config) (s : Server) (c : ClientId) (i : Nat)
    (er : EcmRequest) : SameOthers c i s (s.retry cfg c i er).1 := by
  unfold retry
  split
  · exact sameOthers_setSlot s c i _
  · exact fun _ _ => rfl

theorem sameOthers_expire (s : Server) (c : ClientId) (i : Nat)
    (er : EcmRequest) : SameOthers c i s (s.expire c i er) := by
  unfold expire
  split
  · exact sameOthers_setSlot s c i _
  · dsimp only
    split
    · exact sameOthers_setSlot s c i _
    · exact sameOthers_setSlot s c i _

theorem sameOthers_keepWaiting (cfg : Config) (s : Server) (c : ClientId)
    (i : Nat) (er : EcmRequest) :
    SameOthers c i s (s.keepWaiting cfg c i er) := by
  unfold keepWaiting
  dsimp only
  split
  · intro j other
    rw [sameOthers_expire _ c i _ j other,
      sameOthers_retry cfg s c i er j other]
  · exact sameOthers_retry cfg s c i er

/-- The server after the lookup of a slot in the cache. -/
def lookedUp (cfg : Config) (s : Server) (c : ClientId) (er : EcmRequest) :
    Server :=
  { s with
    cache := (checkCwcache2 cfg.ctimeout s.now (s.clients c).grp s.cache er).1 }

/-- The answer of the cache for a slot. -/
def hit (cfg : Config) (s : Server) (c : ClientId) (er : EcmRequest) :
    Option EcmRequest :=
  (checkCwcache2 cfg.ctimeout s.now (s.clients c).grp s.cache er).2

/-- What the turn of a slot can be. -/
theorem chkPendingSlot_cases (cfg : Config) (s : Server) (c : ClientId)
    (i : Nat) :
    (s.slotOf c i = none ∧ chkPendingSlot cfg c s i = s) ∨
      ∃ er, s.slotOf c i = some er ∧
        (er.rc < e99 ∧ chkPendingSlot cfg c s i = s ∨
          e99 ≤ er.rc ∧ (∃ answered, s.hit cfg c er = some answered ∧
            chkPendingSlot cfg c s i = (s.lookedUp cfg c er).deliver c i
              { answered with rc := eCache2 }) ∨
          e99 ≤ er.rc ∧ s.hit cfg c er = none ∧
            chkPendingSlot cfg c s i =
              (s.lookedUp cfg c er).keepWaiting cfg c i er) := by
  unfold chkPendingSlot
  rcases found : (s.clients c).ecmtask[i]? with _ | er
  · exact .inl ⟨found, rfl⟩
  · refine .inr ⟨er, found, ?_⟩
    dsimp only
    by_cases done : er.rc < e99
    · exact .inl ⟨done, if_pos done⟩
    · have waits : e99 ≤ er.rc := by omega
      rw [if_neg done]
      rcases answer : (checkCwcache2 cfg.ctimeout s.now (s.clients c).grp
        s.cache er).2 with _ | answered
      · exact .inr (.inr ⟨waits, answer, rfl⟩)
      · exact .inr (.inl ⟨waits, answered, answer, rfl⟩)

theorem sameView_chkPendingSlot (cfg : Config) (s : Server) (c : ClientId)
    (i : Nat) : SameView s (chkPendingSlot cfg c s i) := by
  rcases chkPendingSlot_cases cfg s c i with ⟨_, same⟩ |
    ⟨er, _, ⟨_, same⟩ | ⟨_, _, _, same⟩ | ⟨_, _, same⟩⟩
  · rw [same]
    exact SameView.refl s
  · rw [same]
    exact SameView.refl s
  · rw [same]
    exact ⟨rfl, rfl, fun _ => rfl⟩
  · rw [same]
    have kept := sameView_keepWaiting cfg (s.lookedUp cfg c er) c i er
    exact ⟨kept.now, kept.activeReaders, kept.isNetwork⟩

theorem sameOthers_chkPendingSlot (cfg : Config) (s : Server) (c : ClientId)
    (i : Nat) : SameOthers c i s (chkPendingSlot cfg c s i) := by
  rcases chkPendingSlot_cases cfg s c i with ⟨_, same⟩ |
    ⟨er, _, ⟨_, same⟩ | ⟨_, _, _, same⟩ | ⟨_, _, same⟩⟩
  · rw [same]
    exact fun _ _ => rfl
  · rw [same]
    exact fun _ _ => rfl
  · rw [same]
    exact sameOthers_setSlot (s.lookedUp cfg c er) c i _
  · rw [same]
    exact sameOthers_keepWaiting cfg (s.lookedUp cfg c er) c i er

/-! ## The whole loop -/

/-- The server after the turns of all slots from `i` on. -/
def turned (cfg : Config) (s : Server) (c : ClientId) (slots : List Nat) :
    Server :=
  slots.foldl (chkPendingSlot cfg c) s

theorem sameView_turned (cfg : Config) (s : Server) (c : ClientId)
    (slots : List Nat) : SameView s (s.turned cfg c slots) := by
  induction slots generalizing s with
  | nil => exact SameView.refl s
  | cons i slots induction =>
      exact (sameView_chkPendingSlot cfg s c i).trans
        (induction (chkPendingSlot cfg c s i))

/-- A slot is not changed by the turns of others. -/
theorem slotOf_turned {slots : List Nat} (other : i ∉ slots) :
    (s.turned cfg c slots).slotOf c i = s.slotOf c i := by
  induction slots generalizing s with
  | nil => rfl
  | cons j slots induction =>
      obtain ⟨first, rest⟩ := not_or.mp (mt List.mem_cons.mpr other)
      exact (induction rest).trans
        (sameOthers_chkPendingSlot cfg s c j i first)

/-- The slots whose turn comes before that of slot `i`. -/
def before (s : Server) (c : ClientId) (i : Nat) : List Nat :=
  (List.range' (i + 1) ((s.clients c).ecmtask.length - (i + 1))).reverse

/-- The server when the turn of slot `i` comes. -/
def atTurn (cfg : Config) (s : Server) (c : ClientId) (i : Nat) : Server :=
  s.turned cfg c (s.before c i)

theorem range_split {n : Nat} (inside : i < n) :
    (List.range n).reverse =
      (List.range' (i + 1) (n - (i + 1))).reverse ++ i ::
        (List.range i).reverse := by
  have parts : List.range n =
      List.range i ++ (i :: List.range' (i + 1) (n - (i + 1))) := by
    rw [List.range_eq_range', List.range_eq_range', ← List.range'_succ]
    have whole : List.range' 0 i ++ List.range' (0 + i) (n - (i + 1) + 1) =
        List.range' 0 (i + (n - (i + 1) + 1)) := List.range'_append_1
    have length : i + (n - (i + 1) + 1) = n := by omega
    rw [Nat.zero_add, length] at whole
    exact whole.symm
  rw [parts, List.reverse_append, List.reverse_cons, List.append_assoc]
  rfl

theorem chkPending_split (cfg : Config) (s : Server) (c : ClientId)
    (inside : i < (s.clients c).ecmtask.length) :
    s.chkPending cfg c =
      (chkPendingSlot cfg c (s.atTurn cfg c i) i).turned cfg c
        (List.range i).reverse := by
  unfold chkPending atTurn before turned
  rw [range_split inside, List.foldl_append, List.foldl_cons]

theorem slotOf_atTurn (cfg : Config) (s : Server) (c : ClientId) (i : Nat) :
    (s.atTurn cfg c i).slotOf c i = s.slotOf c i := by
  apply slotOf_turned
  intro member
  have below := List.mem_range'_1.mp (List.mem_reverse.mp member)
  omega

/-- A slot is left as its own turn leaves it. -/
theorem slotOf_chkPending (cfg : Config) (c : ClientId)
    (found : s.slotOf c i = some er) :
    (s.chkPending cfg c).slotOf c i =
      (chkPendingSlot cfg c (s.atTurn cfg c i) i).slotOf c i := by
  obtain ⟨inside, _⟩ := List.getElem?_eq_some_iff.mp found
  rw [chkPending_split cfg s c inside]
  apply slotOf_turned
  intro member
  exact Nat.lt_irrefl i (List.mem_range.mp (List.mem_reverse.mp member))

/-! ## A slot that the cache does not answer -/

/-- The slot that `keepWaiting` leaves. -/
def kept (cfg : Config) (s : Server) (c : ClientId) (i : Nat)
    (er : EcmRequest) : EcmRequest :=
  let retried := s.retry cfg c i er
  let er := retried.2.1
  if compTimeb (Timeb.ofMs s.now) retried.2.2 > 0 then
    if er.stage ≠ 0 then sendDcw { er with rc := eTimeout, rcEx := 0 }
    else
      let er := { er with stage := er.stage + 1 }
      if eUnhandled ≤ er.rc then leveled er er.stage 0 else er
  else er

theorem slotOf_expire (found : s.slotOf c i = some er) (slot : EcmRequest) :
    (s.expire c i slot).slotOf c i = some (
      if slot.stage ≠ 0 then sendDcw { slot with rc := eTimeout, rcEx := 0 }
      else
        let er := { slot with stage := slot.stage + 1 }
        if eUnhandled ≤ er.rc then leveled er er.stage 0 else er) := by
  have put (t : Server) (next : EcmRequest)
      (same : t.slotOf c i = s.slotOf c i) :
      (t.setSlot c i next).slotOf c i = some next := by
    rw [slotOf_setSlot, if_pos ⟨rfl, rfl⟩, same, found]
    rfl
  unfold expire
  split
  · exact put _ _ rfl
  · dsimp only
    split
    · exact put s _ rfl
    · exact put s _ rfl

theorem slotOf_keepWaiting (cfg : Config) (found : s.slotOf c i = some er) :
    (s.keepWaiting cfg c i er).slotOf c i = some (s.kept cfg c i er) := by
  have retried := slotOf_retry cfg found
  unfold keepWaiting kept
  dsimp only
  split
  · exact slotOf_expire retried _
  · exact retried

/-- When a slot is given up, with the rest of the time if no primary reader is
left to wait for. -/
def giveUpAt (cfg : Config) (s : Server) (er : EcmRequest) : Timeb :=
  if er.stage = 0 ∧ eUnhandled ≤ er.rc ∧ s.nothingAsked cfg er then
    addMs (slotDeadline cfg er) (restTimeout cfg)
  else slotDeadline cfg er

theorem earlyFallback_of_plain (plain : cfg.preferlocalcards = false)
    (s : Server) (er : EcmRequest) :
    s.earlyFallback cfg er =
      ({ er with localsDone := false, stage := er.stage + 1 }, er.stage + 1, 0,
        addMs (slotDeadline cfg er) (restTimeout cfg)) := by
  unfold earlyFallback
  simp only [plain, Bool.false_and, Bool.false_eq_true, if_false]

theorem deadline_retry (plain : cfg.preferlocalcards = false) (s : Server)
    (c : ClientId) (i : Nat) (er : EcmRequest) :
    (s.retry cfg c i er).2.2 = s.giveUpAt cfg er := by
  unfold retry giveUpAt
  rw [earlyFallback_of_plain plain]
  split
  · rfl
  · rfl

theorem stage_retry (plain : cfg.preferlocalcards = false) (s : Server)
    (c : ClientId) (i : Nat) (er : EcmRequest) :
    (s.retry cfg c i er).2.1.stage =
      if er.stage = 0 ∧ eUnhandled ≤ er.rc ∧ s.nothingAsked cfg er then 1
      else er.stage := by
  unfold retry
  rw [earlyFallback_of_plain plain]
  split
  · rename_i early
    show er.stage + 1 = 1
    rw [early.1]
  · rfl

theorem rc_retry (plain : cfg.preferlocalcards = false) (s : Server)
    (c : ClientId) (i : Nat) (er : EcmRequest) :
    (s.retry cfg c i er).2.1.rc = er.rc := by
  unfold retry
  rw [earlyFallback_of_plain plain]
  split
  · rfl
  · rfl

theorem leveled_rc (er : EcmRequest) (flag types : Nat) :
    (leveled er flag types).rc = er.rc := by
  unfold leveled
  split
  · rfl
  · rfl

theorem leveled_stage (er : EcmRequest) (flag types : Nat) :
    (leveled er flag types).stage = er.stage := by
  unfold leveled
  split
  · rfl
  · rfl

theorem sendDcw_timeout (er : EcmRequest) :
    (sendDcw { er with rc := eTimeout, rcEx := 0 }).rc = eTimeout := rfl

/-- A slot is answered with a time-out when its time is over in the fallback
stage. -/
theorem kept_timeout_iff (plain : cfg.preferlocalcards = false)
    (waits : e99 ≤ er.rc) :
    (s.kept cfg c i er).rc = eTimeout ↔
      compTimeb (Timeb.ofMs s.now) (s.giveUpAt cfg er) > 0 ∧
        (er.stage = 0 → eUnhandled ≤ er.rc ∧ s.nothingAsked cfg er) := by
  have rc := rc_retry plain s c i er
  have stage := stage_retry plain s c i er
  have other : ¬ er.rc = eTimeout := by
    intro expired
    rw [expired] at waits
    exact absurd waits (by decide)
  unfold kept
  dsimp only
  rw [deadline_retry plain]
  by_cases late : compTimeb (Timeb.ofMs s.now) (s.giveUpAt cfg er) > 0
  · rw [if_pos late, and_iff_right late]
    by_cases early : er.stage = 0 ∧ eUnhandled ≤ er.rc ∧ s.nothingAsked cfg er
    · rw [if_pos early] at stage
      rw [if_pos (by omega), sendDcw_timeout]
      exact iff_of_true rfl fun _ => early.2
    · rw [if_neg early] at stage
      by_cases first : er.stage = 0
      · rw [if_neg (by omega)]
        refine iff_of_false ?_ fun both => early ⟨first, both first⟩
        split
        · rw [leveled_rc]
          exact rc ▸ other
        · exact rc ▸ other
      · rw [if_pos (by omega), sendDcw_timeout]
        exact iff_of_true rfl fun h => absurd h first
  · rw [if_neg late]
    exact iff_of_false (rc ▸ other) fun both => late both.1

/-- A slot that waits for a primary reader comes to the fallback stage when its
time is over. -/
theorem kept_fallback_iff (first : er.stage = 0)
    (asked : s.nothingAsked cfg er = false) :
    (s.kept cfg c i er).stage ≠ 0 ↔
      compTimeb (Timeb.ofMs s.now) (s.giveUpAt cfg er) > 0 := by
  have stays : ¬ (er.stage = 0 ∧ eUnhandled ≤ er.rc ∧
      s.nothingAsked cfg er) := by
    rw [asked]
    exact fun both => Bool.false_ne_true both.2.2
  have same : s.retry cfg c i er = (s, er, slotDeadline cfg er) := if_neg stays
  have deadline : s.giveUpAt cfg er = slotDeadline cfg er := if_neg stays
  unfold kept
  rw [same, deadline]
  dsimp only
  by_cases late : compTimeb (Timeb.ofMs s.now) (slotDeadline cfg er) > 0
  · rw [if_pos late, if_neg (not_not.mpr first)]
    refine iff_of_true ?_ late
    split
    · rw [leveled_stage]
      exact Nat.succ_ne_zero _
    · exact Nat.succ_ne_zero _
  · rw [if_neg late]
    exact iff_of_false (not_not.mpr first) late

/-! ## Never before its time -/

/-- What is not done to a slot too early: to ask its fallback readers while it
waits for a primary one, and to answer it with a time-out. -/
structure NotEarly (cfg : Config) (s : Server) (er after : EcmRequest) :
    Prop where
  fallback : er.stage = 0 → s.nothingAsked cfg er = false → after.stage ≠ 0 →
    (cfg.ftimeout : Int) ≤ (Timeb.ofMs s.now).msSince er.tps
  timeout : after.rc = eTimeout →
    (cfg.ctimeout : Int) ≤ (Timeb.ofMs s.now).msSince er.tps

/-- `chk_pending` gives up no slot before its time. -/
def NeverEarly (cfg : Config) (s : Server) (c : ClientId) : Prop :=
  ∀ i er after, s.slotOf c i = some er → e99 ≤ er.rc →
    (s.chkPending cfg c).slotOf c i = some after → NotEarly cfg s er after

/-- Of no slot that the cache does not answer the seconds alone are over. -/
def Punctual (cfg : Config) (s : Server) (c : ClientId) : Prop :=
  ∀ i er, s.slotOf c i = some er → e99 ≤ er.rc →
    (s.atTurn cfg c i).hit cfg c er = none →
    (er.stage = 0 → er.rc < eUnhandled → s.nothingAsked cfg er = false) →
      ¬ SecondsOnly (Timeb.ofMs s.now) (s.giveUpAt cfg er)

theorem sum_slotDeadline (cfg : Config) (er : EcmRequest) :
    1000 * (slotDeadline cfg er).time + (slotDeadline cfg er).millitm =
      1000 * er.tps.time + er.tps.millitm +
        (if er.stage = 0 then cfg.ftimeout else cfg.ctimeout : Nat) := by
  unfold slotDeadline
  dsimp only
  omega

/-- Both parts of the time together are `ctimeout`. -/
theorem sum_rest (order : cfg.ftimeout ≤ cfg.ctimeout)
    (wide : cfg.ctimeout < 2 ^ 32) (first : er.stage = 0) :
    1000 * (addMs (slotDeadline cfg er) (restTimeout cfg)).time +
        (addMs (slotDeadline cfg er) (restTimeout cfg)).millitm =
      1000 * er.tps.time + er.tps.millitm + cfg.ctimeout := by
  have start := sum_slotDeadline cfg er
  have rest : restTimeout cfg = cfg.ctimeout - cfg.ftimeout := by
    unfold restTimeout
    omega
  rw [if_pos first] at start
  unfold addMs
  dsimp only
  omega

theorem notEarly_kept_iff (plain : cfg.preferlocalcards = false)
    (order : cfg.ftimeout ≤ cfg.ctimeout) (wide : cfg.ctimeout < 2 ^ 32)
    (waits : e99 ≤ er.rc) :
    NotEarly cfg s er (s.kept cfg c i er) ↔
      ((er.stage = 0 → er.rc < eUnhandled → s.nothingAsked cfg er = false) →
        ¬ SecondsOnly (Timeb.ofMs s.now) (s.giveUpAt cfg er)) := by
  have timeout := kept_timeout_iff (s := s) (c := c) (i := i) plain waits
  by_cases first : er.stage = 0
  · by_cases asked : s.nothingAsked cfg er = false
    · have deadline : s.giveUpAt cfg er = slotDeadline cfg er := by
        apply if_neg
        rw [asked]
        exact fun both => Bool.false_ne_true both.2.2
      have fallback := kept_fallback_iff (c := c) (i := i) first asked
      have sum := sum_slotDeadline cfg er
      rw [if_pos first] at sum
      rw [deadline] at fallback timeout ⊢
      rw [← due_iff sum, ← fallback]
      constructor
      · intro notEarly _
        exact notEarly.fallback first asked
      · intro late
        refine ⟨fun _ _ => late fun _ _ => asked, fun expired => ?_⟩
        have none := (timeout.mp expired).2 first
        rw [asked] at none
        exact absurd none.2 Bool.false_ne_true
    · have none : s.nothingAsked cfg er = true := Bool.not_eq_false _ ▸ asked
      by_cases unhandled : eUnhandled ≤ er.rc
      · have deadline : s.giveUpAt cfg er =
            addMs (slotDeadline cfg er) (restTimeout cfg) :=
          if_pos ⟨first, unhandled, none⟩
        have sum := @sum_rest cfg er order wide first
        rw [deadline] at timeout ⊢
        rw [← due_iff sum]
        constructor
        · intro notEarly _ late
          exact notEarly.timeout (timeout.mpr ⟨late, fun _ => ⟨unhandled, none⟩⟩)
        · intro late
          refine ⟨fun _ waited => absurd waited asked, fun expired => ?_⟩
          exact late (fun _ below => absurd unhandled (by omega))
            (timeout.mp expired).1
      · refine iff_of_true ⟨fun _ waited => absurd waited asked, ?_⟩ ?_
        · intro expired
          exact absurd ((timeout.mp expired).2 first).1 unhandled
        · intro waited
          exact absurd (waited first (by omega)) asked
  · have deadline : s.giveUpAt cfg er = slotDeadline cfg er :=
      if_neg fun both => first both.1
    have sum := sum_slotDeadline cfg er
    rw [if_neg first] at sum
    rw [deadline] at timeout ⊢
    rw [← due_iff sum]
    constructor
    · intro notEarly _ late
      exact notEarly.timeout (timeout.mpr ⟨late, fun h => absurd h first⟩)
    · intro late
      refine ⟨fun h => absurd h first, fun expired => ?_⟩
      exact late (fun h => absurd h first) (timeout.mp expired).1

/-! ## All slots -/

namespace SameView

theorem giveUpAt (same : SameView s t) (cfg : Config) (er : EcmRequest) :
    t.giveUpAt cfg er = s.giveUpAt cfg er := by
  unfold Server.giveUpAt
  rw [same.nothingAsked]

theorem notEarly_iff (same : SameView s t) {after : EcmRequest} :
    NotEarly cfg t er after ↔ NotEarly cfg s er after := by
  constructor
  · intro notEarly
    have fallback := notEarly.fallback
    have timeout := notEarly.timeout
    rw [same.nothingAsked, same.now] at fallback
    rw [same.now] at timeout
    exact ⟨fallback, timeout⟩
  · intro notEarly
    constructor
    · rw [same.nothingAsked, same.now]
      exact notEarly.fallback
    · rw [same.now]
      exact notEarly.timeout

end SameView

/-- The cache answers a slot in its stage and not with a time-out. -/
theorem notEarly_answered {u : Server} {answered : EcmRequest}
    (answer : u.hit cfg c er = some answered) :
    NotEarly cfg s er (sendDcw { answered with rc := eCache2 }) := by
  obtain ⟨ecm, _, rfl⟩ := Option.map_eq_some_iff.mp answer
  have stage : (sendDcw { er with
      cw := ecm.cw, selectedReader := ecm.reader, rc := eCache2 }).stage =
        er.stage := by
    unfold sendDcw checkCW
    dsimp only
    split
    · split
      · split
        · rfl
        · rfl
      · split
        · rfl
        · rfl
    · split
      · rfl
      · rfl
  constructor
  · intro first _ moved
    exact absurd (stage.trans first) moved
  · intro expired
    rw [sendDcw_rc] at expired
    split at expired
    · exact absurd expired (by decide)
    · have same : eCache2 = eTimeout := expired
      exact absurd same (by decide)

/-- What `chk_pending` leaves of a slot. -/
theorem slotOf_chkPending_cases (cfg : Config)
    (found : s.slotOf c i = some er) (waits : e99 ≤ er.rc) :
    (∃ answered, (s.atTurn cfg c i).hit cfg c er = some answered ∧
        (s.chkPending cfg c).slotOf c i =
          some (sendDcw { answered with rc := eCache2 })) ∨
      (s.atTurn cfg c i).hit cfg c er = none ∧
        (s.chkPending cfg c).slotOf c i =
          some (((s.atTurn cfg c i).lookedUp cfg c er).kept cfg c i er) := by
  have here : (s.atTurn cfg c i).slotOf c i = some er :=
    (slotOf_atTurn cfg s c i).trans found
  rw [slotOf_chkPending cfg c found]
  rcases chkPendingSlot_cases cfg (s.atTurn cfg c i) c i with ⟨none, _⟩ |
    ⟨slot, same, turn⟩
  · exact absurd (none.symm.trans here) (by simp)
  · obtain rfl := Option.some.inj (same.symm.trans here)
    rcases turn with ⟨done, _⟩ | ⟨_, answered, answer, result⟩ |
      ⟨_, missed, result⟩
    · omega
    · refine .inl ⟨answered, answer, ?_⟩
      rw [result]
      show ((s.atTurn cfg c i).lookedUp cfg c slot |>.setSlot c i _).slotOf c i
        = _
      rw [slotOf_setSlot, if_pos ⟨rfl, rfl⟩]
      exact congrArg (Option.map _) here
    · refine .inr ⟨missed, ?_⟩
      rw [result]
      exact slotOf_keepWaiting cfg here

/-- Without local cards first, a slot is given up too early if and only if its
deadline has milliseconds for another second and the clock is in that second,
before them. -/
theorem neverEarly_iff (plain : cfg.preferlocalcards = false)
    (order : cfg.ftimeout ≤ cfg.ctimeout) (wide : cfg.ctimeout < 2 ^ 32)
    (s : Server) (c : ClientId) :
    NeverEarly cfg s c ↔ Punctual cfg s c := by
  have view (i : Nat) (er : EcmRequest) :
      SameView s ((s.atTurn cfg c i).lookedUp cfg c er) := by
    have turned := sameView_turned cfg s c (s.before c i)
    exact ⟨turned.now, turned.activeReaders, turned.isNetwork⟩
  have slot (i : Nat) (er : EcmRequest) (waits : e99 ≤ er.rc) :
      NotEarly cfg s er (((s.atTurn cfg c i).lookedUp cfg c er).kept cfg c i er)
        ↔ ((er.stage = 0 → er.rc < eUnhandled → s.nothingAsked cfg er = false) →
          ¬ SecondsOnly (Timeb.ofMs s.now) (s.giveUpAt cfg er)) := by
    have same := view i er
    rw [← same.notEarly_iff, notEarly_kept_iff plain order wide waits,
      same.giveUpAt, same.nothingAsked, same.now]
  constructor
  · intro never i er found waits missed
    rcases slotOf_chkPending_cases cfg found waits with
      ⟨answered, answer, _⟩ | ⟨_, after⟩
    · exact absurd (missed.symm.trans answer) (by simp)
    · exact (slot i er waits).mp (never i er _ found waits after)
  · intro punctual i er after found waits result
    rcases slotOf_chkPending_cases cfg found waits with
      ⟨answered, answer, delivered⟩ | ⟨missed, left⟩
    · obtain rfl := Option.some.inj (delivered.symm.trans result)
      exact notEarly_answered answer
    · obtain rfl := Option.some.inj (left.symm.trans result)
      exact (slot i er waits).mpr (punctual i er found waits missed)

instance (now tpc : Timeb) : Decidable (SecondsOnly now tpc) :=
  inferInstanceAs (Decidable (_ ∧ _))

/-- A request of 900 ms after the start, for a reader with a fallback. -/
def waitingRequest : EcmRequest :=
  { EcmRequest.zero with
    rc := eUnhandled, client := some 0, tps := Timeb.ofMs 900
    matchingRdr := [0, 1], fallback := some 1 }

/-- A client that waits for it. -/
def waitingServer (now : Nat) : Server :=
  { withReader (networkReader 1 true) now with
    clientList := [0]
    clients := fun _ =>
      { multi := false, grp := 1, ecmtask := [waitingRequest], pipe := [] } }

def splitTimeouts : Config :=
  { ctimeout := 5000, ftimeout := 1500, preferlocalcards := false }

theorem slotOf_waitingServer {now i : Nat} {er : EcmRequest}
    (found : (waitingServer now).slotOf 0 i = some er) :
    i = 0 ∧ er = waitingRequest := by
  cases i with
  | zero => exact ⟨rfl, (Option.some.inj found).symm⟩
  | succ i => exact absurd found (Option.some_ne_none er).symm

theorem neverEarly_iff_waiting :
    NeverEarly splitTimeouts (waitingServer 2500) 0 := by
  apply (neverEarly_iff rfl (by decide) (by decide) (waitingServer 2500) 0).mpr
  intro i er found _ _ _
  obtain ⟨-, rfl⟩ := slotOf_waitingServer found
  decide

/-- After 1200 ms of 1500 the fallback readers are asked. -/
theorem not_neverEarly_seconds :
    ¬ ∀ (cfg : Config) (s : Server) (c : ClientId),
      cfg.preferlocalcards = false → cfg.ftimeout ≤ cfg.ctimeout →
        cfg.ctimeout < 2 ^ 32 → NeverEarly cfg s c := by
  intro always
  have never := always splitTimeouts (waitingServer 2100) 0 rfl (by decide)
    (by decide)
  have stage : (((waitingServer 2100).chkPending splitTimeouts 0).slotOf 0
      0).map (·.stage) = some 1 := by decide +kernel
  obtain ⟨after, result, moved⟩ := Option.map_eq_some_iff.mp stage
  have elapsed := (never 0 waitingRequest after rfl (by decide)
    result).fallback rfl (by decide) (by omega)
  exact absurd elapsed (by decide)

end Server

end Oscam
