import Oscam.Accounts.AntiCascading
import Oscam.Stat.StatFile

/-!
# The samples of anti-cascading

`chk_t_ac` reads the settings, `ac_init_client` computes the limit of a client,
and `ac_do_stat` compares the samples of its account with it.  The fields for
all of this have 15 and 16 bits.
-/

namespace Oscam.AntiCascading

open Monitor (ascii)
open Stat (int32 atoi)

/-! ## Settings -/

/-- `strtol` with the base ten. -/
def strtol (value : List UInt8) : Int :=
  max (-2 ^ 63) (min (2 ^ 63 - 1) (atol value))

/-- `strToIntVal`. -/
def strToIntVal (value : List UInt8) (defaultvalue : Int) : Int :=
  if value = [] then defaultvalue
  else if int32 (strtol value) < 0 then defaultvalue
  else int32 (strtol value)

/-- The settings of the section `anticasc` that the samples depend on. -/
structure AcCfg where
  acEnabled : Int
  acUsers : Int
  acStime : Int
  acSamples : Int
  acDenysamples : Int
  deriving DecidableEq, Repr

/-- `chk_t_ac`. -/
def chkTAc (cfg : AcCfg) (line : List UInt8 × List UInt8) : AcCfg :=
  let (token, value) := line
  if token = ascii "enabled" then
    -- the field is a `char`
    { cfg with acEnabled := min 1 ((strToIntVal value 0).bmod (2 ^ 8)) }
  else if token = ascii "numusers" then
    { cfg with acUsers := strToIntVal value 0 }
  else if token = ascii "sampletime" then
    { cfg with acStime := if atoi value < 0 then 2 else atoi value }
  else if token = ascii "samples" then
    { cfg with
      acSamples := if atoi value < 2 ∨ atoi value > 10 then 10
        else atoi value }
  else if token = ascii "denysamples" then
    { cfg with
      acDenysamples :=
        if atoi value < 2 ∨ atoi value > cfg.acSamples - 1 then
          cfg.acSamples - 1
        else atoi value }
  else cfg

/-- The values that `init_config` begins with. -/
def acDefaults : AcCfg :=
  { acEnabled := 0, acUsers := 0, acStime := 2, acSamples := 10
    acDenysamples := 8 }

/-- The last correction of `init_config`. -/
def adjustDenysamples (cfg : AcCfg) : AcCfg :=
  if cfg.acDenysamples + 1 > cfg.acSamples then
    { cfg with acDenysamples := cfg.acSamples - 1 }
  else cfg

/-- The settings of a file with these lines. -/
def acConfig (lines : List (List UInt8 × List UInt8)) : AcCfg :=
  adjustDenysamples (lines.foldl chkTAc acDefaults)

/-- `ac_init_client`: the limit for an account; `int32_t` and `uint16_t` keep
the lower bits. -/
def acInitClient (cfg : AcCfg) (acUsers : Nat) : Nat :=
  if cfg.acEnabled ≠ 0 then
    if acUsers ≠ 0 then
      (int32 (int32 (acUsers * 100 + 80) * cfg.acStime) % 2 ^ 16).toNat
    else 0
  else 0

/-- The clients with their accounts, and `ac_users` and `ac_penalty` of each
account. -/
structure AcClients where
  clients : List ClientId
  account : ClientId → Nat
  acUsers : Nat → Nat
  acPenalty : Nat → Nat
  cpmap : List Cpmap

/-- Anti-cascading with the settings of a file. -/
def acSetup (cfg : AcCfg) (logged : AcClients) : AcSetup :=
  { acEnabled := cfg.acEnabled ≠ 0
    acSamples := cfg.acSamples.toNat
    acDenysamples := cfg.acDenysamples.toNat
    cpmap := logged.cpmap
    clients := logged.clients
    acLimit := fun cl => acInitClient cfg (logged.acUsers (logged.account cl))
    account := logged.account
    acPenalty := logged.acPenalty }

/-! ## Intervals -/

/-- The weight that an event counts for the client. -/
def weightOf (setup : AcSetup) (st : AcState) (cl : ClientId) : Event → Nat
  | .answer other er =>
      if other = cl then
        if Counted setup cl er then
          if st.acEcmd5 = er.ecmd5 then 0 else acDwWeight setup.cpmap er
        else if Faked setup cl er then 1 else 0
      else 0
  | _ => 0

/-- The sum of the weights that are counted for the client. -/
def weights (setup : AcSetup) (st : AcState) (cl : ClientId) :
    List Event → Nat
  | [] => 0
  | event :: events =>
      weightOf setup st cl event +
        weights setup (step setup st event) cl events

/-- The event does not end the interval. -/
def Event.Inner : Event → Prop
  | .sample => False
  | _ => True

/-- An interval begins with the program or with a sample. -/
def Begins (before : List Event) : Prop :=
  before = [] ∨ ∃ earlier, before = earlier ++ [.sample]

/-- The loop of `ac_do_stat` as it comes to a client. -/
def turnOf (setup : AcSetup) (st : AcState) (cl : ClientId) :
    AcState × Bool :=
  (setup.clients.takeWhile (· ≠ cl)).foldl (acDoStatClient setup) (st, false)

/-- The samples that are stored for the account of the client when
`ac_do_stat` compares them, with the one of this interval. -/
def storedSamples (setup : AcSetup) (st : AcState) (cl : ClientId) :
    Nat → Nat :=
  let stat := (turnOf setup st cl).1.acStat (setup.account cl)
  Function.update stat.stat stat.idx (st.acasc cl).acCount.toNat

/-- The number of samples that exceed the limit. -/
def exceeding (setup : AcSetup) (st : AcState) (cl : ClientId) : Nat :=
  (List.range setup.acSamples).countP fun j =>
    storedSamples setup st cl j > setup.acLimit cl

/-! ## What the settings can be -/

/-- The samples fit into their array, and there are enough of them. -/
structure AcCfg.Accepted (cfg : AcCfg) : Prop where
  stime : 0 ≤ cfg.acStime
  few : cfg.acSamples ≤ 10
  samples : 2 ≤ cfg.acSamples
  deny : 1 ≤ cfg.acDenysamples
  room : cfg.acDenysamples < cfg.acSamples

theorem accepted_acConfig (lines : List (List UInt8 × List UInt8)) :
    (acConfig lines).Accepted := by
  have kept : ∀ cfg : AcCfg, 0 ≤ cfg.acStime → cfg.acSamples ≤ 10 →
      2 ≤ cfg.acSamples → 1 ≤ cfg.acDenysamples →
      ∀ line, 0 ≤ (chkTAc cfg line).acStime ∧
        (chkTAc cfg line).acSamples ≤ 10 ∧
        2 ≤ (chkTAc cfg line).acSamples ∧
        1 ≤ (chkTAc cfg line).acDenysamples := by
    intro cfg stime few samples deny line
    unfold chkTAc
    dsimp only
    split_ifs with _ _ _ negative _ outside _ outside
    · exact ⟨stime, few, samples, deny⟩
    · exact ⟨stime, few, samples, deny⟩
    · exact ⟨by dsimp only; decide, few, samples, deny⟩
    · exact ⟨not_lt.mp negative, few, samples, deny⟩
    · exact ⟨stime, by dsimp only; decide, by dsimp only; decide, deny⟩
    · exact ⟨stime, by dsimp only; omega, by dsimp only; omega, deny⟩
    · exact ⟨stime, few, samples, by dsimp only; omega⟩
    · exact ⟨stime, few, samples, by dsimp only; omega⟩
    · exact ⟨stime, few, samples, deny⟩
  have read : 0 ≤ (lines.foldl chkTAc acDefaults).acStime ∧
      (lines.foldl chkTAc acDefaults).acSamples ≤ 10 ∧
      2 ≤ (lines.foldl chkTAc acDefaults).acSamples ∧
      1 ≤ (lines.foldl chkTAc acDefaults).acDenysamples := by
    induction lines using List.reverseRecOn with
    | nil => exact ⟨by decide, by decide, by decide, by decide⟩
    | append_singleton lines line induction =>
        obtain ⟨stime, few, samples, deny⟩ := induction
        rw [List.foldl_append]
        exact kept _ stime few samples deny line
  obtain ⟨stime, few, samples, deny⟩ := read
  unfold acConfig adjustDenysamples
  split_ifs with many
  · exact ⟨stime, few, samples, by dsimp only; omega, by dsimp only; omega⟩
  · exact ⟨stime, few, samples, deny, by omega⟩

/-! ## Counting -/

variable {setup : AcSetup} {st : AcState} {cl : ClientId}

theorem step_acCount {event : Event} (inner : event.Inner) :
    ((step setup st event).acasc cl).acCount =
      (st.acasc cl).acCount + BitVec.ofNat 15 (weightOf setup st cl event) := by
  cases event with
  | sample => exact inner.elim
  | request other er =>
      rw [step, acChk_request]
      exact (BitVec.add_zero _).symm
  | answer other er =>
      unfold weightOf
      dsimp only
      by_cases same : other = cl
      · subst same
        have more := BitVec.sub_add_cancel
          (((acChk setup st other er 1).1.acasc other).acCount)
          (st.acasc other).acCount
        rw [if_pos rfl, step, ← more, BitVec.add_comm]
        congr 1
        by_cases counted : Counted setup other er
        · rw [if_pos counted]
          refine (added_counted counted st).trans ?_
          split_ifs <;> rfl
        · rw [if_neg counted]
          refine (added_uncounted counted st).trans ?_
          split_ifs <;> rfl
      · rw [if_neg same, step]
        have other' : cl ≠ other := fun equal => same equal.symm
        refine Eq.trans ?_ (BitVec.add_zero _).symm
        by_cases counted : Counted setup other er
        · rw [acChk_counted counted]
          split_ifs
          · rfl
          · simp [addCount, Function.update_of_ne other']
        · rw [acChk_uncounted counted]
          split_ifs
          · simp [addCount, Function.update_of_ne other']
          · rfl

theorem run_acCount {events : List Event}
    (inner : ∀ event ∈ events, event.Inner) (st : AcState) :
    ((run setup st events).acasc cl).acCount =
      (st.acasc cl).acCount + BitVec.ofNat 15 (weights setup st cl events) := by
  induction events generalizing st with
  | nil => exact (BitVec.add_zero _).symm
  | cons event events induction =>
      have rest := induction (fun other member =>
        inner other (List.mem_cons_of_mem _ member)) (step setup st event)
      have first : ((step setup st event).acasc cl).acCount =
          (st.acasc cl).acCount +
            BitVec.ofNat 15 (weightOf setup st cl event) :=
        step_acCount (inner event List.mem_cons_self)
      show ((run setup (step setup st event) events).acasc cl).acCount = _
      rw [rest, first, weights, BitVec.ofNat_add, BitVec.add_assoc]

/-! ## Sampling -/

theorem acDoStatClient_other (loop : AcState × Bool) {other : ClientId}
    (different : cl ≠ other) :
    (acDoStatClient setup loop other).1.acasc cl = loop.1.acasc cl := by
  unfold acDoStatClient
  dsimp only
  split_ifs <;> exact Function.update_of_ne different _ _

theorem foldl_other (clients : List ClientId) (loop : AcState × Bool)
    (different : cl ∉ clients) :
    (clients.foldl (acDoStatClient setup) loop).1.acasc cl =
      loop.1.acasc cl := by
  induction clients generalizing loop with
  | nil => rfl
  | cons other clients induction =>
      rw [List.mem_cons, not_or] at different
      rw [List.foldl_cons, induction _ different.2,
        acDoStatClient_other loop different.1]

/-- Up to its turn nothing happens to the client. -/
theorem turnOf_acasc : (turnOf setup st cl).1.acasc cl = st.acasc cl := by
  apply foldl_other
  intro member
  have other := List.mem_takeWhile_imp member
  simp at other

/-- What a sample makes of a client is what its turn makes of it. -/
theorem acDoStat_acasc (distinct : setup.clients.Nodup)
    (member : cl ∈ setup.clients) :
    (acDoStat setup st).acasc cl =
      (acDoStatClient setup (turnOf setup st cl) cl).1.acasc cl := by
  obtain ⟨front, back, split, before⟩ := List.eq_append_cons_of_mem member
  have behind : cl ∉ back := by
    rw [split, List.nodup_append] at distinct
    exact (List.nodup_cons.mp distinct.2.1).1
  have turn : setup.clients.takeWhile (· ≠ cl) = front := by
    rw [split, List.takeWhile_append_of_pos]
    · simp
    · intro other listed
      apply decide_eq_true
      rintro rfl
      exact before listed
  unfold acDoStat turnOf
  rw [turn, split, List.foldl_append, List.foldl_cons,
    foldl_other back _ behind]

/-- Without requests the client is let in, otherwise the samples decide, unless
it is banned. -/
theorem acDeny_acDoStat (distinct : setup.clients.Nodup)
    (member : cl ∈ setup.clients) (some : (st.acasc cl).acCount ≠ 0) :
    ((acDoStat setup st).acasc cl).acDeny = true ↔
      setup.acPenalty (setup.account cl) = 2 ∨
        setup.acDenysamples ≤ exceeding setup st cl := by
  have count : (st.acasc cl).acCount.toNat ≠ 0 := by
    intro none
    apply some
    exact BitVec.eq_of_toNat_eq none
  rw [acDoStat_acasc distinct member]
  unfold acDoStatClient exceeding storedSamples
  dsimp only
  rw [turnOf_acasc, Function.update_self, if_pos count]
  by_cases banned : setup.acPenalty (setup.account cl) = 2
  · rw [if_pos banned]
    simp [banned]
  · rw [if_neg banned]
    generalize (List.range setup.acSamples).countP _ = exceeds
    by_cases many : setup.acDenysamples ≤ exceeds
    · rw [if_pos many]
      dsimp only
      rw [Function.update_self]
      exact iff_of_true rfl (.inr many)
    · rw [if_neg many]
      dsimp only
      rw [Function.update_self]
      exact iff_of_false Bool.false_ne_true (not_or.mpr ⟨banned, many⟩)

/-- A sample takes the counts of all clients. -/
theorem acCount_acDoStat (distinct : setup.clients.Nodup)
    (member : cl ∈ setup.clients) :
    ((acDoStat setup st).acasc cl).acCount = 0 := by
  rw [acDoStat_acasc distinct member]
  unfold acDoStatClient
  dsimp only
  split_ifs <;> simp

/-- The counter at the end of an interval. -/
theorem acCount_interval (distinct : setup.clients.Nodup)
    (member : cl ∈ setup.clients) {before interval : List Event}
    (begins : Begins before) (inner : ∀ event ∈ interval, event.Inner) :
    ((run setup acClear (before ++ interval)).acasc cl).acCount =
      BitVec.ofNat 15
        (weights setup (run setup acClear before) cl interval) := by
  have clear : ((run setup acClear before).acasc cl).acCount = 0#15 := by
    rcases begins with rfl | ⟨earlier, rfl⟩
    · rfl
    · unfold run
      rw [List.foldl_append]
      exact acCount_acDoStat distinct member
  have counted : ((run setup (run setup acClear before) interval).acasc
        cl).acCount =
      ((run setup acClear before).acasc cl).acCount + BitVec.ofNat 15
        (weights setup (run setup acClear before) cl interval) :=
    run_acCount inner _
  rw [clear, BitVec.zero_add] at counted
  rw [← counted, run, run, List.foldl_append]
  rfl

/-! ## The place of the next sample -/

/-- The index stays among the samples. -/
def Indexed (setup : AcSetup) (st : AcState) : Prop :=
  ∀ account, (st.acStat account).idx < setup.acSamples

theorem indexed_acDoStatClient (some : 0 < setup.acSamples)
    {loop : AcState × Bool} (indexed : Indexed setup loop.1)
    (cl : ClientId) : Indexed setup (acDoStatClient setup loop cl).1 := by
  have next (idx : Nat) : (idx + 1) % setup.acSamples < setup.acSamples :=
    Nat.mod_lt _ some
  have stays := indexed (setup.account cl)
  intro account
  have before := indexed account
  unfold acDoStatClient
  dsimp only
  by_cases same : account = setup.account cl
  · subst same
    split_ifs <;> simp only [Function.update_self] <;>
      first | exact next _ | exact stays
  · split_ifs <;> dsimp only <;> rwa [Function.update_of_ne same]

theorem indexed_acDoStat (some : 0 < setup.acSamples)
    (indexed : Indexed setup st) : Indexed setup (acDoStat setup st) := by
  have carried : ∀ (clients : List ClientId) (loop : AcState × Bool),
      Indexed setup loop.1 →
        Indexed setup (clients.foldl (acDoStatClient setup) loop).1 := by
    intro clients
    induction clients with
    | nil => exact fun _ start => start
    | cons cl clients induction =>
        intro loop start
        exact induction _ (indexed_acDoStatClient some start cl)
  exact carried setup.clients (st, false) indexed

theorem acStat_step {event : Event} (inner : event.Inner) :
    (step setup st event).acStat = st.acStat := by
  cases event with
  | sample => exact inner.elim
  | request other er => rw [step, acChk_request]
  | answer other er =>
      rw [step]
      by_cases counted : Counted setup other er
      · rw [acChk_counted counted]
        split_ifs <;> rfl
      · rw [acChk_uncounted counted]
        split_ifs <;> rfl

theorem indexed_run (some : 0 < setup.acSamples) (events : List Event) :
    Indexed setup (run setup acClear events) := by
  unfold run
  induction events using List.reverseRecOn with
  | nil => exact fun _ => some
  | append_singleton events event induction =>
      have kept (inner : event.Inner) :
          Indexed setup (step setup (events.foldl (step setup) acClear) event) := by
        rw [Indexed, acStat_step inner]
        exact induction
      rw [List.foldl_append]
      cases event with
      | sample => exact indexed_acDoStat some induction
      | request other er => exact kept trivial
      | answer other er => exact kept trivial

/-! ## Limits and samples -/

/-- The limit that the settings ask for. -/
def wantedLimit (cfg : AcCfg) (acUsers : Nat) : Int :=
  (acUsers * 100 + 80) * cfg.acStime

theorem acInitClient_eq {cfg : AcCfg} (accepted : cfg.Accepted)
    {acUsers : Nat} (enabled : cfg.acEnabled ≠ 0) (used : acUsers ≠ 0)
    (fits : wantedLimit cfg acUsers < 2 ^ 16) :
    (acInitClient cfg acUsers : Int) = wantedLimit cfg acUsers := by
  have natural : 0 ≤ wantedLimit cfg acUsers :=
    mul_nonneg (by omega) accepted.stime
  have same : int32 (int32 (acUsers * 100 + 80) * cfg.acStime) =
      wantedLimit cfg acUsers := by
    rcases accepted.stime.eq_or_lt with none | some
    · rw [wantedLimit, ← none, mul_zero, mul_zero]
      rfl
    · have factor : (acUsers * 100 + 80 : Int) ≤ wantedLimit cfg acUsers :=
        le_mul_of_one_le_right (by omega) some
      have inner : int32 (acUsers * 100 + 80) = acUsers * 100 + 80 :=
        Stat.int32_of_small (by omega) (by omega)
      have whole : int32 (wantedLimit cfg acUsers) = wantedLimit cfg acUsers :=
        Stat.int32_of_small natural (by omega)
      rw [inner]
      exact whole
  unfold acInitClient
  rw [if_pos enabled, if_pos (by omega), same, Int.emod_eq_of_lt natural fits,
    Int.toNat_of_nonneg natural]

theorem acInitClient_unused {cfg : AcCfg} {acUsers : Nat}
    (unused : cfg.acEnabled = 0 ∨ acUsers = 0) :
    acInitClient cfg acUsers = 0 := by
  unfold acInitClient
  rcases unused with disabled | none
  · rw [if_neg (not_not.mpr disabled)]
  · rw [none]
    split_ifs <;> first | rfl | contradiction

/-- The limit of a client is the wanted one, or 0 where anti-cascading is not
used. -/
structure LimitRight (cfg : AcCfg) (logged : AcClients) (cl : ClientId) :
    Prop where
  used : cfg.acEnabled ≠ 0 → logged.acUsers (logged.account cl) ≠ 0 →
    wantedLimit cfg (logged.acUsers (logged.account cl)) < 2 ^ 16 →
    ((acSetup cfg logged).acLimit cl : Int) =
      wantedLimit cfg (logged.acUsers (logged.account cl))
  unused : cfg.acEnabled = 0 ∨ logged.acUsers (logged.account cl) = 0 →
    (acSetup cfg logged).acLimit cl = 0

/-- At the end of an interval the weights of the client are counted, and the
samples decide about it, unless it is banned. -/
structure SampleRight (setup : AcSetup) (cl : ClientId)
    (before interval : List Event) : Prop where
  count : ((run setup acClear (before ++ interval)).acasc cl).acCount.toNat =
    weights setup (run setup acClear before) cl interval
  deny : weights setup (run setup acClear before) cl interval ≠ 0 →
    (((run setup acClear (before ++ interval ++ [.sample])).acasc cl).acDeny =
        true ↔
      setup.acPenalty (setup.account cl) = 2 ∨
        setup.acDenysamples ≤
          exceeding setup (run setup acClear (before ++ interval)) cl)

/-- With every file and in every run the index stays among the samples, the
limit of a client is the wanted one if that has 16 bits, and in every interval
whose weights sum up to 15 bits the client is treated as it should be. -/
theorem anticascading_right (lines : List (List UInt8 × List UInt8))
    {logged : AcClients} (distinct : logged.clients.Nodup) {cl : ClientId}
    (member : cl ∈ logged.clients) :
    (∀ events, Indexed (acSetup (acConfig lines) logged)
      (run (acSetup (acConfig lines) logged) acClear events)) ∧
    LimitRight (acConfig lines) logged cl ∧
    ∀ before interval, Begins before → (∀ event ∈ interval, event.Inner) →
      weights (acSetup (acConfig lines) logged)
        (run (acSetup (acConfig lines) logged) acClear before) cl interval <
          2 ^ 15 →
      SampleRight (acSetup (acConfig lines) logged) cl before interval := by
  have accepted := accepted_acConfig lines
  have places : 0 < (acSetup (acConfig lines) logged).acSamples := by
    have least := accepted.samples
    show 0 < (acConfig lines).acSamples.toNat
    omega
  refine ⟨indexed_run places, ⟨acInitClient_eq accepted,
    acInitClient_unused⟩, ?_⟩
  intro before interval begins inner small
  have counted : ((run (acSetup (acConfig lines) logged) acClear
      (before ++ interval)).acasc cl).acCount =
        BitVec.ofNat 15 (weights (acSetup (acConfig lines) logged)
          (run (acSetup (acConfig lines) logged) acClear before) cl
          interval) :=
    acCount_interval distinct member begins inner
  have count : ((run (acSetup (acConfig lines) logged) acClear
      (before ++ interval)).acasc cl).acCount.toNat =
        weights (acSetup (acConfig lines) logged)
          (run (acSetup (acConfig lines) logged) acClear before) cl
          interval := by
    rw [counted, BitVec.toNat_ofNat, Nat.mod_eq_of_lt small]
  refine ⟨count, fun some => ?_⟩
  have nonzero : ((run (acSetup (acConfig lines) logged) acClear
      (before ++ interval)).acasc cl).acCount ≠ 0 := by
    intro zero
    rw [zero] at count
    exact some count.symm
  have sampled : run (acSetup (acConfig lines) logged) acClear
      (before ++ interval ++ [.sample]) =
        acDoStat (acSetup (acConfig lines) logged)
          (run (acSetup (acConfig lines) logged) acClear
            (before ++ interval)) := by
    unfold run
    rw [List.foldl_append]
    rfl
  rw [sampled]
  exact acDeny_acDoStat distinct member nonzero

/-- A file that turns anti-cascading on. -/
def acLines : List (List UInt8 × List UInt8) :=
  [(ascii "enabled", ascii "1"), (ascii "samples", ascii "5")]

/-- One client whose account is banned as soon as it asks. -/
def bannedClient : AcClients :=
  { clients := [1], account := id, acUsers := fun _ => 1
    acPenalty := fun _ => 2, cpmap := [] }

theorem anticascading_right_one :
    bannedClient.clients.Nodup ∧ 1 ∈ bannedClient.clients ∧
      ((acSetup (acConfig acLines) bannedClient).acLimit 1 : Int) =
        wantedLimit (acConfig acLines) 1 ∧
      SampleRight (acSetup (acConfig acLines) bannedClient) 1 []
        [answered 1 1] := by
  have distinct : bannedClient.clients.Nodup := by decide
  have member : 1 ∈ bannedClient.clients := by decide
  have right := anticascading_right acLines distinct member
  refine ⟨distinct, member,
    right.2.1.used (by decide) (by decide) (by decide),
    right.2.2 [] [answered 1 1] (.inl rfl) ?_ (by decide)⟩
  intro event member
  rw [List.mem_singleton] at member
  subst member
  exact trivial

/-- The same client, with control words that last for 65535 seconds. -/
def longCws : AcClients :=
  { bannedClient with
    cpmap :=
      [{ caid := 0, provid := 0, sid := 0, chid := 0, dwtime := 65535 }] }

/-- A banned client is denied without any sample above its limit, a client
without a number of users has no limit, and large numbers do not fit into the
fields. -/
theorem denied_without_exceeding :
    (((run (acSetup (acConfig acLines) bannedClient) acClear
          [answered 1 1, .sample]).acasc 1).acDeny = true ∧
        exceeding (acSetup (acConfig acLines) bannedClient)
          (run (acSetup (acConfig acLines) bannedClient) acClear
            [answered 1 1]) 1 <
          (acSetup (acConfig acLines) bannedClient).acDenysamples) ∧
      (acInitClient (acConfig acLines) 0 : Int) ≠
        wantedLimit (acConfig acLines) 0 ∧
      (acInitClient (acConfig acLines) 700 : Int) ≠
        wantedLimit (acConfig acLines) 700 ∧
      ((run (acSetup (acConfig acLines) longCws) acClear
          [answered 1 1]).acasc 1).acCount.toNat ≠
        weights (acSetup (acConfig acLines) longCws) acClear 1
          [answered 1 1] :=
  ⟨⟨by decide, by decide⟩, by decide, by decide, by decide⟩

end Oscam.AntiCascading
