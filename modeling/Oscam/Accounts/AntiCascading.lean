import Mathlib.Logic.Function.Basic
import Mathlib.Data.List.Induction
import Mathlib.Tactic.SplitIfs
import Oscam.Globals

/-!
# Anti-cascading

`oscam-ac.c` counts the control words every client needs.  A repeated ECM is
not counted twice: it is compared with `ac_ecmd5`, the last ECM that was
counted.  There is one such digest for all clients.
-/

namespace Oscam

/-- `s_cpmap`: how long a control word of a service lasts. -/
structure Cpmap where
  caid : Nat
  provid : Nat
  sid : Nat
  chid : Nat
  dwtime : Nat
  deriving DecidableEq, Repr

/-- `s_acasc_shm` of a client. -/
structure Acasc where
  acCount : BitVec 15
  acDeny : Bool
  deriving DecidableEq, Repr

/-- `s_acasc` of an account. -/
structure AcStat where
  stat : Nat → Nat
  idx : Nat

/-- The settings, and the clients of type 'c' in the order of the client list
with their limits and accounts. -/
structure AcSetup where
  acEnabled : Bool
  acSamples : Nat
  acDenysamples : Nat
  cpmap : List Cpmap
  clients : List ClientId
  acLimit : ClientId → Nat
  account : ClientId → Nat
  acPenalty : Nat → Nat

/-- `acEcmd5` is the static `ac_ecmd5`. -/
structure AcState where
  acEcmd5 : Digest
  acasc : ClientId → Acasc
  acStat : Nat → AcStat

namespace AntiCascading

/-- `ac_clear`, and the static digest as the program starts. -/
def acClear : AcState :=
  { acEcmd5 := 0
    acasc := fun _ => { acCount := 0, acDeny := false }
    acStat := fun _ => { stat := fun _ => 0, idx := 0 } }

/-- `ac_dw_weight`. -/
def acDwWeight (cpmap : List Cpmap) (er : EcmRequest) : Nat :=
  match cpmap with
  | [] => 16
  | entry :: rest =>
      if (entry.caid = 0 ∨ entry.caid = er.caid) ∧
          (entry.provid = 0 ∨ entry.provid = er.prid) ∧
          (entry.sid = 0 ∨ entry.sid = er.srvid) ∧
          (entry.chid = 0 ∨ entry.chid = er.chid) then
        entry.dwtime * 100 / 60
      else acDwWeight rest er

/-- `acasc->ac_count += weight`. -/
def addCount (st : AcState) (cl : ClientId) (weight : Nat) : AcState :=
  { st with
    acasc := Function.update st.acasc cl
      { st.acasc cl with
        acCount := (st.acasc cl).acCount + BitVec.ofNat 15 weight } }

/-- `ac_chk` at level 1: an answer has been found for a request. -/
def acChkAnswer (setup : AcSetup) (st : AcState) (cl : ClientId)
    (er : EcmRequest) : AcState :=
  let st := if er.rc = eFake then addCount st cl 1 else st
  if er.rc ≥ eNotfound then st
  else if st.acEcmd5 ≠ er.ecmd5 then
    { addCount st cl (acDwWeight setup.cpmap er) with acEcmd5 := er.ecmd5 }
  else st

/-- `ac_chk` at level 0: a client that is denied gets a fake answer. -/
def acChkRequest (setup : AcSetup) (st : AcState) (cl : ClientId)
    (er : EcmRequest) : EcmRequest :=
  if (st.acasc cl).acDeny then
    if setup.acPenalty (setup.account cl) ≠ 0 then
      if setup.acPenalty (setup.account cl) = 3 then er
      else { er with rc := eFake, rcEx := 0 }
    else er
  else er

/-- `ac_chk`. -/
def acChk (setup : AcSetup) (st : AcState) (cl : ClientId) (er : EcmRequest)
    (level : Nat) : AcState × EcmRequest :=
  if setup.acLimit cl = 0 ∨ ¬ setup.acEnabled then (st, er)
  else if level = 1 then (acChkAnswer setup st cl er, er)
  else (st, acChkRequest setup st cl er)

/-- One turn of the loop of `ac_do_stat`.  `prev_deny` is carried from client
to client. -/
def acDoStatClient (setup : AcSetup) (loop : AcState × Bool)
    (cl : ClientId) : AcState × Bool :=
  let st := loop.1
  let account := setup.account cl
  let idx := (st.acStat account).idx
  let stat := Function.update (st.acStat account).stat idx
    (st.acasc cl).acCount.toNat
  let deny := (st.acasc cl).acDeny
  let exceeds := (List.range setup.acSamples).countP fun j =>
    stat j > setup.acLimit cl
  let done (acDeny prevDeny : Bool) (stat : Nat → Nat) : AcState × Bool :=
    ({ st with
        acasc := Function.update st.acasc cl { acCount := 0, acDeny := acDeny }
        acStat := Function.update st.acStat account
          { stat := stat
            idx := if !acDeny && !prevDeny then (idx + 1) % setup.acSamples
              else idx } }, prevDeny)
  if stat idx ≠ 0 then
    if setup.acPenalty account = 2 then done true loop.2 stat
    else if exceeds ≥ setup.acDenysamples then
      done true deny (Function.update stat idx 0)
    else done false deny stat
  else if deny then done false true stat
  else done deny loop.2 stat

/-- `ac_do_stat`. -/
def acDoStat (setup : AcSetup) (st : AcState) : AcState :=
  (setup.clients.foldl (acDoStatClient setup) (st, false)).1

/-! ## Schedules -/

/-- What the threads of the server do, in the order in which they do it: a
client sends a request or gets an answer, or the anticascader takes a
sample. -/
inductive Event where
  | request (cl : ClientId) (er : EcmRequest)
  | answer (cl : ClientId) (er : EcmRequest)
  | sample

def step (setup : AcSetup) (st : AcState) : Event → AcState
  | .request cl er => (acChk setup st cl er 0).1
  | .answer cl er => (acChk setup st cl er 1).1
  | .sample => acDoStat setup st

def run (setup : AcSetup) (st : AcState) (events : List Event) : AcState :=
  events.foldl (step setup) st

/-- The event is not one of another client. -/
def Event.own (cl : ClientId) : Event → Bool
  | .request other _ => other = cl
  | .answer other _ => other = cl
  | .sample => true

/-- What `ac_chk` adds to the counter of the client. -/
def added (setup : AcSetup) (st : AcState) (cl : ClientId)
    (er : EcmRequest) : BitVec 15 :=
  ((acChk setup st cl er 1).1.acasc cl).acCount - (st.acasc cl).acCount

/-- Each answer adds to the counter of the client what it adds when the other
clients get none. -/
def CountsOwn (setup : AcSetup) (st : AcState) (cl : ClientId)
    (events : List Event) : Prop :=
  ∀ before er after, events = before ++ .answer cl er :: after →
    added setup (run setup st before) cl er =
      added setup (run setup st (before.filter (Event.own cl))) cl er

/-- The request is one whose ECM is counted unless it is a repetition. -/
def Counted (setup : AcSetup) (cl : ClientId) (er : EcmRequest) : Prop :=
  setup.acLimit cl ≠ 0 ∧ setup.acEnabled = true ∧ er.rc < eNotfound

instance (setup : AcSetup) (cl : ClientId) (er : EcmRequest) :
    Decidable (Counted setup cl er) :=
  inferInstanceAs (Decidable (_ ∧ _ ∧ _))

/-- The ECM that was counted last. -/
def lastCounted (setup : AcSetup) (last : Digest) : List Event → Digest
  | [] => last
  | .answer cl er :: events =>
      lastCounted setup (if Counted setup cl er then er.ecmd5 else last) events
  | .request _ _ :: events => lastCounted setup last events
  | .sample :: events => lastCounted setup last events

/-- Whenever an ECM of the client counts, the ECM counted last for anybody and
the one counted last for this client agree on whether it is a repetition. -/
def Undisturbed (setup : AcSetup) (last : Digest) (cl : ClientId)
    (events : List Event) : Prop :=
  ∀ before er after, events = before ++ .answer cl er :: after →
    Counted setup cl er → BitVec.ofNat 15 (acDwWeight setup.cpmap er) ≠ 0 →
    (lastCounted setup last before = er.ecmd5 ↔
      lastCounted setup last (before.filter (Event.own cl)) = er.ecmd5)

/-! ## What is added -/

theorem acDoStatClient_acEcmd5 (setup : AcSetup) (loop : AcState × Bool)
    (cl : ClientId) :
    (acDoStatClient setup loop cl).1.acEcmd5 = loop.1.acEcmd5 := by
  unfold acDoStatClient
  simp only
  split_ifs <;> rfl

/-- The sampling leaves the digest alone. -/
theorem acDoStat_acEcmd5 (setup : AcSetup) (st : AcState) :
    (acDoStat setup st).acEcmd5 = st.acEcmd5 := by
  have carried : ∀ (clients : List ClientId) (loop : AcState × Bool),
      (clients.foldl (acDoStatClient setup) loop).1.acEcmd5 =
        loop.1.acEcmd5 := by
    intro clients
    induction clients with
    | nil => exact fun _ => rfl
    | cons cl clients induction =>
        intro loop
        rw [List.foldl_cons, induction, acDoStatClient_acEcmd5]
  exact carried setup.clients (st, false)

theorem acChk_counted {setup : AcSetup} {cl : ClientId} {er : EcmRequest}
    (counted : Counted setup cl er) (st : AcState) :
    (acChk setup st cl er 1).1 =
      if st.acEcmd5 = er.ecmd5 then st
      else { addCount st cl (acDwWeight setup.cpmap er) with
        acEcmd5 := er.ecmd5 } := by
  obtain ⟨limited, enabled, found⟩ := counted
  have real : er.rc ≠ eFake := by
    intro fake
    rw [fake] at found
    exact absurd found (by decide)
  have early : ¬ er.rc ≥ eNotfound := Int.not_le.mpr found
  have on : ¬ (setup.acLimit cl = 0 ∨ ¬ setup.acEnabled = true) := by
    simp [limited, enabled]
  unfold acChk acChkAnswer
  rw [if_neg on, if_pos rfl]
  simp only [if_neg real, if_neg early, ite_not]

/-- The answer with a fake control word that anti-cascading itself made. -/
def Faked (setup : AcSetup) (cl : ClientId) (er : EcmRequest) : Prop :=
  setup.acLimit cl ≠ 0 ∧ setup.acEnabled = true ∧ er.rc = eFake

instance (setup : AcSetup) (cl : ClientId) (er : EcmRequest) :
    Decidable (Faked setup cl er) :=
  inferInstanceAs (Decidable (_ ∧ _ ∧ _))

theorem acChk_uncounted {setup : AcSetup} {cl : ClientId} {er : EcmRequest}
    (uncounted : ¬ Counted setup cl er) (st : AcState) :
    (acChk setup st cl er 1).1 =
      if Faked setup cl er then addCount st cl 1 else st := by
  unfold acChk acChkAnswer
  by_cases off : setup.acLimit cl = 0 ∨ ¬ setup.acEnabled = true
  · have real : ¬ Faked setup cl er := fun fake =>
      off.elim fake.1 fun disabled => disabled fake.2.1
    rw [if_pos off, if_neg real]
  · have limited : setup.acLimit cl ≠ 0 := fun none => off (.inl none)
    have enabled : setup.acEnabled = true :=
      not_not.mp fun none => off (.inr none)
    have late : er.rc ≥ eNotfound :=
      Int.not_lt.mp fun found => uncounted ⟨limited, enabled, found⟩
    rw [if_neg off, if_pos rfl]
    simp only [if_pos late]
    by_cases fake : er.rc = eFake
    · rw [if_pos fake, if_pos ⟨limited, enabled, fake⟩]
    · rw [if_neg fake, if_neg fun faked => fake faked.2.2]

/-- A new request leaves the state alone. -/
theorem acChk_request (setup : AcSetup) (st : AcState) (cl : ClientId)
    (er : EcmRequest) : (acChk setup st cl er 0).1 = st := by
  unfold acChk
  split_ifs with off answer
  · rfl
  · exact absurd answer (by decide)
  · rfl

theorem acChk_acEcmd5 (setup : AcSetup) (st : AcState) (cl : ClientId)
    (er : EcmRequest) :
    (acChk setup st cl er 1).1.acEcmd5 =
      if Counted setup cl er then er.ecmd5 else st.acEcmd5 := by
  by_cases counted : Counted setup cl er
  · rw [acChk_counted counted, if_pos counted]
    split_ifs with same
    · exact same
    · rfl
  · rw [acChk_uncounted counted, if_neg counted]
    split_ifs <;> rfl

theorem addCount_sub (st : AcState) (cl : ClientId) (weight : Nat) :
    ((addCount st cl weight).acasc cl).acCount - (st.acasc cl).acCount =
      BitVec.ofNat 15 weight := by
  simp only [addCount, Function.update_self]
  rw [BitVec.add_comm, BitVec.add_sub_cancel]

/-- What is added, in terms of the digest before. -/
theorem added_counted {setup : AcSetup} {cl : ClientId} {er : EcmRequest}
    (counted : Counted setup cl er) (st : AcState) :
    added setup st cl er =
      if st.acEcmd5 = er.ecmd5 then 0
      else BitVec.ofNat 15 (acDwWeight setup.cpmap er) := by
  unfold added
  rw [acChk_counted counted]
  split_ifs
  · exact BitVec.sub_self _
  · exact addCount_sub st cl _

/-- Without an ECM to count, nothing depends on the state. -/
theorem added_uncounted {setup : AcSetup} {cl : ClientId} {er : EcmRequest}
    (uncounted : ¬ Counted setup cl er) (st : AcState) :
    added setup st cl er = if Faked setup cl er then 1 else 0 := by
  unfold added
  rw [acChk_uncounted uncounted]
  split_ifs
  · exact addCount_sub st cl 1
  · exact BitVec.sub_self _

/-- The digest of a state is the one of the last counted request. -/
theorem run_acEcmd5 (setup : AcSetup) (st : AcState) (events : List Event) :
    (run setup st events).acEcmd5 =
      lastCounted setup st.acEcmd5 events := by
  induction events generalizing st with
  | nil => rfl
  | cons event events induction =>
      have later : (run setup st (event :: events)).acEcmd5 =
          lastCounted setup (step setup st event).acEcmd5 events :=
        induction (step setup st event)
      rw [later]
      cases event with
      | answer cl er => rw [step, acChk_acEcmd5, lastCounted]
      | request cl er => rw [step, acChk_request, lastCounted]
      | sample => rw [step, acDoStat_acEcmd5, lastCounted]

/-- Two states add the same for a request exactly when they agree on whether
it is a repetition, or when it does not matter. -/
theorem added_eq_iff (setup : AcSetup) (left right : AcState)
    (cl : ClientId) (er : EcmRequest) :
    added setup left cl er = added setup right cl er ↔
      (Counted setup cl er →
        BitVec.ofNat 15 (acDwWeight setup.cpmap er) ≠ 0 →
        (left.acEcmd5 = er.ecmd5 ↔ right.acEcmd5 = er.ecmd5)) := by
  by_cases counted : Counted setup cl er
  · rw [added_counted counted, added_counted counted]
    by_cases first : left.acEcmd5 = er.ecmd5 <;>
      by_cases second : right.acEcmd5 = er.ecmd5 <;>
      simp [counted, first, second, eq_comm]
  · rw [added_uncounted counted, added_uncounted counted]
    exact iff_of_true rfl fun yes => absurd yes counted

/-- The counter of a client depends on its own requests only, in exactly the
schedules in which no other client's ECM comes between a repetition and what
it repeats, or takes the place of what a first request is compared with. -/
theorem countsOwn_iff (setup : AcSetup) (st : AcState) (cl : ClientId)
    (events : List Event) :
    CountsOwn setup st cl events ↔
      Undisturbed setup st.acEcmd5 cl events := by
  constructor
  · intro alike before er after split
    have equal := alike before er after split
    rw [added_eq_iff, run_acEcmd5, run_acEcmd5] at equal
    exact equal
  · intro undisturbed before er after split
    rw [added_eq_iff, run_acEcmd5, run_acEcmd5]
    exact undisturbed before er after split

/-- Two limited clients, and nothing known about their services. -/
def twoClients : AcSetup :=
  { acEnabled := true, acSamples := 10, acDenysamples := 8, cpmap := []
    clients := [1, 2], acLimit := fun _ => 540, account := id
    acPenalty := fun _ => 1 }

/-- An answer with a given digest. -/
def answered (cl : ClientId) (ecmd5 : Digest) : Event :=
  .answer cl { EcmRequest.zero with ecmd5 := ecmd5, rc := eFound }

/-- The first client asks twice for one ECM, and the second client asks for
another one in between: the ECM of the first client counts twice. -/
theorem countsOwn_disturbed :
    ¬ CountsOwn twoClients acClear 1
        [answered 1 1, answered 2 2, answered 1 1] := by
  intro alike
  have equal := alike [answered 1 1, answered 2 2] _ [] rfl
  exact absurd equal (by decide)

end AntiCascading

end Oscam
