import Oscam.Ecm.Delivery
import Oscam.Ecm.Tags

/-!
# Whether a waiting request gets the answer it waits for

A request that finds an unanswered entry of another client is told to wait.
The answer that settles the entry goes into the pipe of the client that asked
the reader; when that client takes it, `distribute_ecm` writes it to the
others.  This file states when every waiting slot is reached.
-/

namespace Oscam

namespace Server

open StepSystem

/-- `get_cw` left the slot waiting for an entry that was asked for already. -/
def Joined (s : Server) (c : ClientId) (i addr : Nat) : Prop :=
  c ∈ s.clientList ∧
    ∃ er ∈ s.slotOf c i, er.rc = e99 ∧ er.ecmcacheptr = some addr

def PendingOn (s : Server) (c : ClientId) (i addr : Nat) : Prop :=
  c ∈ s.clientList ∧
    ∃ er ∈ s.slotOf c i, e99 ≤ er.rc ∧ er.ecmcacheptr = some addr

/-- A found answer for slot `i` and the entry at `addr`. -/
def FoundFor (i addr : Nat) (er : EcmRequest) : Prop :=
  er.cpti = i ∧ er.ecmcacheptr = some addr ∧ eRdrFound ≤ er.rc ∧
    er.rc ≠ eNotfound

/-- The pipe of the client holds a found answer for its pending slot. -/
def Informed (s : Server) (c : ClientId) (i addr : Nat) : Prop :=
  s.PendingOn c i addr ∧ ∃ er ∈ (s.clients c).pipe, FoundFor i addr er

end Server

/-- The entry at `addr` is answered as found. -/
def Settled (cache : EcmCache) (addr : Nat) : Prop :=
  ∃ ecm ∈ cache.heap, ecm.addr = addr ∧ ecm.rc = eFound

namespace Server

/-- The answer for every waiting slot whose entry is settled is in the pipe of
its client, or still in the pipe of another client, for a slot that is pending
on the same entry. -/
def NoAnswerMissed (s : Server) : Prop :=
  ∀ c i addr, s.Joined c i addr → Settled s.cache addr →
    s.Informed c i addr ∨
      ∃ d j, ¬ (d = c ∧ j = i) ∧ s.Informed d j addr

/-! ## The steps that keep answers -/

def slots (s : Server) : List (ClientId × Nat) :=
  s.clientList.flatMap fun c =>
    (List.range (s.clients c).ecmtask.length).map (c, ·)

instance (s : Server) (c : ClientId) (i addr : Nat) :
    Decidable (s.Joined c i addr) :=
  inferInstanceAs (Decidable (_ ∧ ∃ er ∈ s.slotOf c i, _ ∧ _))

instance (s : Server) (c : ClientId) (i addr : Nat) :
    Decidable (s.PendingOn c i addr) :=
  inferInstanceAs (Decidable (_ ∧ ∃ er ∈ s.slotOf c i, _ ∧ _))

instance (i addr : Nat) (er : EcmRequest) : Decidable (FoundFor i addr er) :=
  inferInstanceAs (Decidable (_ ∧ _ ∧ _ ∧ _))

instance (s : Server) (c : ClientId) (i addr : Nat) :
    Decidable (s.Informed c i addr) :=
  inferInstanceAs (Decidable (_ ∧ ∃ er ∈ _, _))

/-- When some slots are ended, an answer that others wait for stays in the
pipe for a slot that is not ended. -/
def AnswerRemains (s : Server) (ended : ClientId × Nat → Prop) : Prop :=
  ∀ ecm ∈ s.cache.heap, ecm.rc = eFound →
    (∃ slot ∈ s.slots, ¬ ended slot ∧ s.Joined slot.1 slot.2 ecm.addr) →
      ∃ slot ∈ s.slots, ¬ ended slot ∧ s.Informed slot.1 slot.2 ecm.addr

/-- The found answer that slot `i` of client `c` takes is written for `slot`:
it is an answer for its entry and has a control word, the groups of the client
and the reader meet, and there is room in the pipe. -/
def DistributionReaches (s : Server) (c : ClientId) (er ert : EcmRequest)
    (slot : ClientId × Nat) (addr : Nat) : Prop :=
  let done := s.setSlot c er.cpti (sendDcw (foundSlot er ert))
  er.ecmcacheptr = some addr ∧ (er.cw ≠ Cw.zero ∨ er.rc = eEmu) ∧
    (s.clients slot.1).grp &&& s.readerGrp er.selectedReader ≠ 0 ∧
    (s.clients slot.1).pipe.length +
        (((done.clients slot.1).ecmtask.take slot.2).countP (receives er)) <
      pipeMax

/-- `chk_dcw` ends the slot of an answer only if the other waiting slots are
reached or another answer for them remains. -/
def TakeReaches (s : Server) (c : ClientId) (er : EcmRequest) : Prop :=
  ∀ ert ∈ s.slotOf c er.cpti, e99 ≤ ert.rc → obsolete er ert = false →
    (eRdrFound ≤ er.rc →
      ∀ ecm ∈ s.cache.heap, ecm.rc = eFound →
        ∀ slot ∈ s.slots, slot ≠ (c, er.cpti) →
          s.Joined slot.1 slot.2 ecm.addr →
            (∃ other ∈ s.slots, other ≠ (c, er.cpti) ∧
              s.Informed other.1 other.2 ecm.addr) ∨
            s.DistributionReaches c er ert slot ecm.addr) ∧
    (er.rc < eRdrFound → (missedSlot er ert).matchingRdr = [] →
      s.AnswerRemains (· = (c, er.cpti)))

/-- An answer that settles an entry others wait for goes to a client that
will pass it on: the slot that asked is still pending on the entry, and its
client is there and has room in its pipe. -/
def AnswerReaches (s : Server) (r : ReaderId) (er : EcmRequest) : Prop :=
  (answerOf r (s.readers r) er).rc = eRdrFound →
    ∀ ecm ∈ storeTarget s.now s.cache (answerOf r (s.readers r) er) eFound,
      (∃ slot ∈ s.slots, s.Joined slot.1 slot.2 ecm.addr) →
        (∃ slot ∈ s.slots, s.Informed slot.1 slot.2 ecm.addr) ∨
        ∃ c ∈ er.client, (s.clients c).pipe.length < pipeMax ∧
          s.PendingOn c er.cpti ecm.addr

/-- `chk_pending` ends slot `i`: the cache answers it or its time is over. -/
def EndsWaiting (cfg : Config) (s : Server) (c : ClientId) (i : Nat) : Prop :=
  ∃ er ∈ s.slotOf c i, e99 ≤ er.rc ∧
    ((checkCwcache2 cfg.ctimeout s.now (s.clients c).grp s.cache er).2 ≠
        none ∨
      (compTimeb (Timeb.ofMs s.now) (s.retry cfg c i er).2.2 > 0 ∧
        (s.retry cfg c i er).2.1.stage ≠ 0))

instance (s : Server) (ended : ClientId × Nat → Prop) [DecidablePred ended] :
    Decidable (s.AnswerRemains ended) :=
  inferInstanceAs (Decidable (∀ ecm ∈ _, _ → (∃ slot ∈ _, _ ∧ _) →
    ∃ slot ∈ _, _ ∧ _))

instance (s : Server) (c : ClientId) (er ert : EcmRequest)
    (slot : ClientId × Nat) (addr : Nat) :
    Decidable (s.DistributionReaches c er ert slot addr) :=
  inferInstanceAs (Decidable (_ ∧ (_ ∨ _) ∧ _ ∧ _))

instance (s : Server) (c : ClientId) (er : EcmRequest) :
    Decidable (s.TakeReaches c er) :=
  inferInstanceAs (Decidable (∀ ert ∈ _, _ → _ →
    (_ → ∀ ecm ∈ _, _ → ∀ slot ∈ _, _ → _ → (∃ other ∈ _, _ ∧ _) ∨ _) ∧
    (_ → _ → _)))

instance (s : Server) (r : ReaderId) (er : EcmRequest) :
    Decidable (s.AnswerReaches r er) :=
  inferInstanceAs (Decidable (_ → ∀ ecm ∈ _, (∃ slot ∈ _, _) →
    (∃ slot ∈ _, _) ∨ ∃ c ∈ _, _ ∧ _))

instance (cfg : Config) (s : Server) (c : ClientId) (i : Nat) :
    Decidable (s.EndsWaiting cfg c i) :=
  inferInstanceAs (Decidable (∃ er ∈ _, _ ∧ (_ ∨ _ ∧ _)))

/-- The request a local card gets, and the state it finds the cache in. -/
def localRequest (cfg : Config) (handling : Handling) (s : Server)
    (r : ReaderId) (er : EcmRequest) : Option (Server × EcmRequest) :=
  if er.rc ≤ eStopped ∨ (s.readers r).isCascading then none
  else
    (handling.chkBcaid { er with ocaid := er.caid }).bind fun caid =>
      let asked := { er with ocaid := er.caid, caid := caid }
      let lookup :=
        checkCwcache2 cfg.ctimeout s.now (s.readers r).grp s.cache asked
      match lookup.2 with
      | some _ => none
      | none => some ({ s with cache := lookup.1 }, localAnswer handling asked)

/-- No step loses an answer that a slot waits for. -/
def KeepsAnswers (cfg : Config) (s : Server) : Event → Prop
  | .disconnect c => s.AnswerRemains (·.1 = c)
  | .request c checks asked =>
      ∀ i ∈ freeSlot ((s.withTable c).clients c),
        s.AnswerRemains fun slot => slot.1 = c ∧
          (slot.2 = i ∨ asked.preset ≠ .corruptSilently ∧
            bansClient checks (fillTask asked (s.newTask c i)) = true)
  | .takePipe c =>
      ∀ er ∈ (s.clients c).pipe.head?, (s.popClient c).TakeReaches c er
  | .pending c i =>
      s.AnswerRemains fun slot => slot = (c, i) ∧ s.EndsWaiting cfg c i
  | .readerTakePipe r handling =>
      ∀ er ∈ (s.readers r).pipe.head?,
        ∀ found ∈ (s.popReader r).localRequest cfg handling r er,
          found.1.AnswerReaches r found.2
  | .cascCheck r idx rc cw i =>
      ∀ ecm ∈ (s.readers r).ecmtask[i]?,
        ∀ asked ∈ (s.readers r).ecmtask[idx]?,
          sameTask asked ecm = true →
            s.AnswerReaches r (cascAnswered i idx rc cw ecm)
  | _ => True

instance (cfg : Config) (s : Server) (event : Event) :
    Decidable (s.KeepsAnswers cfg event) :=
  match event with
  | .disconnect _ => inferInstanceAs (Decidable (s.AnswerRemains _))
  | .request _ _ _ =>
      inferInstanceAs (Decidable (∀ i ∈ _, s.AnswerRemains _))
  | .takePipe _ => inferInstanceAs (Decidable (∀ er ∈ _, _))
  | .pending _ _ => inferInstanceAs (Decidable (s.AnswerRemains _))
  | .readerTakePipe _ _ =>
      inferInstanceAs (Decidable (∀ er ∈ _, ∀ found ∈ _, _))
  | .cascCheck _ _ _ _ _ =>
      inferInstanceAs (Decidable (∀ ecm ∈ _, ∀ asked ∈ _, _ → _))
  | .advance _ | .connect _ _ _ | .direct _ _ _ _ | .dropTask _ _ =>
      .isTrue trivial

/-! ## States that differ in what does not end a wait -/

/-- What of a slot matters to a wait. -/
def waitKey (er : EcmRequest) : Int × Option Nat := (er.rc, er.ecmcacheptr)

/-- The same clients with the same waits; the pipes may hold more. -/
structure Grows (s t : Server) : Prop where
  clientList : t.clientList = s.clientList
  slots : ∀ c i, (t.slotOf c i).map waitKey = (s.slotOf c i).map waitKey
  pipes : ∀ c, ∀ er ∈ (s.clients c).pipe, er ∈ (t.clients c).pipe

variable {cfg : Config} {s t u : Server} {c d : ClientId} {i j addr : Nat}
  {r : ReaderId} {er ert : EcmRequest}

theorem Grows.refl (s : Server) : Grows s s :=
  ⟨rfl, fun _ _ => rfl, fun _ _ member => member⟩

theorem Grows.trans (first : Grows s t) (second : Grows t u) : Grows s u :=
  ⟨second.clientList.trans first.clientList,
    fun c i => (second.slots c i).trans (first.slots c i),
    fun c er member => second.pipes c er (first.pipes c er member)⟩

/-- Only clients matter. -/
theorem Grows.of_clients (clientList : t.clientList = s.clientList)
    (clients : t.clients = s.clients) : Grows s t :=
  ⟨clientList, fun _ _ => by rw [slotOf, slotOf, clients],
    fun _ _ member => clients ▸ member⟩

private theorem exists_key {slot next : Option EcmRequest}
    (property : Int × Option Nat → Prop)
    (same : next.map waitKey = slot.map waitKey)
    (known : ∃ er ∈ slot, property (waitKey er)) :
    ∃ er ∈ next, property (waitKey er) := by
  obtain ⟨er, member, holds⟩ := known
  rw [Option.mem_def] at member
  rw [member, Option.map_some, Option.map_eq_some_iff] at same
  obtain ⟨later, found, key⟩ := same
  exact ⟨later, found, key ▸ holds⟩

theorem Grows.joined (grows : Grows s t) (joined : t.Joined c i addr) :
    s.Joined c i addr :=
  ⟨grows.clientList ▸ joined.1,
    exists_key (fun key => key.1 = e99 ∧ key.2 = some addr)
      (grows.slots c i).symm joined.2⟩

theorem Grows.pendingOn (grows : Grows s t) (pending : s.PendingOn c i addr) :
    t.PendingOn c i addr :=
  ⟨grows.clientList ▸ pending.1,
    exists_key (fun key => e99 ≤ key.1 ∧ key.2 = some addr)
      (grows.slots c i) pending.2⟩

theorem Grows.informed (grows : Grows s t) (informed : s.Informed c i addr) :
    t.Informed c i addr := by
  obtain ⟨pending, er, member, found⟩ := informed
  exact ⟨grows.pendingOn pending, er, grows.pipes c er member, found⟩

theorem pipe_setSlot (s : Server) (c d : ClientId) (i : Nat)
    (er : EcmRequest) :
    ((s.setSlot c i er).clients d).pipe = (s.clients d).pipe := by
  by_cases client : d = c
  · subst client
    simp [setSlot]
  · simp [setSlot, clients_modifyClient_of_ne client]

theorem Grows.setSlot (found : s.slotOf c i = some ert)
    (same : waitKey er = waitKey ert) : Grows s (s.setSlot c i er) := by
  refine ⟨rfl, fun d j => ?_, fun d er member => ?_⟩
  · rw [slotOf_setSlot]
    split
    · rename_i both
      obtain ⟨rfl, rfl⟩ := both
      simp [found, same]
    · rfl
  · rw [pipe_setSlot]
    exact member

theorem Grows.distributeEcm {grp : Grp} {rc : Int} :
    Grows s (s.distributeEcm er grp rc) := by
  refine ⟨rfl, fun c i => ?_, fun c er member => ?_⟩
  · simp only [slotOf, Server.distributeEcm]
    split <;> simp
  · simp only [Server.distributeEcm]
    split
    · exact Client.mem_distribute_of_mem member
    · exact member

theorem Grows.writeEcmAnswer : Grows s (s.writeEcmAnswer r er) := by
  rw [writeEcmAnswer_eq]
  refine ⟨rfl, fun c i => ?_, fun c er member => ?_⟩
  · simp only [slotOf]
    split <;> simp
  · dsimp only
    split
    · exact Client.mem_write_of_mem member
    · exact member

/-! ## Answers that remain -/

theorem mem_slots (present : c ∈ s.clientList) (found : er ∈ s.slotOf c i) :
    (c, i) ∈ s.slots := by
  refine List.mem_flatMap.mpr ⟨c, present, List.mem_map.mpr ⟨i, ?_, rfl⟩⟩
  exact List.mem_range.mpr (List.getElem?_eq_some_iff.mp found).1

theorem Joined.mem_slots (joined : s.Joined c i addr) : (c, i) ∈ s.slots := by
  obtain ⟨present, er, found, _⟩ := joined
  exact Server.mem_slots present found

theorem Informed.mem_slots (informed : s.Informed c i addr) :
    (c, i) ∈ s.slots := by
  obtain ⟨⟨present, er, found, _⟩, _⟩ := informed
  exact Server.mem_slots present found

theorem answerRemains_iff {ended : ClientId × Nat → Prop} :
    s.AnswerRemains ended ↔
      ∀ c i addr, ¬ ended (c, i) → s.Joined c i addr →
        Settled s.cache addr →
          ∃ d j, ¬ ended (d, j) ∧ s.Informed d j addr := by
  constructor
  · rintro remains c i addr stays joined ⟨ecm, member, rfl, found⟩
    obtain ⟨slot, _, kept, informed⟩ :=
      remains ecm member found ⟨(c, i), joined.mem_slots, stays, joined⟩
    exact ⟨slot.1, slot.2, kept, informed⟩
  · rintro remains ecm member found ⟨slot, _, stays, joined⟩
    obtain ⟨d, j, kept, informed⟩ :=
      remains slot.1 slot.2 ecm.addr stays joined ⟨ecm, member, rfl, found⟩
    exact ⟨(d, j), informed.mem_slots, kept, informed⟩

/-- Nothing is ended. -/
def NoneMissed (s : Server) : Prop := s.AnswerRemains fun _ => False

theorem NoneMissed.noAnswerMissed (none : s.NoneMissed) :
    s.NoAnswerMissed := by
  intro c i addr joined settled
  obtain ⟨d, j, _, informed⟩ :=
    answerRemains_iff.mp none c i addr not_false joined settled
  by_cases same : d = c ∧ j = i
  · obtain ⟨rfl, rfl⟩ := same
    exact .inl informed
  · exact .inr ⟨d, j, same, informed⟩

/-- A step that ends some slots and leaves the others as they wait. -/
theorem AnswerRemains.noneMissed {ended : ClientId × Nat → Prop}
    (remains : s.AnswerRemains ended)
    (joined : ∀ c i addr, t.Joined c i addr → Settled t.cache addr →
      ¬ ended (c, i) ∧ s.Joined c i addr ∧ Settled s.cache addr)
    (informed : ∀ c i addr, ¬ ended (c, i) → s.Informed c i addr →
      t.Informed c i addr) : t.NoneMissed := by
  refine answerRemains_iff.mpr fun c i addr _ waits settled => ?_
  obtain ⟨stays, waited, before⟩ := joined c i addr waits settled
  obtain ⟨d, j, kept, known⟩ :=
    answerRemains_iff.mp remains c i addr stays waited before
  exact ⟨d, j, not_false, informed d j addr kept known⟩

theorem AnswerRemains.grows {ended : ClientId × Nat → Prop}
    (remains : s.AnswerRemains ended) (grows : Grows s t)
    (settled : ∀ addr, Settled t.cache addr → Settled s.cache addr) :
    t.AnswerRemains ended := by
  refine answerRemains_iff.mpr fun c i addr stays joined answered => ?_
  obtain ⟨d, j, kept, informed⟩ := answerRemains_iff.mp remains c i addr stays
    (grows.joined joined) (settled addr answered)
  exact ⟨d, j, kept, grows.informed informed⟩

theorem NoneMissed.grows (none : s.NoneMissed) (grows : Grows s t)
    (settled : ∀ addr, Settled t.cache addr → Settled s.cache addr) :
    t.NoneMissed :=
  AnswerRemains.grows none grows settled

theorem AnswerRemains.congr {ended : ClientId × Nat → Prop}
    (remains : s.AnswerRemains ended) (others : ClientId × Nat → Prop)
    (same : ∀ slot, ended slot ↔ others slot) :
    s.AnswerRemains others := by
  have equal : ended = others := funext fun slot => propext (same slot)
  exact equal ▸ remains

end Server

/-! ## What settles an entry -/

section

open EcmCache

variable {ctimeout now : Nat} {grp : Grp} {cache : EcmCache}
  {er : EcmRequest} {rc : Int} {addr : Nat}

theorem settled_lookup {hit : SEcm → Bool}
    (settled : Settled (cache.lookup ctimeout now hit).1 addr) :
    Settled cache addr := by
  obtain ⟨ecm, member, rest⟩ := settled
  exact ⟨ecm, mem_heap_lookup.mp member, rest⟩

theorem settled_store (settled : Settled (storeCwInCache now grp rc er cache)
    addr) :
    Settled cache addr ∨ rc = eFound ∧
      ∃ ecm, storeTarget now cache er rc = some ecm ∧ ecm.addr = addr := by
  obtain ⟨ecm, member, same, found⟩ := settled
  rcases mem_heap_store member with old | ⟨target, result, rfl⟩
  · exact .inl ⟨ecm, old, same, found⟩
  · exact .inr ⟨found, target, result, same⟩

/-- A not-found result or a time-out settles nothing as found. -/
theorem settled_store_miss (missed : rc ≠ eFound)
    (settled : Settled (storeCwInCache now grp rc er cache) addr) :
    Settled cache addr :=
  (settled_store settled).resolve_right fun both => missed both.1

/-- The cache test settles nothing, and it makes a request wait only for an
entry that is not answered as found. -/
theorem checkAndStore_waits (ctimeout now : Nat) (grp : Grp)
    (er : EcmRequest) (addressed : WellAddressed cache) :
    let result := checkAndStoreEcmcache ctimeout now grp cache er
    (∀ addr, Settled result.1 addr → Settled cache addr) ∧
      (result.2.2 = e99 → ∀ addr, result.2.1.ecmcacheptr = some addr →
        ¬ Settled result.1 addr) := by
  obtain ⟨walked, ⟨hit, rfl⟩, outcome⟩ :=
    checkAndStoreEcmcache_cases ctimeout now grp cache er
  rcases outcome with
    ⟨ecm, listed, _, _, _, ⟨_, result⟩ | ⟨_, result⟩⟩ | result
  · rw [result]
    refine ⟨fun addr => settled_lookup, fun waits => ?_⟩
    exact absurd (show eCache1 = e99 from waits) (by decide)
  · rw [result]
    refine ⟨fun addr => settled_lookup, fun waits addr pointer settled => ?_⟩
    obtain ⟨other, member, same, found⟩ := settled
    have target : ecm.addr = addr := Option.some.inj pointer
    have equal : other = ecm := addressed.lookup.eq_of_addr member
      (List.mem_append_left _ listed) (same.trans target.symm)
    have waiting : ecm.rc = e99 := waits
    rw [equal, waiting] at found
    exact absurd found (by decide)
  · rw [result]
    refine ⟨fun addr settled => ?_, fun waits => ?_⟩
    · obtain ⟨other, member, same, found⟩ := settled
      rcases List.mem_cons.mp member with rfl | old
      · exact absurd (show e99 = eFound from found) (by decide)
      · exact settled_lookup ⟨other, old, same, found⟩
    · exact absurd (show eUnhandled = e99 from waits) (by decide)

end

namespace Server

open EcmCache StepSystem

variable {cfg : Config} {s t : Server} {c d : ClientId} {i j addr : Nat}
  {r : ReaderId} {er ert : EcmRequest}

/-! ## The clients -/

/-- A slot that is written waits only if it was written so; the other slots
are as before. -/
theorem joined_setSlot (joined : (s.setSlot c i er).Joined d j addr) :
    ((d, j) ≠ (c, i) ∧ s.Joined d j addr) ∨
      er.rc = e99 ∧ er.ecmcacheptr = some addr := by
  obtain ⟨present, next, found, waiting, pointer⟩ := joined
  rw [Option.mem_def, slotOf_setSlot] at found
  split at found
  · obtain ⟨_, _, rfl⟩ := Option.map_eq_some_iff.mp found
    exact .inr ⟨waiting, pointer⟩
  · rename_i other
    refine .inl ⟨fun same => other ?_, present, next, found, waiting, pointer⟩
    exact Prod.mk.inj same

theorem informed_setSlot (other : (d, j) ≠ (c, i))
    (informed : s.Informed d j addr) :
    (s.setSlot c i er).Informed d j addr := by
  obtain ⟨⟨present, next, found, pending⟩, answer, member, fits⟩ := informed
  refine ⟨⟨present, next, ?_, pending⟩, answer, ?_, fits⟩
  · rw [slotOf_setSlot, if_neg fun both => other (Prod.ext both.1 both.2)]
    exact found
  · rw [pipe_setSlot]
    exact member

/-- An ended slot waits no longer. -/
theorem joined_deliver (done : er.rc < e99)
    (joined : (s.deliver c i er).Joined d j addr) :
    (d, j) ≠ (c, i) ∧ s.Joined d j addr := by
  rcases joined_setSlot (show (s.setSlot c i (sendDcw er)).Joined d j addr
      from joined) with
    other | ⟨waiting, _⟩
  · exact other
  · have ended := sendDcw_rc_lt done
    omega

theorem informed_deliver (other : (d, j) ≠ (c, i))
    (informed : s.Informed d j addr) : (s.deliver c i er).Informed d j addr :=
  show (s.setSlot c i (sendDcw er)).Informed d j addr from
    informed_setSlot other informed

theorem Grows.askAgain {flag types : Nat} (found : s.slotOf c i = some ert)
    (same : waitKey er = waitKey ert) :
    Grows s (s.askAgain c i er flag types) := by
  have leveledKey : waitKey (leveled er flag types) = waitKey ert := by
    rw [← same]
    unfold leveled
    split <;> rfl
  have grows : Grows s (s.setSlot c i (leveled er flag types)) :=
    Grows.setSlot found leveledKey
  exact ⟨grows.clientList, grows.slots, grows.pipes⟩

theorem waitKey_sameTask {next : EcmRequest} (same : SameTask er next) :
    waitKey next = waitKey er := by
  rw [same]
  rfl

/-- The slot of `retry` afterwards. -/
theorem slotOf_retry (cfg : Config) (found : s.slotOf c i = some er) :
    (s.retry cfg c i er).1.slotOf c i = some (s.retry cfg c i er).2.1 := by
  unfold retry
  split
  · have slot : (s.setSlot c i (leveled (s.earlyFallback cfg er).1
        (s.earlyFallback cfg er).2.1
        (s.earlyFallback cfg er).2.2.1)).slotOf c i =
          some (leveled (s.earlyFallback cfg er).1
            (s.earlyFallback cfg er).2.1
            (s.earlyFallback cfg er).2.2.1) := by
      rw [slotOf_setSlot]
      simp [found]
    exact slot
  · exact found

theorem Grows.retry (found : s.slotOf c i = some er) :
    Grows s (s.retry cfg c i er).1 := by
  unfold Server.retry
  split
  · exact Grows.askAgain found
      (waitKey_sameTask (sameTask_earlyFallback cfg s er))
  · exact Grows.refl s

/-- A time-out settles nothing and ends one slot. -/
theorem settled_timeOut (settled : Settled (s.timeOut c i er).cache addr) :
    Settled s.cache addr :=
  settled_store_miss (show eTimeout ≠ eFound by decide) settled

theorem joined_timeOut (joined : (s.timeOut c i er).Joined d j addr) :
    (d, j) ≠ (c, i) ∧ s.Joined d j addr :=
  joined_deliver (s := { s with cache := _ })
    (show eTimeout < e99 by decide) joined

theorem informed_timeOut (other : (d, j) ≠ (c, i))
    (informed : s.Informed d j addr) : (s.timeOut c i er).Informed d j addr :=
  informed_deliver (s := { s with cache := _ }) other informed

/-- A slot whose time is over. -/
def TimeIsOver (cfg : Config) (s : Server) (c : ClientId) (i : Nat)
    (er : EcmRequest) : Prop :=
  compTimeb (Timeb.ofMs s.now) (s.retry cfg c i er).2.2 > 0 ∧
    (s.retry cfg c i er).2.1.stage ≠ 0

theorem NoneMissed.keepWaiting (none : s.NoneMissed)
    (found : s.slotOf c i = some er)
    (remains : s.AnswerRemains fun slot =>
      slot = (c, i) ∧ s.TimeIsOver cfg c i er) :
    (s.keepWaiting cfg c i er).NoneMissed := by
  have retried : Grows s (s.retry cfg c i er).1 := Grows.retry found
  have settledBefore : ∀ addr, Settled (s.retry cfg c i er).1.cache addr →
      Settled s.cache addr := by
    intro addr settled
    rw [Tagged.retry_cache] at settled
    exact settled
  unfold Server.keepWaiting
  dsimp only
  split
  · rename_i late
    unfold expire
    split
    · rename_i staged
      have due : s.TimeIsOver cfg c i er := ⟨late, staged⟩
      refine remains.noneMissed (fun d j addr joined settled => ?_)
        (fun d j addr stays informed => ?_)
      · obtain ⟨other, waited⟩ := joined_timeOut joined
        exact ⟨fun ended => other ended.1, retried.joined waited,
          settledBefore addr (settled_timeOut settled)⟩
      · exact informed_timeOut (fun same => stays ⟨same, due⟩)
          (retried.informed informed)
    · have later := slotOf_retry cfg found
      dsimp only
      split
      · exact none.grows (retried.trans (Grows.askAgain later rfl))
          settledBefore
      · exact none.grows (retried.trans (Grows.setSlot later rfl))
          settledBefore
  · exact none.grows retried settledBefore

/-- The cache does not matter for the deadline. -/
theorem retry_withCache (cfg : Config) (s : Server) (c : ClientId) (i : Nat)
    (er : EcmRequest) (cache : EcmCache) :
    (({ s with cache := cache } : Server).retry cfg c i er).2 =
      (s.retry cfg c i er).2 := by
  have asked : ({ s with cache := cache } : Server).nothingAsked cfg er =
      s.nothingAsked cfg er := rfl
  unfold Server.retry
  rw [asked]
  by_cases due : er.stage = 0 ∧ eUnhandled ≤ er.rc ∧ s.nothingAsked cfg er
  · rw [if_pos due, if_pos due]
    rfl
  · rw [if_neg due, if_neg due]

theorem endsWaiting_iff (found : s.slotOf c i = some er)
    (waits : e99 ≤ er.rc)
    (missed : (checkCwcache2 cfg.ctimeout s.now (s.clients c).grp s.cache
      er).2 = none) :
    s.EndsWaiting cfg c i ↔
      TimeIsOver cfg { s with
        cache := (checkCwcache2 cfg.ctimeout s.now (s.clients c).grp
          s.cache er).1 } c i er := by
  have same := retry_withCache cfg s c i er
    (checkCwcache2 cfg.ctimeout s.now (s.clients c).grp s.cache er).1
  unfold TimeIsOver
  rw [same]
  constructor
  · rintro ⟨next, slot, _, ends⟩
    cases Option.some.inj (slot.symm.trans found)
    exact ends.resolve_left fun hit => hit missed
  · exact fun due => ⟨er, found, waits, .inr due⟩

/-- One slot of `chk_pending`. -/
theorem NoneMissed.pending (none : s.NoneMissed)
    (remains : s.AnswerRemains fun slot =>
      slot = (c, i) ∧ s.EndsWaiting cfg c i) :
    (chkPendingSlot cfg c s i).NoneMissed := by
  unfold chkPendingSlot
  split
  · exact none
  · rename_i er found
    split
    · exact none
    · rename_i pending
      have waits : e99 ≤ er.rc := not_lt.mp pending
      dsimp only
      split
      · rename_i hit answered
        have ends : s.EndsWaiting cfg c i :=
          ⟨er, found, waits, .inl (by rw [answered]; simp)⟩
        refine remains.noneMissed (fun d j addr joined settled => ?_)
          (fun d j addr stays informed => ?_)
        · obtain ⟨other, waited⟩ :=
            joined_deliver (show eCache2 < e99 by decide) joined
          exact ⟨fun ended => other ended.1, waited,
            settled_lookup settled⟩
        · exact informed_deliver (fun same => stays ⟨same, ends⟩) informed
      · have looked : Grows s { s with
            cache := (checkCwcache2 cfg.ctimeout s.now
              (s.clients c).grp s.cache er).1 } :=
          Grows.of_clients rfl rfl
        have settled : ∀ addr, Settled (checkCwcache2 cfg.ctimeout s.now
            (s.clients c).grp s.cache er).1 addr → Settled s.cache addr :=
          fun _ => settled_lookup
        refine (none.grows looked settled).keepWaiting found ?_
        refine (remains.grows looked settled).congr _ fun slot => ?_
        rename_i missed
        exact and_congr_right fun _ => endsWaiting_iff found waits missed

/-- A client takes the found answer for a slot. -/
theorem NoneMissed.found (tagged : Tagged s)
    (done : (foundSlot er ert).rc < eNotfound)
    (reaches : ∀ d j addr, (d, j) ≠ (c, er.cpti) → s.Joined d j addr →
      Settled s.cache addr →
        (∃ e k, (e, k) ≠ (c, er.cpti) ∧ s.Informed e k addr) ∨
          s.DistributionReaches c er ert (d, j) addr) :
    (s.complete c er (foundSlot er ert)).NoneMissed := by
  have ended : (foundSlot er ert).rc < e99 := done.trans (by decide)
  refine answerRemains_iff.mpr fun d j addr _ joined settled => ?_
  have waiting := Grows.joined Grows.distributeEcm joined
  obtain ⟨other, waited⟩ := joined_deliver ended waiting
  rcases reaches d j addr other waited settled with
    ⟨e, k, apart, informed⟩ | reached
  · exact ⟨e, k, not_false,
      Grows.distributeEcm.informed (informed_deliver apart informed)⟩
  · refine ⟨d, j, not_false, Grows.distributeEcm.pendingOn ?_, ?_⟩
    · obtain ⟨present, next, found, code, pointer⟩ := waiting
      exact ⟨present, next, found, code.ge, pointer⟩
    · obtain ⟨pointer, control, fits, room⟩ := reached
      obtain ⟨present, next, found, code, points⟩ := waiting
      have passed : (sendDcw (foundSlot er ert)).rc < eNotfound := by
        rw [sendDcw_rc]
        split
        · rename_i null
          rcases control with some | emu
          · exact absurd null.2 some
          · simp [foundSlot, emu] at null
        · exact done
      have frame : ((s.deliver c er.cpti (foundSlot er ert)).clients d).grp =
          (s.clients d).grp := by
        by_cases same : d = c
        · subst same
          simp [deliver, setSlot]
        · simp [deliver, setSlot, clients_modifyClient_of_ne same]
      have pipe : ((s.deliver c er.cpti (foundSlot er ert)).clients d).pipe =
          (s.clients d).pipe :=
        pipe_setSlot s c d er.cpti (sendDcw (foundSlot er ert))
      have received : receives { er with rc := eCache2 } next := by
        simp [receives, code, points, pointer]
      have written := Client.mem_distribute_of_room
        (show ((s.deliver c er.cpti (foundSlot er ert)).clients
          d).ecmtask[j]? = some next from found)
        received
        (show _ &&& s.readerGrp er.selectedReader ≠ 0 by
          rw [frame]; exact fits)
        (by rw [pipe]; exact room)
      have tagged := tagged.deliver (c := c) (i := er.cpti) ended
      have index := (tagged.slot found code.ge).1
      refine ⟨{ er with rc := eCache2, cpti := next.cpti }, ?_, index, pointer,
        show eRdrFound ≤ eCache2 by decide,
        show eCache2 ≠ eNotfound by decide⟩
      have listed : d ∈ (s.deliver c er.cpti (foundSlot er ert)).clientList :=
        present
      simp only [complete, distributeEcm, if_pos passed, if_pos listed]
      exact written

/-- The last reader of a slot has missed. -/
theorem NoneMissed.missed {grp : Grp}
    (remains : s.AnswerRemains (· = (c, er.cpti)))
    (code : ert.rc = eNotfound) :
    (Server.complete { s with
      cache := storeCwInCache s.now grp eNotfound ert s.cache } c er
        ert).NoneMissed := by
  have done : ert.rc < e99 := by
    rw [code]
    decide
  refine remains.noneMissed (fun d j addr joined settled => ?_)
    (fun d j addr stays informed => ?_)
  · have waiting := Grows.joined Grows.distributeEcm joined
    obtain ⟨other, waited⟩ := joined_deliver
      (s := { s with cache := _ }) done waiting
    exact ⟨other, waited,
      settled_store_miss (show eNotfound ≠ eFound by decide) settled⟩
  · exact Grows.distributeEcm.informed
      (informed_deliver (s := { s with cache := _ }) stays informed)

/-- An answer that `chk_dcw` ignores was no answer for a pending slot on its
entry. -/
theorem not_foundFor_of_ignored (tagged : Tagged s)
    (tag : CarriesTag s.cache er.caid er)
    (ignored : ∀ ert, s.slotOf c er.cpti = some ert → e99 ≤ ert.rc →
      obsolete er ert = true)
    (pending : s.PendingOn c i addr) : ¬ FoundFor i addr er := by
  rintro ⟨index, pointer, _, _⟩
  obtain ⟨_, ert, found, waits, points⟩ := pending
  obtain ⟨entry, listed, sameAddr, caid, digest⟩ := tag addr pointer
  obtain ⟨other, otherListed, otherAddr, otherCaid, otherDigest⟩ :=
    (tagged.slot found waits).2 addr points
  have equal : entry = other := tagged.addressed.eq_of_addr listed otherListed
    (sameAddr.trans otherAddr.symm)
  have old := ignored ert (index ▸ found) waits
  rw [← equal] at otherCaid otherDigest
  simp [obsolete, ← caid, ← otherCaid, ← digest, ← otherDigest] at old

/-- The pipe without its oldest message. -/
theorem informed_popClient {rest : List EcmRequest}
    (oldest : (s.clients c).pipe = er :: rest)
    (informed : s.Informed d j addr)
    (unused : d = c → ¬ FoundFor j addr er) :
    (s.popClient c).Informed d j addr := by
  obtain ⟨⟨present, next, found, pending⟩, answer, member, fits⟩ := informed
  by_cases same : d = c
  · subst same
    rw [oldest] at member
    refine ⟨⟨present, next, ?_, pending⟩, answer, ?_, fits⟩
    · simpa [slotOf, popClient] using found
    · have later : answer ∈ rest :=
        (List.mem_cons.mp member).resolve_left fun equal =>
          unused rfl (equal ▸ fits)
      simpa [popClient, oldest] using later
  · refine ⟨⟨present, next, ?_, pending⟩, answer, ?_, fits⟩
    · simpa [slotOf, popClient, clients_modifyClient_of_ne same] using found
    · simpa [popClient, clients_modifyClient_of_ne same] using member

theorem joined_popClient :
    (s.popClient c).Joined d j addr ↔ s.Joined d j addr := by
  have same : (s.popClient c).slotOf d j = s.slotOf d j := by
    by_cases equal : d = c
    · subst equal
      simp [slotOf, popClient]
    · simp [slotOf, popClient, clients_modifyClient_of_ne equal]
  unfold Joined
  rw [same]
  rfl

theorem foundSlot_rc (er ert : EcmRequest) :
    (foundSlot er ert).rc < eNotfound := by
  simp only [foundSlot]
  split
  · rename_i kind
    rcases kind with kind | kind <;> rw [kind] <;> decide
  · decide

/-- A client takes the oldest message of its pipe. -/
theorem NoneMissed.takePipe {rest : List EcmRequest} (none : s.NoneMissed)
    (tagged : Tagged s) (oldest : (s.clients c).pipe = er :: rest)
    (reaches : (s.popClient c).TakeReaches c er) :
    ((s.popClient c).chkDcw c er).NoneMissed := by
  have popped : Tagged (s.popClient c) :=
    ⟨tagged.addressed, tagged.keeps.popClient⟩
  have tag : CarriesTag s.cache er.caid er :=
    (tagged.keeps.clients c).2 er (by simp [oldest])
  -- the message that is taken informs nobody any more
  have quiet : (∀ i addr, s.PendingOn c i addr → ¬ FoundFor i addr er) →
      (s.popClient c).NoneMissed := by
    intro unused
    refine AnswerRemains.noneMissed none
      (fun d j addr joined settled =>
        ⟨not_false, joined_popClient.mp joined, settled⟩)
      (fun d j addr _ informed => informed_popClient oldest informed ?_)
    rintro rfl
    exact unused j addr informed.1
  have pendingPopped : ∀ i addr, s.PendingOn c i addr →
      (s.popClient c).PendingOn c i addr := by
    rintro i addr ⟨present, next, found, pending⟩
    refine ⟨present, next, ?_, pending⟩
    simpa [slotOf, popClient] using found
  rcases chkDcw_cases (s.popClient c) c er with
    ⟨ignored, same⟩ | ⟨ert, slot, pending, current, ways⟩
  · rw [same]
    exact quiet fun i addr waiting =>
      not_foundFor_of_ignored popped tag ignored (pendingPopped i addr waiting)
  rcases ways with
    ⟨found, same⟩ | ⟨missed, left, same⟩ | ⟨missed, last, same⟩
  · rw [same]
    refine NoneMissed.found popped (foundSlot_rc er ert) ?_
    rintro d j addr other joined ⟨ecm, member, rfl, answered⟩
    rcases (reaches ert slot pending current).1 found ecm member answered
        (d, j) joined.mem_slots other joined with
      ⟨⟨e, k⟩, _, apart, informed⟩ | reached
    · exact .inl ⟨e, k, apart, informed⟩
    · exact .inr reached
  · rw [same]
    have unused : ∀ i addr, s.PendingOn c i addr → ¬ FoundFor i addr er :=
      fun i addr _ fits => absurd fits.2.2.1 (not_le.mpr missed)
    exact (quiet unused).grows (Grows.setSlot slot rfl) fun _ => id
  · rw [same]
    exact NoneMissed.missed ((reaches ert slot pending current).2 missed last)
      rfl

/-! ## Requests, logins and logouts -/

theorem slotOf_withTable (found : (s.withTable c).slotOf d j = some er) :
    s.slotOf d j = some er ∨ er = EcmRequest.zero := by
  by_cases same : d = c
  · subst same
    simp only [slotOf, withTable, clients_modifyClient_self, tableOf] at found
    split at found
    · exact .inr (List.eq_of_mem_replicate (List.mem_of_getElem? found))
    · exact .inl found
  · left
    simpa [slotOf, withTable, clients_modifyClient_of_ne same] using found

theorem joined_withTable (joined : (s.withTable c).Joined d j addr) :
    s.Joined d j addr := by
  obtain ⟨present, next, found, waiting, pointer⟩ := joined
  rcases slotOf_withTable found with old | rfl
  · exact ⟨present, next, old, waiting, pointer⟩
  · exact absurd waiting (by decide)

theorem informed_withTable (informed : s.Informed d j addr) :
    (s.withTable c).Informed d j addr := by
  obtain ⟨⟨present, next, found, pending⟩, answer, member, fits⟩ := informed
  by_cases same : d = c
  · subst same
    have table : (s.clients d).ecmtask ≠ [] := by
      intro empty
      rw [Option.mem_def, slotOf, empty] at found
      cases found
    refine ⟨⟨present, next, ?_, pending⟩, answer, ?_, fits⟩
    · simpa [slotOf, withTable, tableOf, table] using found
    · simpa [withTable] using member
  · refine ⟨⟨present, next, ?_, pending⟩, answer, ?_, fits⟩
    · simpa [slotOf, withTable, clients_modifyClient_of_ne same] using found
    · simpa [withTable, clients_modifyClient_of_ne same] using member

theorem joined_withTask (joined : (s.withTask c i).Joined d j addr) :
    (d, j) ≠ (c, i) ∧ s.Joined d j addr := by
  have written : ((s.withTable c).setSlot c i (s.newTask c i)).Joined
      d j addr := joined
  rcases joined_setSlot written with ⟨other, waits⟩ | ⟨waiting, _⟩
  · exact ⟨other, joined_withTable waits⟩
  · exact absurd (show eUnhandled = e99 from waiting) (by decide)

theorem informed_withTask (other : (d, j) ≠ (c, i))
    (informed : s.Informed d j addr) : (s.withTask c i).Informed d j addr :=
  show ((s.withTable c).setSlot c i (s.newTask c i)).Informed d j addr from
    informed_setSlot other (informed_withTable informed)

/-- A client goes: its slots are ended. -/
theorem joined_csDisconnect (joined : (s.csDisconnect c).Joined d j addr) :
    d ≠ c ∧ s.Joined d j addr := by
  obtain ⟨present, next, found, waiting⟩ := joined
  have other : d ≠ c := by
    rintro rfl
    simp [csDisconnect] at present
  refine ⟨other, ?_, next, ?_, waiting⟩
  · exact (List.mem_filter.mp present).1
  · simpa [slotOf, csDisconnect, clients_modifyClient_of_ne other] using found

theorem informed_csDisconnect (other : d ≠ c)
    (informed : s.Informed d j addr) :
    (s.csDisconnect c).Informed d j addr := by
  obtain ⟨⟨present, next, found, pending⟩, answer, member, fits⟩ := informed
  refine ⟨⟨?_, next, ?_, pending⟩, answer, ?_, fits⟩
  · exact List.mem_filter.mpr ⟨present, by simpa using other⟩
  · simpa [slotOf, csDisconnect, clients_modifyClient_of_ne other] using found
  · simpa [csDisconnect, clients_modifyClient_of_ne other] using member

theorem NoneMissed.csDisconnect (remains : s.AnswerRemains (·.1 = c)) :
    (s.csDisconnect c).NoneMissed :=
  remains.noneMissed
    (fun _ _ _ joined settled =>
      ⟨(joined_csDisconnect joined).1, (joined_csDisconnect joined).2,
        settled⟩)
    (fun _ _ _ stays informed => informed_csDisconnect stays informed)

theorem NoneMissed.csConnect {multi : Bool} {grp : Grp} (none : s.NoneMissed)
    (absent : c ∉ s.clientList) : (s.csConnect c multi grp).NoneMissed := by
  refine AnswerRemains.noneMissed none
    (fun d j addr joined settled => ⟨not_false, ?_, settled⟩)
    (fun d j addr _ informed => ?_)
  · obtain ⟨present, next, found, waiting⟩ := joined
    by_cases same : d = c
    · subst same
      simp [slotOf, Server.csConnect] at found
    · have listed : d ∈ s.clientList := by
        simpa [Server.csConnect, same] using present
      refine ⟨listed, next, ?_, waiting⟩
      simpa [slotOf, Server.csConnect, clients_modifyClient_of_ne same]
        using found
  · obtain ⟨⟨present, next, found, pending⟩, answer, member, fits⟩ := informed
    have other : d ≠ c := by
      rintro rfl
      exact absent present
    refine ⟨⟨?_, next, ?_, pending⟩, answer, ?_, fits⟩
    · exact List.mem_append_left _ present
    · simpa [slotOf, Server.csConnect, clients_modifyClient_of_ne other]
        using found
    · simpa [Server.csConnect, clients_modifyClient_of_ne other] using member

/-- The slot in which a request ends, and what the cache test left. -/
theorem NoneMissed.dispatch {cache : EcmCache} (index : er.cpti = i)
    (remains : s.AnswerRemains (· = (c, i)))
    (settled : ∀ addr, Settled cache addr → Settled s.cache addr)
    (waits : er.rc = e99 → ∀ addr, er.ecmcacheptr = some addr →
      ¬ Settled cache addr) :
    (Server.dispatch cfg { s.withTask c i with cache := cache }
      c er).NoneMissed := by
  subst index
  have before : ∀ d j addr,
      ({ s.withTask c er.cpti with cache := cache } : Server).Joined
        d j addr → s.Joined d j addr := by
    intro d j addr joined
    have waiting : (s.withTask c er.cpti).Joined d j addr := joined
    exact (joined_withTask waiting).2
  unfold Server.dispatch
  split
  · refine remains.noneMissed (fun d j addr joined answered => ?_)
      (fun d j addr stays informed => ?_)
    · rename_i code
      rcases joined_setSlot joined with ⟨other, waiting⟩ | ⟨_, pointer⟩
      · exact ⟨other, before d j addr waiting, settled addr answered⟩
      · exact absurd answered (waits code addr pointer)
    · exact informed_setSlot stays
        (show (s.withTask c er.cpti).Informed d j addr from
          informed_withTask stays informed)
  · rename_i other
    split
    · rename_i rejected
      have done : er.rc < e99 := by
        simp only [e99, eUnhandled] at other rejected ⊢
        omega
      refine remains.noneMissed (fun d j addr joined answered => ?_)
        (fun d j addr stays informed => ?_)
      · obtain ⟨apart, waiting⟩ := joined_deliver done joined
        exact ⟨apart, before d j addr waiting, settled addr answered⟩
      · exact informed_deliver stays
          (show (s.withTask c er.cpti).Informed d j addr from
            informed_withTask stays informed)
    · rename_i unhandled
      refine remains.noneMissed (fun d j addr joined answered => ?_)
        (fun d j addr stays informed => ?_)
      · have written : (({ s.withTask c er.cpti with cache := cache } :
            Server).setSlot c er.cpti (leveled { er with rcEx := 0 } 0
              (if cfg.preferlocalcards then 1 else 0))).Joined d j addr :=
          joined
        rcases joined_setSlot written with ⟨apart, waiting⟩ | ⟨code, _⟩
        · exact ⟨apart, before d j addr waiting, settled addr answered⟩
        · have kept := waitKey_sameTask (sameTask_leveled
            { er with rcEx := 0 } 0 (if cfg.preferlocalcards then 1 else 0))
          have same : er.rc = e99 := (congrArg Prod.fst kept).symm.trans code
          exact absurd same other
      · have kept : (s.withTask c er.cpti).Informed d j addr :=
          informed_withTask stays informed
        exact show (({ s.withTask c er.cpti with cache := cache } :
            Server).setSlot c er.cpti (leveled { er with rcEx := 0 } 0
              (if cfg.preferlocalcards then 1 else 0))).Informed d j addr from
          informed_setSlot stays kept

theorem NoneMissed.request {checks : Checks} {asked : Asked}
    (none : s.NoneMissed) (tagged : Tagged s)
    (remains : ∀ i ∈ freeSlot ((s.withTable c).clients c),
      s.AnswerRemains fun slot => slot.1 = c ∧
        (slot.2 = i ∨ asked.preset ≠ .corruptSilently ∧
          bansClient checks (fillTask asked (s.newTask c i)) = true)) :
    (s.request cfg checks c asked).NoneMissed := by
  rcases request_cases cfg checks s c asked with
    ⟨_, same⟩ | ⟨i, free, ⟨silent, er, corrupt, same⟩ |
      ⟨loud, banned, same⟩ | ⟨allowed, er, prepared, same⟩⟩
  · rw [same]
    exact AnswerRemains.noneMissed none
      (fun _ _ _ joined settled =>
        ⟨not_false, joined_withTable joined, settled⟩)
      (fun _ _ _ _ informed => informed_withTable informed)
  · rw [same]
    have one := (remains i free).congr (· = (c, i)) fun slot => by
      simp [silent, Prod.ext_iff]
    refine one.noneMissed (fun d j addr joined settled => ?_)
      (fun d j addr stays informed =>
        informed_setSlot stays (informed_withTask stays informed))
    rcases joined_setSlot joined with ⟨other, waiting⟩ | ⟨code, _⟩
    · exact ⟨other, (joined_withTask waiting).2, settled⟩
    · rw [corrupt] at code
      exact absurd code (by decide)
  · rw [same]
    have all := (remains i free).congr (·.1 = c) fun slot => by
      simp [loud, banned]
    refine all.noneMissed (fun d j addr joined settled => ?_)
      (fun d j addr stays informed => ?_)
    · obtain ⟨other, waiting⟩ := joined_csDisconnect joined
      exact ⟨other, (joined_withTask waiting).2, settled⟩
    · refine informed_csDisconnect stays (informed_withTask ?_ informed)
      exact fun equal => stays (congrArg Prod.fst equal)
  · rw [same]
    have one := (remains i free).congr (· = (c, i)) fun slot => by
      simp [allowed, Prod.ext_iff]
    unfold askCache
    split
    · have index : (checkAndStoreEcmcache cfg.ctimeout (s.withTask c i).now
          ((s.withTask c i).clients c).grp (s.withTask c i).cache
          er).2.1.cpti = i :=
        (checkAndStore_tags _ prepared.ecmcacheptr).2.1.trans prepared.cpti
      have waits := checkAndStore_waits cfg.ctimeout (s.withTask c i).now
        ((s.withTask c i).clients c).grp er tagged.addressed
      exact NoneMissed.dispatch index one waits.1 waits.2
    · rename_i rejected
      refine NoneMissed.dispatch prepared.cpti one (fun _ => id) ?_
      intro _ addr pointer
      have unbound := prepared.ecmcacheptr
      rw [show er.ecmcacheptr = some addr from pointer] at unbound
      cases unbound

/-! ## The readers -/

/-- An answer of a reader. -/
theorem NoneMissed.writeEcmAnswer (none : s.NoneMissed)
    (reaches : s.AnswerReaches r er) : (s.writeEcmAnswer r er).NoneMissed := by
  refine answerRemains_iff.mpr fun c i addr _ joined settled => ?_
  have waits := Grows.joined Grows.writeEcmAnswer joined
  have before : Settled s.cache addr ∨
      (answerOf r (s.readers r) er).rc = eRdrFound ∧
        ∃ ecm, storeTarget s.now s.cache (answerOf r (s.readers r) er)
          eFound = some ecm ∧ ecm.addr = addr := by
    rw [writeEcmAnswer_eq] at settled
    dsimp only at settled
    split at settled
    · rename_i found
      rcases settled_store settled with old | ⟨_, new⟩
      · exact .inl old
      · exact .inr ⟨found, new⟩
    · exact .inl settled
  rcases before with old | ⟨found, ecm, target, rfl⟩
  · obtain ⟨d, j, _, informed⟩ :=
      answerRemains_iff.mp none c i addr not_false waits old
    exact ⟨d, j, not_false, Grows.writeEcmAnswer.informed informed⟩
  · rcases reaches found ecm target ⟨(c, i), waits.mem_slots, waits⟩ with
      ⟨⟨d, j⟩, _, informed⟩ | ⟨d, asker, room, pending⟩
    · exact ⟨d, j, not_false, Grows.writeEcmAnswer.informed informed⟩
    · -- the answer is written into the pipe of the client that asked
      refine ⟨d, er.cpti, not_false, Grows.writeEcmAnswer.pendingOn pending,
        answerOf r (s.readers r) er, ?_, ?_⟩
      · rw [writeEcmAnswer_eq]
        dsimp only
        rw [if_pos ⟨asker, pending.1⟩, Client.write_pipe, if_pos room]
        simp
      · obtain ⟨_, pointer, _, _⟩ := storeTarget_some target
        refine ⟨answerOf_cpti (s.readers r) er, pointer, found.ge, ?_⟩
        rw [found]
        decide

/-- What counts is not changed by the history or the tables of the readers. -/
theorem NoneMissed.frame (none : s.NoneMissed)
    (clientList : t.clientList = s.clientList) (clients : t.clients = s.clients)
    (cache : t.cache = s.cache) : t.NoneMissed :=
  none.grows (Grows.of_clients clientList clients) fun _ settled =>
    cache ▸ settled

theorem answerReaches_miss (missed : er.rc ≠ eRdrFound) :
    s.AnswerReaches r er := by
  intro found
  have marked : eRdrFound ≤ (answerOf r (s.readers r) er).rc := found.ge
  exact absurd ((Founded.answerOf_found marked).1.symm.trans found) missed

theorem NoneMissed.directAnswer {rcEx : Nat} {cw : Option Cw}
    (none : s.NoneMissed) : (s.directAnswer r i rcEx cw).NoneMissed := by
  unfold Server.directAnswer
  split
  · exact none
  · rename_i task found
    split
    · exact none
    · rename_i pending
      refine NoneMissed.frame (none.writeEcmAnswer (answerReaches_miss ?_))
        rfl rfl rfl
      cases cw with
      | none => exact show eRdrNotfound ≠ eRdrFound by decide
      | some cw =>
          simp only [taskPending, eRdrFound] at pending ⊢
          omega

theorem NoneMissed.answerTask (none : s.NoneMissed)
    (reaches : s.AnswerReaches r er) : (s.answerTask r er).NoneMissed :=
  NoneMissed.writeEcmAnswer (s := s.recordAnswer r er)
    (none.frame rfl rfl rfl) reaches

theorem NoneMissed.cascCheckSlot {idx : Nat} {rc : Int} {cw : Cw}
    (none : s.NoneMissed)
    (reaches : ∀ ecm ∈ (s.readers r).ecmtask[i]?,
      ∀ asked ∈ (s.readers r).ecmtask[idx]?, sameTask asked ecm = true →
        s.AnswerReaches r (cascAnswered i idx rc cw ecm)) :
    (cascCheckSlot cfg r idx rc cw s i).NoneMissed := by
  unfold Server.cascCheckSlot
  split
  · rename_i ecm asked found other
    split
    · rename_i same
      exact (none.answerTask (reaches ecm found asked other same)).frame
        rfl rfl rfl
    · exact none.frame rfl rfl rfl
  · exact none

theorem NoneMissed.cascCheckDcw {idx : Nat} {cw : Cw} (none : s.NoneMissed) :
    (s.cascCheckDcw cfg r idx 0 cw).NoneMissed := by
  unfold Server.cascCheckDcw
  generalize List.range csMaxpending = slots
  induction slots generalizing s with
  | nil => exact none
  | cons i slots induction =>
      refine induction (none.cascCheckSlot fun ecm _ asked _ _ => ?_)
      exact answerReaches_miss (show (0 : Int) ≠ eRdrFound by decide)

theorem NoneMissed.readerGetEcm {handling : Handling} (none : s.NoneMissed)
    (reaches : ∀ found ∈ s.localRequest cfg handling r er,
      found.1.AnswerReaches r found.2) :
    (s.readerGetEcm cfg handling r er).NoneMissed := by
  unfold Server.readerGetEcm
  split
  · exact none
  · rename_i asked
    dsimp only
    split
    · exact none.writeEcmAnswer
        (answerReaches_miss (show eRdrNotfound ≠ eRdrFound by decide))
    · rename_i caid mapped
      have looked : Server.NoneMissed { s with
          cache := (checkCwcache2 cfg.ctimeout s.now (s.readers r).grp s.cache
            { er with ocaid := er.caid, caid := caid }).1 } :=
        none.grows (Grows.of_clients rfl rfl) fun _ => settled_lookup
      split
      · exact looked.writeEcmAnswer
          (answerReaches_miss (show eCache2 ≠ eRdrFound by decide))
      · rename_i missed
        split
        · unfold Server.cascProcessEcm
          dsimp only
          split
          · exact looked.frame rfl rfl rfl
          · have listed := looked.frame rfl rfl rfl
            split
            · exact NoneMissed.cascCheckDcw listed
            · exact listed
        · rename_i card
          have found : s.localRequest cfg handling r er = some
              ({ s with
                cache := (checkCwcache2 cfg.ctimeout s.now (s.readers r).grp
                  s.cache { er with ocaid := er.caid, caid := caid }).1 },
                localAnswer handling
                  { er with ocaid := er.caid, caid := caid }) := by
            simp only [localRequest, asked, card, Bool.false_eq_true, or_self,
              if_false, mapped, Option.bind_some, missed]
          exact looked.answerTask (reaches _ found)

/-! ## Every run -/

theorem noneMissed_started (start : Started s) : s.NoneMissed := by
  refine answerRemains_iff.mpr fun c i addr _ joined _ => ?_
  have present := joined.1
  rw [start.clientList] at present
  cases present

theorem NoneMissed.step {event : Event} (none : s.NoneMissed)
    (tagged : Tagged s) (keeps : s.KeepsAnswers cfg event) :
    (s.step cfg event).NoneMissed := by
  cases event with
  | advance ms => exact none.frame rfl rfl rfl
  | connect c multi grp =>
      unfold Server.step
      dsimp only
      split
      · exact none
      · rename_i absent
        exact none.csConnect absent
  | disconnect c => exact NoneMissed.csDisconnect keeps
  | request c checks asked =>
      unfold Server.step
      dsimp only
      split
      · exact none.request tagged keeps
      · exact none
  | takePipe c =>
      unfold Server.step
      dsimp only
      split
      · exact none
      · rename_i er rest oldest
        exact none.takePipe tagged oldest (keeps er (by simp [oldest]))
  | pending c i => exact none.pending keeps
  | readerTakePipe r handling =>
      unfold Server.step
      dsimp only
      split
      · exact none
      · rename_i er rest oldest
        have popped : (s.popReader r).NoneMissed := none.frame rfl rfl rfl
        exact popped.readerGetEcm (keeps er (by simp [oldest]))
  | cascCheck r idx rc cw i => exact none.cascCheckSlot keeps
  | direct r i rcEx cw => exact none.directAnswer
  | dropTask r i =>
      unfold Server.step Server.dropTask
      dsimp only
      split
      · exact none
      · exact none.frame rfl rfl rfl

/-- In a run whose steps lose no answer, every waiting slot whose entry is
settled has the answer in its pipe, or another slot has it and will pass it
on. -/
theorem no_answer_missed (cfg : Config)
    (reached : Reach (step cfg) (KeepsAnswers cfg) Started s) :
    s.NoAnswerMissed := by
  have none : s.NoneMissed :=
    reached.invariant_under Tagged.reached (fun _ => noneMissed_started)
      (fun _ _ tagged none keeps => none.step tagged keeps)
  exact none.noAnswerMissed

/-- Two network readers, of the groups 1 and 2. -/
def twoReaders (now : Nat) : Server :=
  { withReader (networkReader 1 true) now with
    activeReaders := [0, 1]
    readers := fun r => networkReader (if r = 0 then 1 else 2) true }

theorem started_twoReaders (now : Nat) : Started (twoReaders now) :=
  { started_withReader 1 true now with
    readers := fun _ =>
      ⟨rfl, fun _ member => List.eq_of_mem_replicate member⟩ }

/-- Two clients of the given groups ask for the same, and the first reader
answers. -/
def bothAsk (first second : Grp) : List Event :=
  let checks :=
    Checks.passing fun _ => 0x89e74e640b8c46257a29de0616794d5d
  let asked : Asked :=
    { ecm := [0x80, 0x30, 0x01, 0x07], l := 4, caid := 0x0B00, srvid := 1
      chid := 0, pid := 0, prid := 1, preset := .unhandled }
  let handling : Handling :=
    { chkBcaid := fun er => some er.caid, ratelimited := false
      outcome := { ok := false, cw := Cw.zero, rcEx := 0, msglog := "" }
      sendFails := false }
  [.connect 0 true first, .connect 1 true second, .request 0 checks asked,
    .request 1 checks asked, .readerTakePipe 0 handling,
    .cascCheck 0 0 1 { Cw.zero with g0 := ⟨1, 2, 3, 6⟩ } 0, .takePipe 0]

/-- When both clients share the group of the reader, the second one gets the
answer. -/
theorem no_answer_missed_bothAsk :
    ((bothAsk 1 3).foldl (step shortTimeouts)
      (twoReaders 1000000)).NoAnswerMissed := by
  have keeps : Along (step shortTimeouts) (KeepsAnswers shortTimeouts)
      (twoReaders 1000000) (bothAsk 1 3) := by
    decide +kernel
  exact no_answer_missed shortTimeouts
    (.run (.start (started_twoReaders 1000000)) keeps)

/-- The second client shares a group with the first one, but not with the
reader that answers. -/
theorem answer_missed :
    ¬ ∀ (cfg : Config) (s : Server) (events : List Event), Started s →
      (events.foldl (step cfg) s).NoAnswerMissed := by
  intro always
  have told := always shortTimeouts (twoReaders 1000000) (bothAsk 3 2)
    (started_twoReaders 1000000) 1 0 0 (by decide +kernel)
    (by unfold Settled; decide +kernel)
  have taken : ∀ slot ∈ Server.slots ((bothAsk 3 2).foldl
      (step shortTimeouts) (twoReaders 1000000)),
      ¬ Informed ((bothAsk 3 2).foldl (step shortTimeouts)
        (twoReaders 1000000)) slot.1 slot.2 0 := by
    decide +kernel
  rcases told with informed | ⟨d, j, _, informed⟩
  · exact taken _ informed.mem_slots informed
  · exact taken _ informed.mem_slots informed

end Server

end Oscam
