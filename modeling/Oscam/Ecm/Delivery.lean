import Oscam.Ecm.Places
import Oscam.Lib.Reach

/-!
# Which control words are delivered

A control word may reach a client along many ways: from the reader, through
the cache, or passed on by another client.  This file follows them all back to
an answer of a reader.  The one way that does not lead back to such an answer
is a not-found result that `chk_dcw` passes on with a return code that the
next `chk_dcw` takes for a found one.
-/

namespace Oscam

/-- A reader answered this ECM with this control word. -/
def Answered (answers : List Answer) (ecmd5 : Digest) (cw : Cw) : Prop :=
  ∃ answer ∈ answers, answer.ecmd5 = ecmd5 ∧ answer.cw = cw

/-- A message that `chk_dcw` would take for a found answer is one. -/
def MessageFounded (answers : List Answer) (er : EcmRequest) : Prop :=
  eRdrFound ≤ er.rc →
    er.rc ≠ eNotfound ∧ Answered answers er.ecmd5 er.cw

namespace Server

open StepSystem

/-- A slot is completed as found only with a control word that a reader
answered for its ECM, and no pipe holds a not-found result that would be taken
for a found answer. -/
def FoundOnlyIfAnswered (s : Server) : Prop :=
  (∀ delivery, LogEntry.delivered delivery ∈ s.log →
      delivery.rc < eNotfound →
        Answered s.answers delivery.ecmd5 delivery.cw) ∧
    ∀ c, ∀ er ∈ (s.clients c).pipe, MessageFounded s.answers er

/-! ## The steps that go wrong -/

/-- `chk_dcw` ends with `E_NOTFOUND`: the last reader has missed, or the
control word is null. -/
def endsNotFound (er ert : EcmRequest) : Bool :=
  if eRdrFound ≤ er.rc then er.cw == Cw.zero && er.rc != eEmu
  else (missedSlot er ert).matchingRdr == []

/-- Another slot is waiting for the answer that slot `i` of client `c` takes,
and its client would get it. -/
def OtherWaits (s : Server) (c : ClientId) (i : Nat) (er : EcmRequest) :
    Prop :=
  ∃ d ∈ s.clientList,
    (s.clients d).grp &&& s.readerGrp er.selectedReader ≠ 0 ∧
      (s.clients d).pipe.length < pipeMax ∧
      ∃ j ∈ List.range (s.clients d).ecmtask.length,
        ¬ (d = c ∧ j = i) ∧
          ∃ slot ∈ (s.clients d).ecmtask[j]?, receives er slot = true

instance (s : Server) (c : ClientId) (i : Nat) (er : EcmRequest) :
    Decidable (s.OtherWaits c i er) :=
  inferInstanceAs (Decidable (∃ d ∈ s.clientList, _ ∧ _ ∧ ∃ j ∈ _, _ ∧ _))

/-- `chk_dcw` completes a slot as not found while another slot waits. -/
def PassesMissOn (s : Server) (c : ClientId) (er : EcmRequest) : Prop :=
  ∃ ert ∈ (s.clients c).ecmtask[er.cpti]?,
    e99 ≤ ert.rc ∧ obsolete er ert = false ∧ endsNotFound er ert = true ∧
      s.OtherWaits c er.cpti er

instance (s : Server) (c : ClientId) (er : EcmRequest) :
    Decidable (s.PassesMissOn c er) :=
  inferInstanceAs (Decidable (∃ ert ∈ _, _ ∧ _ ∧ _ ∧ _))

/-- No miss is passed on to a waiting slot, and no module answers a pending
task with a control word but without `E_RDR_FOUND`. -/
def AnswersAreMarked (s : Server) : Event → Prop
  | .takePipe c =>
      ∀ er ∈ (s.clients c).pipe.head?, ¬ (s.popClient c).PassesMissOn c er
  | .direct r i _ (some _) =>
      ∀ task ∈ (s.readers r).ecmtask[i]?, task.rc < taskPending
  | _ => True

instance (s : Server) (event : Event) : Decidable (s.AnswersAreMarked event) :=
  match event with
  | .takePipe _ => inferInstanceAs (Decidable (∀ er ∈ _, ¬ _))
  | .direct _ _ _ (some _) => inferInstanceAs (Decidable (∀ task ∈ _, _ < _))
  | .direct _ _ _ none => .isTrue trivial
  | .advance _ | .connect _ _ _ | .disconnect _ | .request _ _ _
  | .pending _ _ | .readerTakePipe _ _ | .cascCheck _ _ _ _ _
  | .dropTask _ _ => .isTrue trivial

end Server

/-! ## The invariant -/

theorem Answered.mono {answers more : List Answer} {ecmd5 : Digest} {cw : Cw}
    (grown : answers ⊆ more) (answered : Answered answers ecmd5 cw) :
    Answered more ecmd5 cw := by
  obtain ⟨answer, member, same⟩ := answered
  exact ⟨answer, grown member, same⟩

/-- An entry that counts as found holds an answer of a reader. -/
def EntryFounded (answers : List Answer) (ecm : SEcm) : Prop :=
  ecm.rc < eNotfound → Answered answers ecm.ecmd5 ecm.cw ∧ ecm.cw.ChecksumOk

def CacheFounded (answers : List Answer) (cache : EcmCache) : Prop :=
  ∀ ecm ∈ cache.heap, EntryFounded answers ecm

/-- Only messages to the clients matter. -/
def foundedPlaces (answers : List Answer) : Places :=
  { slot := fun _ _ _ => True
    message := MessageFounded answers
    asked := fun _ => True
    task := fun _ => True }

def LogFounded (answers : List Answer) (log : List LogEntry) : Prop :=
  ∀ delivery, LogEntry.delivered delivery ∈ log → delivery.rc < eNotfound →
    Answered answers delivery.ecmd5 delivery.cw

structure Founded (s : Server) : Prop where
  keeps : s.Keeps (foundedPlaces s.answers)
  cache : CacheFounded s.answers s.cache
  log : LogFounded s.answers s.log

namespace CacheFounded

open EcmCache

variable {answers : List Answer} {cache : EcmCache}

theorem lookup {ctimeout now : Nat} {hit : SEcm → Bool}
    (founded : CacheFounded answers cache) :
    CacheFounded answers (cache.lookup ctimeout now hit).1 :=
  fun ecm member => founded ecm (mem_heap_lookup.mp member)

theorem store {now : Nat} {grp : Grp} {rc : Int} {er : EcmRequest}
    (founded : CacheFounded answers cache)
    (answered : rc < eNotfound →
      Answered answers er.ecmd5 er.cw ∧ er.cw.ChecksumOk) :
    CacheFounded answers (storeCwInCache now grp rc er cache) := by
  intro ecm member
  rcases mem_heap_store member with old | ⟨target, _, rfl⟩
  · exact founded ecm old
  · exact answered

/-- What a request takes from the cache with a found return code. -/
theorem checkAndStore (founded : CacheFounded answers cache)
    (ctimeout now : Nat) (grp : Grp) (er : EcmRequest) :
    let result := checkAndStoreEcmcache ctimeout now grp cache er
    CacheFounded answers result.1 ∧
      (result.2.2 < eNotfound →
        Answered answers result.2.1.ecmd5 result.2.1.cw) := by
  obtain ⟨walked, ⟨hit, rfl⟩, outcome⟩ :=
    checkAndStoreEcmcache_cases ctimeout now grp cache er
  have kept : CacheFounded answers (cache.lookup ctimeout now hit).1 :=
    founded.lookup
  rcases outcome with
    ⟨ecm, listed, _, same, _, ⟨found, result⟩ | ⟨_, result⟩⟩ | result
  · rw [result]
    refine ⟨kept, fun _ => ?_⟩
    have entry := kept ecm (List.mem_append_left _ listed)
      (by rw [found]; decide)
    exact same ▸ entry.1
  · rw [result]
    refine ⟨kept, fun foundRc => ?_⟩
    exact same ▸ (kept ecm (List.mem_append_left _ listed) foundRc).1
  · rw [result]
    refine ⟨fun ecm member => ?_, fun foundRc => ?_⟩
    · rcases List.mem_cons.mp member with rfl | old
      · intro foundRc
        exact absurd (show e99 < eNotfound from foundRc) (by decide)
      · exact kept ecm old
    · exact absurd (show eUnhandled < eNotfound from foundRc) (by decide)

theorem checkCwcache2 (founded : CacheFounded answers cache)
    (ctimeout now : Nat) (grp : Grp) (er : EcmRequest) :
    let result := checkCwcache2 ctimeout now grp cache er
    CacheFounded answers result.1 ∧
      ∀ hit, result.2 = some hit →
        Answered answers hit.ecmd5 hit.cw ∧ hit.cw.ChecksumOk := by
  obtain ⟨⟨hit, walked⟩, answered⟩ :=
    checkCwcache1_cases ctimeout now grp cache er
  refine ⟨walked ▸ founded.lookup, fun found result => ?_⟩
  obtain ⟨ecm, member, foundRc, _, same, rfl⟩ := answered found result
  have entry := founded ecm member (by rw [foundRc]; decide)
  exact ⟨same ▸ entry.1, entry.2⟩

end CacheFounded

namespace Founded

open EcmCache Server

variable {cfg : Config} {s : Server} {c : ClientId} {r : ReaderId} {i : Nat}
  {er : EcmRequest} {answers : List Answer}

/-! ## The primitives -/

theorem withCache {cache : EcmCache} (founded : Founded s)
    (cacheFounded : CacheFounded s.answers cache) :
    Founded { s with cache := cache } :=
  ⟨founded.keeps.congr rfl rfl, cacheFounded, founded.log⟩

theorem setSlot (founded : Founded s) : Founded (s.setSlot c i er) :=
  ⟨founded.keeps.setSlot trivial, founded.cache, founded.log⟩

theorem setTask (founded : Founded s) : Founded (s.setTask r i er) :=
  ⟨founded.keeps.setTask trivial, founded.cache, founded.log⟩

theorem deliver (founded : Founded s)
    (answered : er.rc < eNotfound → Answered s.answers er.ecmd5 er.cw) :
    Founded (s.deliver c i er) := by
  refine ⟨founded.keeps.deliver trivial, founded.cache, ?_⟩
  intro delivery member foundRc
  rcases List.mem_cons.mp member with same | old
  · cases same
    exact answered foundRc
  · exact founded.log delivery old foundRc

theorem askAgain {flag types : Nat} (founded : Founded s) :
    Founded (s.askAgain c i er flag types) :=
  ⟨founded.keeps.askAgain trivial trivial, founded.cache, founded.log⟩

theorem requestCw {flag types : Nat} (founded : Founded s) :
    Founded (s.requestCw er flag types) :=
  ⟨founded.keeps.requestCw trivial, founded.cache, founded.log⟩

theorem csDisconnect (founded : Founded s) : Founded (s.csDisconnect c) :=
  ⟨founded.keeps.csDisconnect, founded.cache, founded.log⟩

/-- An answer that counts as found has a right checksum and the control word
of the request, corrected. -/
theorem answerOf_found {rdr : Reader}
    (found : eRdrFound ≤ (answerOf r rdr er).rc) :
    (answerOf r rdr er).rc = er.rc ∧
      (answerOf r rdr er).cw = er.cw.fixed ∧
      (answerOf r rdr er).cw.ChecksumOk := by
  unfold answerOf checkChecksum at found ⊢
  split
  · rename_i correct
    exact ⟨rfl, (Cw.fixed_eq_self correct).symm, correct⟩
  · rename_i wrong
    rw [if_neg wrong] at found
    split
    · rename_i dropping
      rw [if_pos dropping] at found
      exact absurd found (by simp)
    · exact ⟨rfl, rfl, Cw.checksumOk_fixed er.cw⟩

@[simp] theorem answerOf_ecmd5 {rdr : Reader} :
    (answerOf r rdr er).ecmd5 = er.ecmd5 := by
  unfold answerOf checkChecksum
  split
  · rfl
  · split <;> rfl

theorem writeEcmAnswer (founded : Founded s)
    (message : MessageFounded s.answers (answerOf r (s.readers r) er)) :
    Founded (s.writeEcmAnswer r er) := by
  have keeps : (s.writeEcmAnswer r er).Keeps (foundedPlaces s.answers) :=
    founded.keeps.writeEcmAnswer message
  rw [writeEcmAnswer_eq] at keeps ⊢
  refine ⟨keeps, ?_, founded.log⟩
  dsimp only
  split
  · rename_i found
    refine founded.cache.store fun _ => ?_
    have marked : eRdrFound ≤ (answerOf r (s.readers r) er).rc := found.ge
    exact ⟨(message marked).2, (answerOf_found marked).2.2⟩
  · exact founded.cache

theorem recordAnswer (founded : Founded s) :
    Founded (s.recordAnswer r er) := by
  have grown : s.answers ⊆ (s.recordAnswer r er).answers := by
    intro answer member
    simp only [Server.recordAnswer]
    split
    · exact List.mem_cons_of_mem _ member
    · exact member
  refine ⟨?_, ?_, ?_⟩
  · have keeps : (s.recordAnswer r er).Keeps (foundedPlaces s.answers) :=
      founded.keeps.congr rfl rfl
    exact keeps.mono (fun _ _ _ slot => slot)
      (fun _ message found => ⟨(message found).1, (message found).2.mono grown⟩)
      (fun _ asked => asked) (fun _ task => task)
  · exact fun ecm member found =>
      ⟨(founded.cache ecm member found).1.mono grown,
        (founded.cache ecm member found).2⟩
  · exact fun delivery member found =>
      (founded.log delivery member found).mono grown

/-- What a reader answers of its own is in the history. -/
theorem answerTask (founded : Founded s) (marked : er.rc ≠ eNotfound) :
    Founded (s.answerTask r er) := by
  refine founded.recordAnswer.writeEcmAnswer fun found => ?_
  have same := (answerOf_found found).1
  refine ⟨fun missed => marked (same.symm.trans missed), ?_⟩
  refine ⟨{ reader := r, ecmd5 := er.ecmd5
            cw := (answerOf r (s.readers r) er).cw }, ?_, by simp, rfl⟩
  have recorded : eRdrFound ≤ (answerOf r (s.readers r) er).rc := found
  simp [Server.recordAnswer, recorded]

/-! ## The clients -/

/-- The slot that was completed waits no longer. -/
theorem otherWaits_of_receives {ert slot : EcmRequest} {d : ClientId}
    (done : (sendDcw ert).rc < e99)
    (present : d ∈ s.clientList)
    (fits : (s.clients d).grp &&& s.readerGrp er.selectedReader ≠ 0)
    (room : (s.clients d).pipe.length < pipeMax)
    (listed : slot ∈ ((s.deliver c i ert).clients d).ecmtask)
    (received : receives er slot) : s.OtherWaits c i er := by
  obtain ⟨j, found⟩ := List.getElem?_of_mem listed
  have pending : e99 ≤ slot.rc := by
    simp only [receives, Bool.and_eq_true, decide_eq_true_eq] at received
    exact received.1
  have older : (s.clients d).ecmtask[j]? = some slot ∧ ¬ (d = c ∧ j = i) := by
    by_cases same : d = c
    · subst same
      simp only [Server.deliver, Server.setSlot,
        clients_modifyClient_self] at found
      rw [List.getElem?_set] at found
      split at found
      · split at found
        · cases found
          omega
        · cases found
      · rename_i other
        exact ⟨found, fun both => other both.2.symm⟩
    · simp only [Server.deliver, Server.setSlot,
        clients_modifyClient_of_ne same] at found
      exact ⟨found, fun both => same both.1⟩
  refine ⟨d, present, fits, room, j, ?_, older.2, slot, older.1, received⟩
  rw [List.mem_range]
  exact (List.getElem?_eq_some_iff.mp older.1).1

theorem complete (founded : Founded s) {ert : EcmRequest}
    (reader : ert.selectedReader = er.selectedReader)
    (delivered : ert.rc < eNotfound → Answered s.answers ert.ecmd5 ert.cw)
    (passed : (sendDcw ert).rc < eNotfound →
      Answered s.answers er.ecmd5 er.cw)
    (quiet : ¬ (sendDcw ert).rc < eNotfound →
      (sendDcw ert).rc < e99 ∧ ¬ s.OtherWaits c er.cpti er) :
    Founded (s.complete c er ert) := by
  have answered := founded.deliver (c := c) (i := er.cpti) delivered
  refine ⟨answered.keeps.distributeEcm ?_, answered.cache, answered.log⟩
  intro d present fits room slot listed received found
  by_cases foundRc : (sendDcw ert).rc < eNotfound
  · rw [if_pos foundRc] at found ⊢
    exact ⟨show eCache2 ≠ eNotfound by decide, passed foundRc⟩
  · obtain ⟨done, nobody⟩ := quiet foundRc
    have frame : ((s.deliver c er.cpti ert).clients d).grp =
          (s.clients d).grp ∧
        ((s.deliver c er.cpti ert).clients d).pipe = (s.clients d).pipe := by
      by_cases same : d = c
      · subst same
        simp [Server.deliver, Server.setSlot]
      · simp [Server.deliver, Server.setSlot, clients_modifyClient_of_ne same]
    rw [frame.1, reader] at fits
    rw [frame.2] at room
    exact absurd
      (otherWaits_of_receives (s := s) done present fits room listed received) nobody

theorem chkDcw (founded : Founded s) (message : MessageFounded s.answers er)
    (quiet : ¬ s.PassesMissOn c er) : Founded (s.chkDcw c er) := by
  rcases chkDcw_cases s c er with ⟨_, same⟩ | ⟨ert, slot, pending, current, ways⟩
  · rw [same]
    exact founded
  have silent : endsNotFound er ert = true → ¬ s.OtherWaits c er.cpti er :=
    fun ends others => quiet ⟨ert, slot, pending, current, ends, others⟩
  have digest : er.ecmd5 = ert.ecmd5 := by
    simp only [obsolete, Bool.or_eq_false_iff, bne_eq_false_iff_eq] at current
    exact current.2
  rcases ways with ⟨found, same⟩ | ⟨_, _, same⟩ | ⟨missed, last, same⟩
  · have answered : Answered s.answers er.ecmd5 er.cw := (message found).2
    rw [same]
    refine founded.complete rfl (fun _ => digest ▸ answered)
      (fun _ => answered) (fun missed => ?_)
    have codes : (foundSlot er ert).rc < eNotfound := by
      simp only [foundSlot]
      split
      · rename_i kind
        rcases kind with kind | kind <;> rw [kind] <;> decide
      · decide
    refine ⟨sendDcw_rc_lt (codes.trans (by decide)), silent ?_⟩
    rw [sendDcw_rc] at missed
    split at missed
    · rename_i null
      have notEmu : er.rc ≠ eEmu := by
        intro emu
        simp [foundSlot, emu] at null
      have zero : er.cw = Cw.zero := null.2
      simp [endsNotFound, found, zero, notEmu]
    · exact absurd codes missed
  · rw [same]
    exact founded.setSlot
  · rw [same]
    have missStored : CacheFounded s.answers
        (storeCwInCache s.now (s.readerGrp er.selectedReader) eNotfound
          { missedSlot er ert with rc := eNotfound } s.cache) :=
      founded.cache.store fun impossible => absurd impossible (by decide)
    have stored := founded.withCache missStored
    have code : (sendDcw { missedSlot er ert with rc := eNotfound }).rc =
        eNotfound := by
      simp [sendDcw_rc]
    refine stored.complete rfl
      (fun found => absurd (show eNotfound < eNotfound from found) (by decide))
      (fun found => absurd (code ▸ found) (by decide))
      (fun _ => ⟨by rw [code]; decide, silent ?_⟩)
    simp [endsNotFound, not_le.mpr missed, last]

theorem withTask (founded : Founded s) : Founded (s.withTask c i) := by
  refine ⟨founded.keeps.withTask (fun _ => trivial) trivial, founded.cache, ?_⟩
  intro delivery member
  rcases List.mem_cons.mp member with same | old
  · cases same
  · exact founded.log delivery old

theorem dispatch (founded : Founded s)
    (answered : er.rc < eNotfound → Answered s.answers er.ecmd5 er.cw) :
    Founded (dispatch cfg s c er) := by
  unfold Server.dispatch
  split
  · exact founded.setSlot
  · split
    · exact founded.deliver answered
    · exact founded.setSlot.requestCw

theorem request {checks : Checks} {asked : Asked} (founded : Founded s) :
    Founded (s.request cfg checks c asked) := by
  rcases request_cases cfg checks s c asked with
    ⟨_, same⟩ | ⟨i, _, ⟨_, _, _, same⟩ | ⟨_, _, same⟩ |
      ⟨_, er, prepared, same⟩⟩
  · rw [same]
    exact ⟨founded.keeps.withTable fun _ => trivial, founded.cache,
      founded.log⟩
  · rw [same]
    exact founded.withTask.setSlot
  · rw [same]
    exact founded.withTask.csDisconnect
  · rw [same]
    have allocated : Founded (s.withTask c i) := founded.withTask
    unfold askCache
    split
    · have taken := allocated.cache.checkAndStore cfg.ctimeout
        (s.withTask c i).now ((s.withTask c i).clients c).grp er
      exact (allocated.withCache taken.1).dispatch taken.2
    · rename_i rejected
      refine (allocated.withCache allocated.cache).dispatch fun found => ?_
      have code := (prepared.rc.resolve_left rejected).1
      exact absurd found (not_lt.mpr code)

theorem retry (founded : Founded s) : Founded (s.retry cfg c i er).1 := by
  unfold Server.retry
  split
  · exact founded.askAgain
  · exact founded

theorem expire (founded : Founded s) : Founded (s.expire c i er) := by
  unfold Server.expire
  split
  · unfold Server.timeOut
    refine (founded.withCache (founded.cache.store ?_)).deliver ?_
    · exact fun impossible => absurd impossible (by decide)
    · exact fun impossible =>
        absurd (show eTimeout < eNotfound from impossible) (by decide)
  · dsimp only
    split
    · exact founded.askAgain
    · exact founded.setSlot

theorem keepWaiting (founded : Founded s) :
    Founded (s.keepWaiting cfg c i er) := by
  unfold Server.keepWaiting
  dsimp only
  split
  · exact founded.retry.expire
  · exact founded.retry

theorem pending (founded : Founded s) :
    Founded (chkPendingSlot cfg c s i) := by
  unfold chkPendingSlot
  split
  · exact founded
  · rename_i er _
    split
    · exact founded
    · obtain ⟨kept, answered⟩ := founded.cache.checkCwcache2 cfg.ctimeout s.now
        (s.clients c).grp er
      have looked := founded.withCache kept
      dsimp only
      split
      · rename_i hit found
        exact looked.deliver fun _ => (answered hit found).1
      · exact looked.keepWaiting

/-! ## The readers -/

theorem cascCheckSlot {idx : Nat} {rc : Int} {cw : Cw} (founded : Founded s) :
    Founded (cascCheckSlot cfg r idx rc cw s i) := by
  unfold Server.cascCheckSlot
  split
  · rename_i ecm asked _ _
    split
    · have marked : (cascAnswered i idx rc cw ecm).rc ≠ eNotfound := by
        unfold cascAnswered
        split
        · dsimp only
          split <;> decide
        · dsimp only
          decide
      exact (founded.answerTask marked).setTask
    · exact founded.setTask
  · exact founded

theorem cascCheckDcw {idx : Nat} {rc : Int} {cw : Cw} (founded : Founded s) :
    Founded (s.cascCheckDcw cfg r idx rc cw) := by
  unfold Server.cascCheckDcw
  generalize List.range csMaxpending = slots
  induction slots generalizing s with
  | nil => exact founded
  | cons i slots induction => exact induction founded.cascCheckSlot

theorem cascProcessEcm {handling : Handling} (founded : Founded s) :
    Founded (s.cascProcessEcm cfg handling r er) := by
  have dropped : Founded (s.modifyReader r fun rdr =>
      { rdr with ecmtask := s.freshTasks cfg r }) :=
    ⟨founded.keeps.modifyReader
        ⟨(founded.keeps.readers r).1, fun _ _ => trivial⟩,
      founded.cache, founded.log⟩
  unfold Server.cascProcessEcm
  dsimp only
  split
  · exact dropped
  · split
    · exact dropped.setTask.cascCheckDcw
    · exact dropped.setTask

/-- A not-found answer of a reader. -/
theorem writeMiss (founded : Founded s) (missed : er.rc = eRdrNotfound) :
    Founded (s.writeEcmAnswer r er) := by
  refine founded.writeEcmAnswer fun found => ?_
  have same := (answerOf_found found).1
  rw [same, missed] at found
  exact absurd found (by decide)

theorem readerGetEcm {handling : Handling} (founded : Founded s) :
    Founded (s.readerGetEcm cfg handling r er) := by
  unfold Server.readerGetEcm
  split
  · exact founded
  · dsimp only
    split
    · exact founded.writeMiss rfl
    · rename_i caid _
      obtain ⟨kept, answered⟩ := founded.cache.checkCwcache2 cfg.ctimeout s.now
        (s.readers r).grp { er with ocaid := er.caid, caid := caid }
      have looked := founded.withCache kept
      split
      · rename_i hit found
        obtain ⟨known, correct⟩ := answered hit found
        refine looked.writeEcmAnswer fun marked => ?_
        obtain ⟨code, cw, _⟩ := answerOf_found marked
        rw [code, cw, answerOf_ecmd5, Cw.fixed_eq_self correct]
        exact ⟨show eCache2 ≠ eNotfound by decide, known⟩
      · split
        · exact looked.cascProcessEcm
        · refine looked.answerTask ?_
          unfold localAnswer
          split
          · exact show eRdrNotfound ≠ eNotfound by decide
          · dsimp only
            split <;> decide

theorem directMiss {rcEx : Nat} (founded : Founded s) :
    Founded (s.directAnswer r i rcEx none) := by
  unfold Server.directAnswer
  split
  · exact founded
  · split
    · exact founded
    · exact (founded.writeMiss rfl).setTask

/-! ## Every run -/

theorem started (start : Started s) : Founded s := by
  refine ⟨keeps_started start trivial, ?_, ?_⟩
  · rw [start.cache]
    intro ecm member
    simp [heap, EcmCache.empty] at member
  · rw [start.log]
    intro delivery member
    simp at member

theorem step {event : Event} (founded : Founded s)
    (marked : s.AnswersAreMarked event) : Founded (s.step cfg event) := by
  cases event with
  | advance ms => exact ⟨founded.keeps.congr rfl rfl, founded.cache, founded.log⟩
  | connect c multi grp =>
      unfold Server.step
      dsimp only
      split
      · exact founded
      · exact ⟨founded.keeps.csConnect, founded.cache, founded.log⟩
  | disconnect c => exact founded.csDisconnect
  | request c checks asked =>
      unfold Server.step
      dsimp only
      split
      · exact founded.request
      · exact founded
  | takePipe c =>
      unfold Server.step
      dsimp only
      split
      · exact founded
      · rename_i er rest oldest
        have member : er ∈ (s.clients c).pipe := by simp [oldest]
        have popped : Founded (s.popClient c) :=
          ⟨founded.keeps.popClient, founded.cache, founded.log⟩
        exact popped.chkDcw ((founded.keeps.clients c).2 er member)
          (marked er (by simp [oldest]))
  | pending c i => exact founded.pending
  | readerTakePipe r handling =>
      unfold Server.step
      dsimp only
      split
      · exact founded
      · have popped : Founded (s.popReader r) :=
          ⟨founded.keeps.popReader, founded.cache, founded.log⟩
        exact popped.readerGetEcm
  | cascCheck r idx rc cw i => exact founded.cascCheckSlot
  | direct r i rcEx cw =>
      cases cw with
      | none => exact founded.directMiss
      | some cw =>
          unfold Server.step Server.directAnswer
          dsimp only
          split
          · exact founded
          · rename_i task found
            rw [if_pos (marked task found)]
            exact founded
  | dropTask r i =>
      unfold Server.step Server.dropTask
      dsimp only
      split
      · exact founded
      · exact founded.setTask

end Founded

namespace Server

open StepSystem

/-- As long as no miss is passed on and no module answers without a return
code, every completed slot got a control word that a reader answered. -/
theorem found_only_if_answered (cfg : Config) {s : Server}
    (reached : Reach (step cfg) AnswersAreMarked Started s) :
    s.FoundOnlyIfAnswered := by
  have founded : Founded s := reached.invariant
    (fun _ start => Founded.started start)
    (fun _ _ founded marked => founded.step marked)
  exact ⟨founded.log, fun c => (founded.keeps.clients c).2⟩

/-- Two clients ask for one ECM, the reader answers `cw`, and both take what
is in their pipes. -/
def askedTwice (cw : Cw) : List Event :=
  let checks :=
    Checks.passing fun _ => 0x89e74e640b8c46257a29de0616794d5d
  let asked : Asked :=
    { ecm := [0x80, 0x30, 0x01, 0x07], l := 4, caid := 0x0B00, srvid := 1
      chid := 0, pid := 0, prid := 1, preset := .unhandled }
  let handling : Handling :=
    { chkBcaid := fun er => some er.caid, ratelimited := false
      outcome := { ok := false, cw := Cw.zero, rcEx := 0, msglog := "" }
      sendFails := false }
  [.connect 0 true 1, .connect 1 true 1, .request 0 checks asked,
    .request 1 checks asked, .readerTakePipe 0 handling,
    .cascCheck 0 0 1 cw 0, .takePipe 0, .takePipe 1]

def shortTimeouts : Config :=
  { ctimeout := 5000, ftimeout := 2000, preferlocalcards := false }

/-- With a right checksum both clients get the control word. -/
theorem found_only_if_answered_twice :
    ((askedTwice { Cw.zero with g0 := ⟨1, 2, 3, 6⟩ }).foldl
      (step shortTimeouts)
      (withReader (networkReader 1 true) 1000000)).FoundOnlyIfAnswered := by
  have marked : Along (step shortTimeouts) AnswersAreMarked
      (withReader (networkReader 1 true) 1000000)
      (askedTwice { Cw.zero with g0 := ⟨1, 2, 3, 6⟩ }) := by
    decide +kernel
  exact found_only_if_answered shortTimeouts
    (.run (.start (started_withReader 1 true 1000000)) marked)

/-- With a wrong checksum the reader drops the control word; the first client
passes the miss on, and the second one is served the wrong control word. -/
theorem found_without_answer :
    ¬ ∀ (cfg : Config) (s : Server) (events : List Event), Started s →
      (events.foldl (step cfg) s).FoundOnlyIfAnswered := by
  intro always
  have delivered := (always shortTimeouts
    (withReader (networkReader 1 true) 1000000)
    (askedTwice { Cw.zero with g0 := ⟨1, 2, 3, 7⟩ })
    (started_withReader 1 true 1000000)).1
      { client := 1, cpti := 0, rc := eFound
        ecmd5 := 0x89e74e640b8c46257a29de0616794d5d
        cw := { Cw.zero with g0 := ⟨1, 2, 3, 7⟩ } }
      (by decide +kernel) (by decide)
  obtain ⟨answer, member, _⟩ := delivered
  have silent : ((askedTwice { Cw.zero with g0 := ⟨1, 2, 3, 7⟩ }).foldl
      (step shortTimeouts)
      (withReader (networkReader 1 true) 1000000)).answers = [] := by
    decide +kernel
  rw [silent] at member
  simp at member

end Server

end Oscam
