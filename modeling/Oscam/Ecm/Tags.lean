import Oscam.Ecm.Places
import Oscam.Lib.Reach

/-!
# Requests agree with the cache entry they point to

`chk_dcw` compares an answer with the slot by caid and digest, the cache is
searched by caid and digest, and both travel with every copy of a request.
This file shows that a copy that points to a cache entry carries the caid and
the digest of that entry wherever it is kept, in every run.
-/

namespace Oscam

/-- The request is one for the ECM of the entry it points to; which of its
fields holds the caid depends on the place. -/
def CarriesTag (cache : EcmCache) (caid : Nat) (er : EcmRequest) : Prop :=
  ∀ addr, er.ecmcacheptr = some addr →
    ∃ ecm ∈ cache.heap, ecm.addr = addr ∧ ecm.caid = caid ∧
      ecm.ecmd5 = er.ecmd5

/-- Readers keep the caid of the client in `ocaid`. -/
def taggedPlaces (cache : EcmCache) : Places :=
  { slot := fun _ i er =>
      e99 ≤ er.rc → er.cpti = i ∧ CarriesTag cache er.caid er
    message := fun er => CarriesTag cache er.caid er
    asked := fun er => CarriesTag cache er.caid er
    task := fun er => CarriesTag cache er.ocaid er }

structure Tagged (s : Server) : Prop where
  addressed : s.cache.WellAddressed
  keeps : s.Keeps (taggedPlaces s.cache)

/-- No entry changes its caid or its digest. -/
def TagsKept (cache next : EcmCache) : Prop :=
  ∀ ecm ∈ cache.heap, ∃ later ∈ next.heap, later.addr = ecm.addr ∧
    later.caid = ecm.caid ∧ later.ecmd5 = ecm.ecmd5

namespace EcmCache

variable {ctimeout now : Nat} {grp : Grp} {cache : EcmCache}
  {er : EcmRequest} {rc : Int}

theorem tagsKept_refl (cache : EcmCache) : TagsKept cache cache :=
  fun ecm member => ⟨ecm, member, rfl, rfl, rfl⟩

theorem tagsKept_lookup {hit : SEcm → Bool} :
    TagsKept cache (cache.lookup ctimeout now hit).1 :=
  fun ecm member => ⟨ecm, mem_heap_lookup.mpr member, rfl, rfl, rfl⟩

/-- A request that agrees with its entry writes the same caid and digest. -/
theorem tagsKept_store (addressed : WellAddressed cache)
    (tag : CarriesTag cache er.caid er) :
    TagsKept cache (storeCwInCache now grp rc er cache) := by
  intro ecm member
  unfold storeCwInCache
  split
  · exact ⟨ecm, member, rfl, rfl, rfl⟩
  · rename_i target result
    obtain ⟨_, pointer, inHeap, _⟩ := storeTarget_some result
    rw [heap_write]
    have image := List.mem_map_of_mem
      (f := fun old => if old.addr = target.addr then
        target.filled now er grp rc else old) member
    by_cases same : ecm.addr = target.addr
    · obtain ⟨entry, listed, addr, caid, digest⟩ := tag target.addr pointer
      have equal : entry = ecm :=
        addressed.eq_of_addr listed member (addr.trans same.symm)
      rw [if_pos same] at image
      refine ⟨_, image, same.symm, ?_, ?_⟩
      · exact (equal ▸ caid).symm
      · exact (equal ▸ digest).symm
    · rw [if_neg same] at image
      exact ⟨ecm, image, rfl, rfl, rfl⟩

/-- What the cache test leaves: the request points to an entry of its ECM, or
nowhere. -/
theorem checkAndStore_tags (ctimeout : Nat) (unbound : er.ecmcacheptr = none) :
    let result := checkAndStoreEcmcache ctimeout now grp cache er
    TagsKept cache result.1 ∧ result.2.1.cpti = er.cpti ∧
      CarriesTag result.1 result.2.1.caid result.2.1 := by
  obtain ⟨walked, ⟨hit, rfl⟩, outcome⟩ :=
    checkAndStoreEcmcache_cases ctimeout now grp cache er
  rcases outcome with
    ⟨ecm, listed, caid, digest, _, ⟨_, result⟩ | ⟨_, result⟩⟩ | result
  · rw [result]
    refine ⟨tagsKept_lookup, rfl, fun addr pointer => ?_⟩
    rw [show er.ecmcacheptr = some addr from pointer] at unbound
    cases unbound
  · rw [result]
    refine ⟨tagsKept_lookup, rfl, fun addr pointer => ?_⟩
    exact ⟨ecm, List.mem_append_left _ listed, Option.some.inj pointer, caid,
      digest⟩
  · rw [result]
    refine ⟨fun ecm member => ?_, rfl, fun addr pointer => ?_⟩
    · have walked : TagsKept cache (cache.lookup ctimeout now hit).1 :=
        tagsKept_lookup
      obtain ⟨later, listed, rest⟩ := walked ecm member
      exact ⟨later, List.mem_cons_of_mem _ listed, rest⟩
    · exact ⟨_, List.mem_cons_self, Option.some.inj pointer, rfl, rfl⟩

end EcmCache

namespace CarriesTag

variable {cache next : EcmCache} {er later : EcmRequest} {caid : Nat}

theorem mono (kept : TagsKept cache next) (tag : CarriesTag cache caid er) :
    CarriesTag next caid er := by
  intro addr pointer
  obtain ⟨ecm, member, sameAddr, sameCaid, sameDigest⟩ := tag addr pointer
  obtain ⟨entry, listed, keptAddr, keptCaid, keptDigest⟩ := kept ecm member
  exact ⟨entry, listed, keptAddr.trans sameAddr, keptCaid.trans sameCaid,
    keptDigest.trans sameDigest⟩

/-- The other fields of the request do not matter. -/
theorem changed (tag : CarriesTag cache caid er)
    (pointer : later.ecmcacheptr = er.ecmcacheptr)
    (digest : later.ecmd5 = er.ecmd5) : CarriesTag cache caid later := by
  intro addr points
  rw [digest]
  exact tag addr (pointer ▸ points)

end CarriesTag

namespace Tagged

open EcmCache Server

variable {cfg : Config} {s : Server} {c : ClientId} {r : ReaderId} {i : Nat}
  {er next : EcmRequest} {cache : EcmCache}

theorem withCache (tagged : Tagged s) (addressed : cache.WellAddressed)
    (kept : TagsKept s.cache cache) : Tagged { s with cache := cache } := by
  refine ⟨addressed, ?_⟩
  have keeps : ({ s with cache := cache } : Server).Keeps
      (taggedPlaces s.cache) := tagged.keeps.congr rfl rfl
  exact keeps.mono
    (fun _ _ _ slot pending => ⟨(slot pending).1, (slot pending).2.mono kept⟩)
    (fun _ tag => tag.mono kept) (fun _ tag => tag.mono kept)
    (fun _ tag => tag.mono kept)

theorem withStore (tagged : Tagged s) (now : Nat) (grp : Grp) (rc : Int)
    (tag : CarriesTag s.cache er.caid er) :
    Tagged { s with cache := storeCwInCache now grp rc er s.cache } :=
  tagged.withCache tagged.addressed.store
    (tagsKept_store tagged.addressed tag)

theorem slot (tagged : Tagged s)
    (found : (s.clients c).ecmtask[i]? = some er) (pending : e99 ≤ er.rc) :
    er.cpti = i ∧ CarriesTag s.cache er.caid er :=
  (tagged.keeps.clients c).1 i er found pending

theorem setSlot (tagged : Tagged s)
    (slot : e99 ≤ er.rc → er.cpti = i ∧ CarriesTag s.cache er.caid er) :
    Tagged (s.setSlot c i er) :=
  ⟨tagged.addressed, tagged.keeps.setSlot slot⟩

theorem deliver (tagged : Tagged s) (done : er.rc < e99) :
    Tagged (s.deliver c i er) :=
  ⟨tagged.addressed, tagged.keeps.deliver fun pending =>
    absurd (sendDcw_rc_lt done) (not_lt.mpr pending)⟩

theorem setTask (tagged : Tagged s) (task : CarriesTag s.cache er.ocaid er) :
    Tagged (s.setTask r i er) :=
  ⟨tagged.addressed, tagged.keeps.setTask task⟩

theorem sameTask_tag (same : SameTask er next)
    (tag : CarriesTag cache er.caid er) : CarriesTag cache next.caid next := by
  rw [same]
  exact tag.changed rfl rfl

theorem requestCw {flag types : Nat} (tagged : Tagged s)
    (tag : CarriesTag s.cache er.caid er) :
    Tagged (s.requestCw er flag types) :=
  ⟨tagged.addressed, tagged.keeps.requestCw
    (sameTask_tag (sameTask_leveled er flag types) tag)⟩

theorem askAgain {flag types : Nat} (tagged : Tagged s)
    (slot : er.cpti = i ∧ CarriesTag s.cache er.caid er) :
    Tagged (s.askAgain c i er flag types) := by
  refine Tagged.requestCw (tagged.setSlot fun _ => ⟨?_, ?_⟩) slot.2
  · rw [sameTask_leveled er flag types]
    exact slot.1
  · exact sameTask_tag (sameTask_leveled er flag types) slot.2

/-- A lookup for answered entries. -/
theorem looked (tagged : Tagged s) (ctimeout : Nat) (grp : Grp)
    (er : EcmRequest) :
    Tagged { s with cache := (checkCwcache2 ctimeout s.now grp s.cache er).1 } :=
  tagged.withCache tagged.addressed.lookup tagsKept_lookup

/-! ## The clients -/

theorem complete {ert : EcmRequest} (tagged : Tagged s) (done : ert.rc < e99)
    (tag : CarriesTag s.cache er.caid er) :
    Tagged (s.complete c er ert) := by
  have delivered : Tagged (s.deliver c er.cpti ert) := tagged.deliver done
  refine ⟨delivered.addressed, delivered.keeps.distributeEcm ?_⟩
  intro d _ _ _ slot _ _
  exact tag.changed rfl rfl

theorem chkDcw (tagged : Tagged s) (tag : CarriesTag s.cache er.caid er) :
    Tagged (s.chkDcw c er) := by
  rcases chkDcw_cases s c er with ⟨_, same⟩ | ⟨ert, found, pending, _, ways⟩
  · rw [same]
    exact tagged
  have slot := tagged.slot found pending
  rcases ways with ⟨_, same⟩ | ⟨_, _, same⟩ | ⟨_, _, same⟩
  · rw [same]
    refine tagged.complete ?_ tag
    simp only [foundSlot]
    split
    · rename_i kind
      rcases kind with kind | kind <;> rw [kind] <;> decide
    · decide
  · rw [same]
    exact tagged.setSlot fun _ => ⟨slot.1, slot.2.changed rfl rfl⟩
  · rw [same]
    have missTag : CarriesTag s.cache ert.caid
        { missedSlot er ert with rc := eNotfound } :=
      slot.2.changed rfl rfl
    have stored := tagged.withStore s.now (s.readerGrp er.selectedReader)
      eNotfound missTag
    refine stored.complete (show eNotfound < e99 by decide) ?_
    exact tag.mono (tagsKept_store tagged.addressed missTag)

theorem dispatch (tagged : Tagged s)
    (tag : CarriesTag s.cache er.caid er) :
    Tagged (dispatch cfg s c er) := by
  unfold Server.dispatch
  split
  · exact tagged.setSlot fun _ => ⟨rfl, tag⟩
  · rename_i answered
    split
    · rename_i rejected
      exact tagged.deliver (by
        simp only [e99, eUnhandled] at answered rejected ⊢
        omega)
    · dsimp only
      have changed : CarriesTag s.cache er.caid { er with rcEx := 0 } :=
        tag.changed rfl rfl
      refine Tagged.requestCw (tagged.setSlot fun _ => ⟨?_, ?_⟩) changed
      · unfold leveled
        split <;> rfl
      · exact sameTask_tag (sameTask_leveled _ _ _) changed

theorem withTask (tagged : Tagged s) : Tagged (s.withTask c i) := by
  refine ⟨tagged.addressed, tagged.keeps.withTask ?_ ?_⟩
  · intro j pending
    exact absurd pending (by decide)
  · exact fun _ => ⟨rfl, fun addr pointer => by cases pointer⟩

theorem request {checks : Checks} {asked : Asked} (tagged : Tagged s) :
    Tagged (s.request cfg checks c asked) := by
  rcases request_cases cfg checks s c asked with
    ⟨_, same⟩ | ⟨i, _, ⟨_, er, corrupt, same⟩ | ⟨_, _, same⟩ |
      ⟨_, er, prepared, same⟩⟩
  · rw [same]
    refine ⟨tagged.addressed, tagged.keeps.withTable fun j pending => ?_⟩
    exact absurd pending (by decide)
  · rw [same]
    refine tagged.withTask.setSlot fun pending => ?_
    rw [corrupt] at pending
    exact absurd pending (by decide)
  · rw [same]
    have allocated : Tagged (s.withTask c i) := tagged.withTask
    exact ⟨allocated.addressed, allocated.keeps.csDisconnect⟩
  · rw [same]
    have allocated : Tagged (s.withTask c i) := tagged.withTask
    unfold askCache
    split
    · obtain ⟨kept, _, tag⟩ := checkAndStore_tags
        cfg.ctimeout prepared.ecmcacheptr
      have looked := allocated.withCache allocated.addressed.checkAndStore kept
      exact looked.dispatch (tag.changed rfl rfl)
    · refine allocated.dispatch fun addr pointer => ?_
      have unbound := prepared.ecmcacheptr
      rw [show er.ecmcacheptr = some addr from pointer] at unbound
      cases unbound

theorem retry (tagged : Tagged s)
    (slot : er.cpti = i ∧ CarriesTag s.cache er.caid er) :
    Tagged (s.retry cfg c i er).1 := by
  unfold Server.retry
  split
  · have same := sameTask_earlyFallback cfg s er
    refine tagged.askAgain ⟨?_, sameTask_tag same slot.2⟩
    rw [same]
    exact slot.1
  · exact tagged

theorem expire (tagged : Tagged s)
    (slot : er.cpti = i ∧ CarriesTag s.cache er.caid er) :
    Tagged (s.expire c i er) := by
  unfold Server.expire
  split
  · unfold Server.timeOut
    exact (tagged.withStore _ _ _ (slot.2.changed rfl rfl)).deliver
      (show eTimeout < e99 by decide)
  · have staged : CarriesTag s.cache er.caid { er with stage := er.stage + 1 } :=
      slot.2.changed rfl rfl
    dsimp only
    split
    · exact tagged.askAgain ⟨slot.1, staged⟩
    · exact tagged.setSlot fun _ => ⟨slot.1, staged⟩

theorem sameTask_retry (cfg : Config) (s : Server) (c : ClientId) (i : Nat)
    (er : EcmRequest) : SameTask er (s.retry cfg c i er).2.1 := by
  unfold Server.retry
  split
  · exact (sameTask_earlyFallback cfg s er).trans (sameTask_leveled _ _ _)
  · exact sameTask_refl er

theorem retry_cache (cfg : Config) (s : Server) (c : ClientId) (i : Nat)
    (er : EcmRequest) : (s.retry cfg c i er).1.cache = s.cache := by
  unfold Server.retry
  split <;> rfl

theorem keepWaiting (tagged : Tagged s)
    (slot : er.cpti = i ∧ CarriesTag s.cache er.caid er) :
    Tagged (s.keepWaiting cfg c i er) := by
  unfold Server.keepWaiting
  dsimp only
  split
  · have same := sameTask_retry cfg s c i er
    refine (tagged.retry slot).expire ⟨?_, ?_⟩
    · rw [same]
      exact slot.1
    · rw [retry_cache]
      exact sameTask_tag same slot.2
  · exact tagged.retry slot

theorem pending (tagged : Tagged s) : Tagged (chkPendingSlot cfg c s i) := by
  unfold chkPendingSlot
  split
  · exact tagged
  · rename_i er found
    split
    · exact tagged
    · rename_i pending
      have slot := tagged.slot found (not_lt.mp pending)
      have looked := tagged.looked cfg.ctimeout (s.clients c).grp er
      have kept : CarriesTag (checkCwcache2 cfg.ctimeout s.now
          (s.clients c).grp s.cache er).1 er.caid er :=
        slot.2.mono tagsKept_lookup
      dsimp only
      split
      · exact looked.deliver (show eCache2 < e99 by decide)
      · exact looked.keepWaiting ⟨slot.1, kept⟩

/-! ## The readers -/

theorem answerOf_tag {rdr : Reader} (tag : CarriesTag cache er.ocaid er) :
    CarriesTag cache (answerOf r rdr er).caid (answerOf r rdr er) ∧
      CarriesTag cache (answerOf r rdr er).ocaid (answerOf r rdr er) := by
  unfold answerOf checkChecksum
  split
  · exact ⟨tag.changed rfl rfl, tag.changed rfl rfl⟩
  · split <;> exact ⟨tag.changed rfl rfl, tag.changed rfl rfl⟩

/-- What an answer leaves in the cache. -/
theorem tagsKept_writeEcmAnswer (tagged : Tagged s)
    (tag : CarriesTag s.cache er.ocaid er) :
    TagsKept s.cache (s.writeEcmAnswer r er).cache := by
  rw [writeEcmAnswer_eq]
  dsimp only
  split
  · exact tagsKept_store tagged.addressed (answerOf_tag tag).1
  · exact tagsKept_refl s.cache

theorem writeEcmAnswer (tagged : Tagged s)
    (tag : CarriesTag s.cache er.ocaid er) :
    Tagged (s.writeEcmAnswer r er) := by
  have answered : (s.writeEcmAnswer r er).Keeps (taggedPlaces s.cache) :=
    tagged.keeps.writeEcmAnswer (answerOf_tag tag).1
  have kept := tagged.tagsKept_writeEcmAnswer (r := r) tag
  refine ⟨?_, answered.mono
    (fun _ _ _ slot pending => ⟨(slot pending).1, (slot pending).2.mono kept⟩)
    (fun _ tag => tag.mono kept) (fun _ tag => tag.mono kept)
    (fun _ tag => tag.mono kept)⟩
  rw [writeEcmAnswer_eq]
  dsimp only
  split
  · exact tagged.addressed.store
  · exact tagged.addressed

theorem recordAnswer (tagged : Tagged s) : Tagged (s.recordAnswer r er) :=
  ⟨tagged.addressed, tagged.keeps.congr rfl rfl⟩

/-- A reader answers one of its tasks. -/
theorem answerAndSet (tagged : Tagged s)
    (tag : CarriesTag s.cache er.ocaid er)
    (later : next.ecmcacheptr = er.ecmcacheptr ∧ next.ecmd5 = er.ecmd5 ∧
      next.ocaid = er.ocaid) :
    Tagged ((s.writeEcmAnswer r er).setTask r i next) := by
  refine (tagged.writeEcmAnswer tag).setTask ?_
  have kept := tag.mono (tagged.tagsKept_writeEcmAnswer (r := r) tag)
  rw [later.2.2]
  exact kept.changed later.1 later.2.1

theorem answerOf_frame (r : ReaderId) (rdr : Reader) (er : EcmRequest) :
    (answerOf r rdr er).ecmcacheptr = er.ecmcacheptr ∧
      (answerOf r rdr er).ecmd5 = er.ecmd5 ∧
      (answerOf r rdr er).ocaid = er.ocaid := by
  unfold answerOf checkChecksum
  split
  · exact ⟨rfl, rfl, rfl⟩
  · split <;> exact ⟨rfl, rfl, rfl⟩

theorem dropTimeout_frame (cfg : Config) (now : Nat) (er : EcmRequest) :
    (dropTimeout cfg now er).ecmcacheptr = er.ecmcacheptr ∧
      (dropTimeout cfg now er).ecmd5 = er.ecmd5 ∧
      (dropTimeout cfg now er).ocaid = er.ocaid := by
  unfold dropTimeout
  split <;> exact ⟨rfl, rfl, rfl⟩

theorem task (tagged : Tagged s) (found : (s.readers r).ecmtask[i]? = some er) :
    CarriesTag s.cache er.ocaid er :=
  (tagged.keeps.readers r).2 er (List.mem_of_getElem? found)

theorem cascAnswered_tag {idx : Nat} {rc : Int} {cw : Cw}
    (tag : CarriesTag cache er.ocaid er) :
    CarriesTag cache (cascAnswered i idx rc cw er).ocaid
      (cascAnswered i idx rc cw er) := by
  unfold cascAnswered
  split <;> exact tag.changed rfl rfl

theorem cascCheckSlot {idx : Nat} {rc : Int} {cw : Cw} (tagged : Tagged s) :
    Tagged (cascCheckSlot cfg r idx rc cw s i) := by
  unfold Server.cascCheckSlot
  split
  · rename_i ecm asked found _
    have tag := tagged.task found
    split
    · refine tagged.recordAnswer.answerAndSet (cascAnswered_tag tag) ?_
      have dropped := dropTimeout_frame cfg s.now
        (answerOf r (s.readers r) (cascAnswered i idx rc cw ecm))
      have answered := answerOf_frame r (s.readers r)
        (cascAnswered i idx rc cw ecm)
      exact ⟨dropped.1.trans answered.1, dropped.2.1.trans answered.2.1,
        dropped.2.2.trans answered.2.2⟩
    · have dropped := dropTimeout_frame cfg s.now ecm
      refine tagged.setTask ?_
      rw [dropped.2.2]
      exact tag.changed dropped.1 dropped.2.1
  · exact tagged

theorem cascCheckDcw {idx : Nat} {rc : Int} {cw : Cw} (tagged : Tagged s) :
    Tagged (s.cascCheckDcw cfg r idx rc cw) := by
  unfold Server.cascCheckDcw
  generalize List.range csMaxpending = slots
  induction slots generalizing s with
  | nil => exact tagged
  | cons i slots induction => exact induction tagged.cascCheckSlot

theorem cascProcessEcm {handling : Handling} (tagged : Tagged s)
    (tag : CarriesTag s.cache er.ocaid er) :
    Tagged (s.cascProcessEcm cfg handling r er) := by
  have dropped : Tagged (s.modifyReader r fun rdr =>
      { rdr with ecmtask := s.freshTasks cfg r }) := by
    refine ⟨tagged.addressed, tagged.keeps.modifyReader
      ⟨(tagged.keeps.readers r).1, fun task member => ?_⟩⟩
    obtain ⟨old, listed, rfl⟩ := List.mem_map.mp member
    have frame := dropTimeout_frame cfg s.now old
    have known : CarriesTag s.cache old.ocaid old :=
      (tagged.keeps.readers r).2 old listed
    show CarriesTag s.cache (dropTimeout cfg s.now old).ocaid _
    rw [frame.2.2]
    exact known.changed frame.1 frame.2.1
  have pendingTag : CarriesTag s.cache er.ocaid
      { er with matchingRdr := [], rc := taskPending } :=
    tag.changed rfl rfl
  unfold Server.cascProcessEcm
  dsimp only
  split
  · exact dropped
  · rename_i n _
    have listed := dropped.setTask (r := r) (i := n) pendingTag
    split
    · exact listed.cascCheckDcw
    · exact listed

theorem readerGetEcm {handling : Handling} (tagged : Tagged s)
    (tag : CarriesTag s.cache er.caid er) :
    Tagged (s.readerGetEcm cfg handling r er) := by
  unfold Server.readerGetEcm
  split
  · exact tagged
  · dsimp only
    split
    · exact tagged.writeEcmAnswer (tag.changed rfl rfl)
    · rename_i caid _
      have looked := tagged.looked cfg.ctimeout (s.readers r).grp
        { er with ocaid := er.caid, caid := caid }
      have kept : CarriesTag (checkCwcache2 cfg.ctimeout s.now
          (s.readers r).grp s.cache
          { er with ocaid := er.caid, caid := caid }).1 er.caid er :=
        tag.mono tagsKept_lookup
      split
      · rename_i hit found
        obtain ⟨_, _, _, _, _, same⟩ :=
          (checkCwcache1_cases _ _ _ _ _).2 hit found
        refine looked.writeEcmAnswer ?_
        rw [same]
        exact kept.changed rfl rfl
      · split
        · exact looked.cascProcessEcm (kept.changed rfl rfl)
        · refine looked.recordAnswer.writeEcmAnswer ?_
          unfold localAnswer
          split <;> exact kept.changed rfl rfl

theorem directAnswer {rcEx : Nat} {cw : Option Cw} (tagged : Tagged s) :
    Tagged (s.directAnswer r i rcEx cw) := by
  unfold Server.directAnswer
  split
  · exact tagged
  · rename_i task found
    split
    · exact tagged
    · have tag := tagged.task found
      cases cw with
      | none =>
          exact tagged.answerAndSet (tag.changed rfl rfl)
            (answerOf_frame _ _ _)
      | some cw =>
          exact tagged.answerAndSet (tag.changed rfl rfl)
            (answerOf_frame _ _ _)

/-! ## Every run -/

theorem started (start : Started s) : Tagged s := by
  refine ⟨start.cache ▸ wellAddressed_empty, keeps_started start ?_⟩
  exact fun addr pointer => by cases pointer

theorem step (tagged : Tagged s) (event : Event) :
    Tagged (s.step cfg event) := by
  cases event with
  | advance ms => exact ⟨tagged.addressed, tagged.keeps.congr rfl rfl⟩
  | connect c multi grp =>
      unfold Server.step
      dsimp only
      split
      · exact tagged
      · exact ⟨tagged.addressed, tagged.keeps.csConnect⟩
  | disconnect c => exact ⟨tagged.addressed, tagged.keeps.csDisconnect⟩
  | request c checks asked =>
      unfold Server.step
      dsimp only
      split
      · exact tagged.request
      · exact tagged
  | takePipe c =>
      unfold Server.step
      dsimp only
      split
      · exact tagged
      · rename_i er rest oldest
        have member : er ∈ (s.clients c).pipe := by simp [oldest]
        have popped : Tagged (s.popClient c) :=
          ⟨tagged.addressed, tagged.keeps.popClient⟩
        exact popped.chkDcw ((tagged.keeps.clients c).2 er member)
  | pending c i => exact tagged.pending
  | readerTakePipe r handling =>
      unfold Server.step
      dsimp only
      split
      · exact tagged
      · rename_i er rest oldest
        have member : er ∈ (s.readers r).pipe := by simp [oldest]
        have popped : Tagged (s.popReader r) :=
          ⟨tagged.addressed, tagged.keeps.popReader⟩
        exact popped.readerGetEcm ((tagged.keeps.readers r).1 er member)
  | cascCheck r idx rc cw i => exact tagged.cascCheckSlot
  | direct r i rcEx cw => exact tagged.directAnswer
  | dropTask r i =>
      unfold Server.step Server.dropTask
      dsimp only
      split
      · exact tagged
      · rename_i task found
        exact tagged.setTask ((tagged.task found).changed rfl rfl)

theorem reached {guard : Server → Event → Prop}
    (run : StepSystem.Reach (Server.step cfg) guard Started s) : Tagged s :=
  run.invariant (fun _ start => Tagged.started start)
    (fun _ event tagged _ => tagged.step event)

end Tagged

end Oscam
