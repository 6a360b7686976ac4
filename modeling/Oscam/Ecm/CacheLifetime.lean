import Oscam.Ecm.Cache
import Oscam.Lib.Reach

/-!
# How long a request may write through its cache pointer

Lookups take entries out of the cache by the age of the entry, while
`store_cw_in_cache` decides by the age of the request whether the pointer of
the request still leads to a member.  This file follows both ages through
arbitrary runs of lookups, stores and clock advances.  Every copy of a request
that was ever made stays available, so that a store may use any of them,
whether or not its client is still there.
-/

namespace Oscam

/-- The cache, the clock in milliseconds and the requests made so far, with
every version a lookup has left of them. -/
structure CacheRun where
  cache : EcmCache
  now : Nat
  requests : List EcmRequest
  deriving DecidableEq, Repr

inductive CacheEvent where
  | advance (ms : Nat)
  | request (er : EcmRequest)
  | checkAndStore (index : Nat) (grp : Grp)
  | checkCwcache1 (index : Nat) (grp : Grp)
  | store (index : Nat) (grp : Grp) (rc : Int) (cw : Cw)
      (reader : Option ReaderId)
  deriving Repr

namespace CacheRun

open EcmCache StepSystem

def start (now : Nat) : CacheRun :=
  { cache := EcmCache.empty, now := now, requests := [] }

/-- A request as `get_ecmtask` dates it: it belongs to no entry yet. -/
def dated (run : CacheRun) (er : EcmRequest) : EcmRequest :=
  { er with tps := Timeb.ofMs run.now, ecmcacheptr := none }

def step (ctimeout : Nat) (run : CacheRun) : CacheEvent → CacheRun
  | .advance ms => { run with now := run.now + ms }
  | .request er => { run with requests := run.dated er :: run.requests }
  | .checkAndStore index grp =>
      match run.requests[index]? with
      | none => run
      | some er =>
          let result :=
            checkAndStoreEcmcache ctimeout run.now grp run.cache er
          { run with
            cache := result.1
            requests := result.2.1 :: run.requests }
  | .checkCwcache1 index grp =>
      match run.requests[index]? with
      | none => run
      | some er =>
          let result := Oscam.checkCwcache1 ctimeout run.now grp run.cache er
          { run with
            cache := result.1
            requests := result.2.toList ++ run.requests }
  | .store index grp rc cw reader =>
      match run.requests[index]? with
      | none => run
      | some er =>
          { run with
            cache := storeCwInCache run.now grp rc
              { er with cw := cw, selectedReader := reader } run.cache }

/-- A store that passes the age test now would write into the list. -/
def StoresIntoMembers (run : CacheRun) : Prop :=
  ∀ er ∈ run.requests, ∀ (rc : Int) (cw : Cw) (reader : Option ReaderId) ecm,
    storeTarget run.now run.cache
        { er with cw := cw, selectedReader := reader } rc = some ecm →
      run.cache.Live ecm.addr

/-- A request that joins an entry is at most one second and the client timeout
younger than that entry. -/
def JoinsYoungEntry (ctimeout : Nat) (run : CacheRun) : CacheEvent → Prop
  | .checkAndStore index grp =>
      ∀ er ∈ run.requests[index]?,
        ∀ ecm ∈ run.cache.waitingEntry ctimeout run.now grp er,
          er.tps.time ≤ ecm.time + (ctimeout / 1000 : Nat) + 1
  | _ => True

instance (ctimeout : Nat) (run : CacheRun) (event : CacheEvent) :
    Decidable (run.JoinsYoungEntry ctimeout event) := by
  cases event <;> simp only [JoinsYoungEntry] <;> infer_instance

/-! ## The invariant -/

variable {ctimeout : Nat} {run : CacheRun} {er : EcmRequest} {addr : Nat}

/-- The entry at `addr` is a member that outlives the request, or the request
is too old to store. -/
def PointerSafe (ctimeout now : Nat) (cache : EcmCache) (er : EcmRequest)
    (addr : Nat) : Prop :=
  (∃ ecm ∈ cache.entries, ecm.addr = addr ∧
      er.tps.time ≤ ecm.time + (ctimeout / 1000 : Nat) + 1) ∨
    er.tps.time + csCacheTimeout ≤ (Timeb.ofMs now).time

structure Sound (ctimeout : Nat) (run : CacheRun) : Prop where
  addressed : run.cache.WellAddressed
  past : ∀ er ∈ run.requests, er.tps.time ≤ (Timeb.ofMs run.now).time
  pointers : ∀ er ∈ run.requests, ∀ addr, er.ecmcacheptr = some addr →
    PointerSafe ctimeout run.now run.cache er addr

theorem sound_start (ctimeout now : Nat) : Sound ctimeout (start now) :=
  { addressed := wellAddressed_empty
    past := by simp [start]
    pointers := by simp [start] }

theorem ofMs_time_mono {before after : Nat} (later : before ≤ after) :
    (Timeb.ofMs before).time ≤ (Timeb.ofMs after).time := by
  simp only [Timeb.ofMs]
  exact_mod_cast Nat.div_le_div_right later

theorem PointerSafe.advance {before after : Nat} {cache : EcmCache}
    (later : before ≤ after)
    (safe : PointerSafe ctimeout before cache er addr) :
    PointerSafe ctimeout after cache er addr := by
  rcases safe with live | old
  · exact .inl live
  · exact .inr (old.trans (ofMs_time_mono later))

/-- A lookup takes an entry out only when the requests that wait for it are
too old to store. -/
theorem PointerSafe.lookup {now : Nat} {cache : EcmCache} {hit : SEcm → Bool}
    (safe : PointerSafe ctimeout now cache er addr) :
    PointerSafe ctimeout now (cache.lookup ctimeout now hit).1 er addr := by
  rcases safe with ⟨ecm, member, same, young⟩ | old
  · rcases mem_lookup_entries member with kept | stale
    · exact .inl ⟨ecm, kept, same, young⟩
    · right
      simp only [csCacheTimeout] at stale ⊢
      omega
  · exact .inr old

theorem PointerSafe.cons {now : Nat} {cache : EcmCache} {ecm : SEcm}
    {next : Nat} (safe : PointerSafe ctimeout now cache er addr) :
    PointerSafe ctimeout now
      { cache with entries := ecm :: cache.entries, nextAddr := next }
      er addr := by
  rcases safe with ⟨old, member, rest⟩ | old
  · exact .inl ⟨old, List.mem_cons_of_mem ecm member, rest⟩
  · exact .inr old

/-- A store refreshes the entry it writes and leaves the others alone. -/
theorem PointerSafe.store {now : Nat} {cache : EcmCache} {grp : Grp}
    {rc : Int} {stored : EcmRequest}
    (past : er.tps.time ≤ (Timeb.ofMs now).time)
    (safe : PointerSafe ctimeout now cache er addr) :
    PointerSafe ctimeout now (storeCwInCache now grp rc stored cache)
      er addr := by
  rcases safe with ⟨ecm, member, same, young⟩ | old
  · left
    have stays : ecm ∈ (storeCwInCache now grp rc stored cache).entries ∨
        ecm.filled now stored grp rc ∈
          (storeCwInCache now grp rc stored cache).entries :=
      mem_entries_store member
    rcases stays with kept | written
    · exact ⟨ecm, kept, same, young⟩
    · refine ⟨_, written, same, ?_⟩
      simp only [SEcm.filled]
      omega
  · exact .inr old

/-- What a step may do to the cache without endangering any pointer. -/
theorem Sound.of_cache {cache : EcmCache} {requests : List EcmRequest}
    (sound : Sound ctimeout run) (addressed : cache.WellAddressed)
    (safe : ∀ er ∈ run.requests, ∀ addr,
      PointerSafe ctimeout run.now run.cache er addr →
        PointerSafe ctimeout run.now cache er addr)
    (added : ∀ er ∈ requests, er ∈ run.requests ∨
      er.tps.time ≤ (Timeb.ofMs run.now).time ∧
        ∀ addr, er.ecmcacheptr = some addr →
          PointerSafe ctimeout run.now cache er addr) :
    Sound ctimeout { run with cache := cache, requests := requests } := by
  refine { addressed := addressed, past := ?_, pointers := ?_ }
  · intro er member
    rcases added er member with old | ⟨past, _⟩
    · exact sound.past er old
    · exact past
  · intro er member addr pointer
    rcases added er member with old | ⟨_, pointed⟩
    · exact safe er old addr (sound.pointers er old addr pointer)
    · exact pointed addr pointer

theorem Sound.checkAndStore {grp : Grp} (sound : Sound ctimeout run)
    (member : er ∈ run.requests)
    (young : ∀ ecm ∈ run.cache.waitingEntry ctimeout run.now grp er,
      er.tps.time ≤ ecm.time + (ctimeout / 1000 : Nat) + 1) :
    let result := checkAndStoreEcmcache ctimeout run.now grp run.cache er
    Sound ctimeout
      { run with
        cache := result.1
        requests := result.2.1 :: run.requests } := by
  have past := sound.past er member
  have addressed : (checkAndStoreEcmcache ctimeout run.now grp run.cache
      er).1.WellAddressed :=
    sound.addressed.checkAndStore
  obtain ⟨walked, ⟨hit, rfl⟩, outcome⟩ :=
    checkAndStoreEcmcache_cases ctimeout run.now grp run.cache er
  rcases outcome with
    ⟨ecm, listed, _, _, _, ⟨_, result⟩ | ⟨waiting, result⟩⟩ | result
  · -- answered at once: the request keeps the pointer it had
    rw [result] at addressed ⊢
    refine sound.of_cache addressed (fun _ _ _ safe => safe.lookup) ?_
    intro next nextMember
    rcases List.mem_cons.mp nextMember with rfl | old
    · exact .inr ⟨past, fun addr pointer =>
        (sound.pointers er member addr pointer).lookup⟩
    · exact .inl old
  · -- joined: the entry is a member and the guard relates the two ages
    rw [result] at addressed ⊢
    refine sound.of_cache addressed (fun _ _ _ safe => safe.lookup) ?_
    intro next nextMember
    rcases List.mem_cons.mp nextMember with rfl | old
    · refine .inr ⟨past, fun addr pointer => ?_⟩
      exact .inl ⟨ecm, listed, Option.some.inj pointer, young ecm waiting⟩
    · exact .inl old
  · -- created: the entry is as old as the clock
    rw [result] at addressed ⊢
    refine sound.of_cache addressed (fun _ _ _ safe => safe.lookup.cons) ?_
    intro next nextMember
    rcases List.mem_cons.mp nextMember with rfl | old
    · refine .inr ⟨past, fun addr pointer => ?_⟩
      refine .inl ⟨_, List.mem_cons_self, Option.some.inj pointer, ?_⟩
      simp only [fresh]
      omega
    · exact .inl old

theorem Sound.step {event : CacheEvent} (sound : Sound ctimeout run)
    (young : run.JoinsYoungEntry ctimeout event) :
    Sound ctimeout (run.step ctimeout event) := by
  cases event with
  | advance ms =>
      have later : run.now ≤ run.now + ms := Nat.le_add_right _ _
      exact
        { addressed := sound.addressed
          past := fun er member =>
            (sound.past er member).trans (ofMs_time_mono later)
          pointers := fun er member addr pointer =>
            (sound.pointers er member addr pointer).advance later }
  | request er =>
      refine sound.of_cache sound.addressed (fun _ _ _ safe => safe) ?_
      intro next member
      rcases List.mem_cons.mp member with rfl | old
      · exact .inr ⟨le_refl _, by simp [dated]⟩
      · exact .inl old
  | checkAndStore index grp =>
      cases picked : run.requests[index]? with
      | none => simpa only [CacheRun.step, picked] using sound
      | some er =>
          simp only [CacheRun.step, picked]
          exact sound.checkAndStore (List.mem_of_getElem? picked)
            (young er picked)
  | checkCwcache1 index grp =>
      cases picked : run.requests[index]? with
      | none => simpa only [CacheRun.step, picked] using sound
      | some er =>
          simp only [CacheRun.step, picked]
          have member := List.mem_of_getElem? picked
          obtain ⟨⟨hit, walked⟩, answered⟩ :=
            checkCwcache1_cases ctimeout run.now grp run.cache er
          rw [walked]
          refine sound.of_cache sound.addressed.lookup
            (fun _ _ _ safe => safe.lookup) ?_
          intro next nextMember
          rcases List.mem_append.mp nextMember with new | old
          · obtain ⟨ecm, _, _, _, _, rfl⟩ :=
              answered next (Option.mem_toList.mp new)
            exact .inr ⟨sound.past er member, fun addr pointer =>
              (sound.pointers er member addr pointer).lookup⟩
          · exact .inl old
  | store index grp rc cw reader =>
      cases picked : run.requests[index]? with
      | none => simpa only [CacheRun.step, picked] using sound
      | some er =>
          simp only [CacheRun.step, picked]
          exact sound.of_cache sound.addressed.store
            (fun next member _ safe => safe.store (sound.past next member))
            (fun _ member => .inl member)

theorem Sound.storesIntoMembers (sound : Sound ctimeout run) :
    run.StoresIntoMembers := by
  intro er member rc cw reader ecm target
  obtain ⟨passes, pointer, inHeap, _⟩ := storeTarget_some target
  rcases sound.pointers er member ecm.addr pointer with
    ⟨entry, listed, same, _⟩ | old
  · exact ⟨entry, listed, same⟩
  · simp only [ageTestPasses] at passes
    omega

/-! ## Every run -/

/-- As long as no request joins an entry that is more than one second and the
client timeout older than the request, no store writes to a removed entry. -/
theorem stores_into_members (ctimeout begun : Nat) {run : CacheRun}
    (reached : Reach (step ctimeout) (JoinsYoungEntry ctimeout)
      (· = start begun) run) :
    run.StoresIntoMembers := by
  have sound : Sound ctimeout run := reached.invariant
    (fun _ begin => begin ▸ sound_start ctimeout begun)
    (fun _ _ kept young => kept.step young)
  exact sound.storesIntoMembers

/-- One client creates the entry, a second one joins it four seconds later,
and the first answer is stored. -/
theorem stores_into_members_joined :
    (([.request EcmRequest.zero, .checkAndStore 0 0, .advance 4000,
        .request EcmRequest.zero, .checkAndStore 0 0,
        .store 0 1 eFound Cw.zero none] : List CacheEvent).foldl
      (step 5000) (start 1000000)).StoresIntoMembers := by
  have young : Along (step 5000) (JoinsYoungEntry 5000) (start 1000000)
      [.request EcmRequest.zero, .checkAndStore 0 0, .advance 4000,
        .request EcmRequest.zero, .checkAndStore 0 0,
        .store 0 1 eFound Cw.zero none] := by
    decide
  exact stores_into_members 5000 1000000 (.ofRun young)

/-- A request of an abandoned ECM joins the entry 64 seconds later; six
seconds on, a lookup removes the entry, and the time-out of that request is
still stored in it. -/
theorem store_into_removed_entry :
    ¬ ∀ (ctimeout begun : Nat) (events : List CacheEvent),
      (events.foldl (step ctimeout) (start begun)).StoresIntoMembers := by
  intro always
  let events : List CacheEvent :=
    [.request EcmRequest.zero, .checkAndStore 0 0, .advance 64000,
      .request EcmRequest.zero, .checkAndStore 0 0, .advance 6000,
      .request { EcmRequest.zero with caid := 1 }, .checkCwcache1 0 0]
  let joined := { EcmRequest.zero with
    tps := { time := 1064, millitm := 0 }, ecmcacheptr := some 0 }
  let entry : SEcm :=
    { addr := 0, ecmd5 := 0, cw := Cw.zero, caid := 0, grp := 0
      reader := none, rc := e99, time := 1000 }
  have member :
      joined ∈ (events.foldl (step 5000) (start 1000000)).requests := by
    decide
  have live := always 5000 1000000 events joined member eTimeout Cw.zero none
    entry (by decide)
  revert live
  decide

end CacheRun

end Oscam
