import Oscam.Globals
import Oscam.Lib.PurgeSearch

/-!
# The cache of ECM answers

`ecmcache` of `oscam.c`: the two lookups and the store.  Entries have an
address, which requests keep in `ecmcacheptr`.  An entry taken out of the list
stays in `removed`, so that a store through an old pointer can be told from a
store into a member of the list.
-/

namespace Oscam

/-- `struct s_ecm`, with its address. -/
structure SEcm where
  addr : Nat
  ecmd5 : Digest
  cw : Cw
  caid : Nat
  grp : Grp
  reader : Option ReaderId
  rc : Int
  time : Int
  deriving DecidableEq, Repr

/-- `entries` is the list `ecmcache`, `removed` what lookups took out of it. -/
structure EcmCache where
  entries : List SEcm
  removed : List SEcm
  nextAddr : Nat
  deriving DecidableEq, Repr

namespace EcmCache

def empty : EcmCache :=
  { entries := [], removed := [], nextAddr := 0 }

/-- Every entry ever allocated. -/
def heap (cache : EcmCache) : List SEcm :=
  cache.entries ++ cache.removed

def deref (cache : EcmCache) (addr : Nat) : Option SEcm :=
  cache.heap.find? (·.addr == addr)

/-- The entry at `addr` is a member of the list. -/
def Live (cache : EcmCache) (addr : Nat) : Prop :=
  ∃ ecm ∈ cache.entries, ecm.addr = addr

instance (cache : EcmCache) (addr : Nat) : Decidable (cache.Live addr) :=
  inferInstanceAs (Decidable (∃ ecm ∈ cache.entries, ecm.addr = addr))

/-- The group test of both lookups: a client without groups sees all. -/
def groupFits (grp : Grp) (ecm : SEcm) : Bool :=
  grp == 0 || grp &&& ecm.grp != 0

/-- The list walk of both lookups: entries older than the client timeout and
`CS_CACHE_TIMEOUT` are taken out until `hit` finds an entry. -/
def lookup (ctimeout now : Nat) (hit : SEcm → Bool) (cache : EcmCache) :
    EcmCache × Option SEcm :=
  let timeout : Int :=
    (Timeb.ofMs now).time - (ctimeout / 1000 : Nat) - csCacheTimeout
  let walk := PurgeSearch.search (fun ecm => ecm.time < timeout) hit
    cache.entries
  ({ cache with
      entries := walk.kept
      removed := walk.dropped ++ cache.removed },
    walk.found)

end EcmCache

/-- `check_and_store_ecmcache`: the cache and the request afterwards, and the
return code.  A request that hits an unanswered entry is told to wait for it,
a miss creates the entry. -/
def checkAndStoreEcmcache (ctimeout now : Nat) (grp : Grp)
    (cache : EcmCache) (er : EcmRequest) : EcmCache × EcmRequest × Int :=
  let walk := cache.lookup ctimeout now fun ecm =>
    EcmCache.groupFits grp ecm && ecm.caid == er.caid &&
      ecm.ecmd5 == er.ecmd5
  match walk.2 with
  | some ecm =>
      let er := { er with cw := ecm.cw, selectedReader := ecm.reader }
      if ecm.rc = eFound then (walk.1, er, eCache1)
      else (walk.1, { er with ecmcacheptr := some ecm.addr }, ecm.rc)
  | none =>
      let ecm : SEcm :=
        { addr := walk.1.nextAddr, ecmd5 := er.ecmd5, cw := Cw.zero
          caid := er.caid, grp := grp, reader := none, rc := e99
          time := (Timeb.ofMs now).time }
      ({ walk.1 with
          entries := ecm :: walk.1.entries
          nextAddr := walk.1.nextAddr + 1 },
        { er with ecmcacheptr := some ecm.addr }, eUnhandled)

/-- `check_cwcache1`: only entries answered as found are hit; the request
takes their control word. -/
def checkCwcache1 (ctimeout now : Nat) (grp : Grp)
    (cache : EcmCache) (er : EcmRequest) : EcmCache × Option EcmRequest :=
  let walk := cache.lookup ctimeout now fun ecm =>
    ecm.rc == eFound && ecm.caid == er.caid &&
      EcmCache.groupFits grp ecm && ecm.ecmd5 == er.ecmd5
  (walk.1,
    walk.2.map fun ecm =>
      { er with cw := ecm.cw, selectedReader := ecm.reader })

/-- `check_cwcache2`, the lookup of the readers, is `check_cwcache1`. -/
def checkCwcache2 (ctimeout now : Nat) (grp : Grp)
    (cache : EcmCache) (er : EcmRequest) : EcmCache × Option EcmRequest :=
  checkCwcache1 ctimeout now grp cache er

/-- What `store_cw_in_cache` leaves in an entry it writes. -/
def SEcm.filled (ecm : SEcm) (now : Nat) (er : EcmRequest) (grp : Grp)
    (rc : Int) : SEcm :=
  { ecm with
    ecmd5 := er.ecmd5, cw := er.cw, caid := er.caid, grp := grp
    reader := er.selectedReader, rc := rc, time := (Timeb.ofMs now).time }

namespace EcmCache

def write (cache : EcmCache) (addr : Nat) (ecm : SEcm) : EcmCache :=
  let put := fun old : SEcm => if old.addr = addr then ecm else old
  { cache with
    entries := cache.entries.map put
    removed := cache.removed.map put }

end EcmCache

/-- The age test of `store_cw_in_cache`: an older request is taken to have
lost its entry. -/
def ageTestPasses (now : Nat) (er : EcmRequest) : Prop :=
  (Timeb.ofMs now).time - er.tps.time - csCacheTimeout < 0

instance (now : Nat) (er : EcmRequest) : Decidable (ageTestPasses now er) :=
  inferInstanceAs (Decidable (_ < _))

/-- The entry `store_cw_in_cache` writes, if it gets that far. -/
def storeTarget (now : Nat) (cache : EcmCache) (er : EcmRequest) (rc : Int) :
    Option SEcm :=
  if ageTestPasses now er then
    (er.ecmcacheptr.bind cache.deref).filter fun ecm => rc < ecm.rc
  else none

/-- `store_cw_in_cache`, without the double check. -/
def storeCwInCache (now : Nat) (grp : Grp) (rc : Int) (er : EcmRequest)
    (cache : EcmCache) : EcmCache :=
  match storeTarget now cache er rc with
  | none => cache
  | some ecm => cache.write ecm.addr (ecm.filled now er grp rc)

namespace EcmCache

variable {ctimeout now : Nat} {grp : Grp} {cache : EcmCache}
  {er : EcmRequest} {hit : SEcm → Bool} {ecm : SEcm} {rc : Int}

/-! ## What the list walk does -/

theorem lookup_heap_perm (ctimeout now : Nat) (hit : SEcm → Bool)
    (cache : EcmCache) :
    (cache.lookup ctimeout now hit).1.heap.Perm cache.heap := by
  simp only [heap, lookup, ← List.append_assoc]
  exact (PurgeSearch.kept_append_dropped_perm _ _ _).append_right _

theorem mem_heap_lookup :
    ecm ∈ (cache.lookup ctimeout now hit).1.heap ↔ ecm ∈ cache.heap :=
  (lookup_heap_perm ctimeout now hit cache).mem_iff

theorem lookup_found (result : (cache.lookup ctimeout now hit).2 = some ecm) :
    ecm ∈ (cache.lookup ctimeout now hit).1.entries ∧
      (Timeb.ofMs now).time - (ctimeout / 1000 : Nat) - csCacheTimeout ≤
        ecm.time ∧
      hit ecm = true := by
  obtain ⟨member, fresh, matched⟩ := PurgeSearch.found_spec result
  exact ⟨member, by simpa using fresh, matched⟩

/-- A member leaves the list only by its age. -/
theorem mem_lookup_entries (member : ecm ∈ cache.entries) :
    ecm ∈ (cache.lookup ctimeout now hit).1.entries ∨
      ecm.time <
        (Timeb.ofMs now).time - (ctimeout / 1000 : Nat) - csCacheTimeout := by
  rcases PurgeSearch.mem_kept_or_dropped member with kept | dropped
  · exact .inl kept
  · have old := PurgeSearch.stale_of_mem_dropped dropped
    exact .inr (by simpa using old)

/-! ## Addresses -/

/-- Entries have different addresses, all below the next one handed out. -/
structure WellAddressed (cache : EcmCache) : Prop where
  nodup : (cache.heap.map SEcm.addr).Nodup
  below : ∀ ecm ∈ cache.heap, ecm.addr < cache.nextAddr

theorem wellAddressed_empty : WellAddressed EcmCache.empty :=
  ⟨List.nodup_nil, by simp [heap, empty]⟩

theorem WellAddressed.lookup (addressed : WellAddressed cache) :
    WellAddressed (cache.lookup ctimeout now hit).1 := by
  constructor
  · exact ((lookup_heap_perm ctimeout now hit cache).map _).nodup_iff.mpr
      addressed.nodup
  · intro ecm member
    exact addressed.below ecm (mem_heap_lookup.mp member)

theorem deref_some {addr : Nat} (result : cache.deref addr = some ecm) :
    ecm ∈ cache.heap ∧ ecm.addr = addr := by
  refine ⟨List.mem_of_find?_eq_some result, ?_⟩
  simpa using List.find?_some result

theorem WellAddressed.eq_of_addr (addressed : WellAddressed cache)
    {left right : SEcm} (leftMember : left ∈ cache.heap)
    (rightMember : right ∈ cache.heap) (same : left.addr = right.addr) :
    left = right :=
  List.inj_on_of_nodup_map addressed.nodup leftMember rightMember same

/-! ## What a store does -/

theorem storeTarget_some (result : storeTarget now cache er rc = some ecm) :
    ageTestPasses now er ∧ er.ecmcacheptr = some ecm.addr ∧
      ecm ∈ cache.heap ∧ rc < ecm.rc := by
  unfold storeTarget at result
  split at result
  · rename_i young
    rw [Option.filter_eq_some_iff, Option.bind_eq_some_iff] at result
    obtain ⟨⟨addr, pointer, found⟩, better⟩ := result
    obtain ⟨member, same⟩ := deref_some found
    exact ⟨young, by rw [pointer, same], member, by simpa using better⟩
  · cases result

theorem heap_write (cache : EcmCache) (addr : Nat) (ecm : SEcm) :
    (cache.write addr ecm).heap =
      cache.heap.map fun old => if old.addr = addr then ecm else old := by
  simp [heap, write]

@[simp] theorem storeCwInCache_nextAddr :
    (storeCwInCache now grp rc er cache).nextAddr = cache.nextAddr := by
  unfold storeCwInCache
  split <;> rfl

/-- An entry after a store is an old one or the written one. -/
theorem mem_heap_store
    (member : ecm ∈ (storeCwInCache now grp rc er cache).heap) :
    ecm ∈ cache.heap ∨
      ∃ old, storeTarget now cache er rc = some old ∧
        ecm = old.filled now er grp rc := by
  unfold storeCwInCache at member
  split at member
  · exact .inl member
  · rename_i old target
    rw [heap_write] at member
    obtain ⟨origin, originMember, image⟩ := List.mem_map.mp member
    by_cases same : origin.addr = old.addr
    · rw [if_pos same] at image
      exact .inr ⟨old, target, image.symm⟩
    · rw [if_neg same] at image
      exact .inl (image ▸ originMember)

/-- A store keeps the addresses of the entries and of the members. -/
theorem map_addr_store (place : EcmCache → List SEcm)
    (mapped : ∀ addr ecm, place (cache.write addr ecm) =
      (place cache).map fun old => if old.addr = addr then ecm else old) :
    (place (storeCwInCache now grp rc er cache)).map SEcm.addr =
      (place cache).map SEcm.addr := by
  unfold storeCwInCache
  split
  · rfl
  · rename_i old target
    rw [mapped, List.map_map]
    apply List.map_congr_left
    intro origin _
    by_cases same : origin.addr = old.addr
    · simp [same, SEcm.filled]
    · simp [same]

theorem map_addr_heap_store :
    (storeCwInCache now grp rc er cache).heap.map SEcm.addr =
      cache.heap.map SEcm.addr :=
  map_addr_store heap (heap_write cache)

theorem WellAddressed.store (addressed : WellAddressed cache) :
    WellAddressed (storeCwInCache now grp rc er cache) := by
  constructor
  · rw [map_addr_heap_store]
    exact addressed.nodup
  · intro ecm member
    have listed : ecm.addr ∈ cache.heap.map SEcm.addr := by
      rw [← map_addr_heap_store]
      exact List.mem_map_of_mem member
    obtain ⟨old, oldMember, same⟩ := List.mem_map.mp listed
    rw [storeCwInCache_nextAddr, ← same]
    exact addressed.below old oldMember

/-- A member stays a member: a store leaves it alone or fills it. -/
theorem mem_entries_store (member : ecm ∈ cache.entries) :
    ecm ∈ (storeCwInCache now grp rc er cache).entries ∨
      ecm.filled now er grp rc ∈
        (storeCwInCache now grp rc er cache).entries := by
  unfold storeCwInCache
  split
  · exact .inl member
  · rename_i target result
    have image := List.mem_map_of_mem
      (f := fun old => if old.addr = target.addr then
        target.filled now er grp rc else old) member
    by_cases same : ecm.addr = target.addr
    · right
      have filled : target.filled now er grp rc = ecm.filled now er grp rc := by
        simp [SEcm.filled, same]
      rw [if_pos same, filled] at image
      rw [filled]
      exact image
    · left
      rw [if_neg same] at image
      exact image

/-! ## What the lookups return -/

/-- The entry a miss of `check_and_store_ecmcache` creates. -/
def fresh (cache : EcmCache) (now : Nat) (grp : Grp) (er : EcmRequest) :
    SEcm :=
  { addr := cache.nextAddr, ecmd5 := er.ecmd5, cw := Cw.zero
    caid := er.caid, grp := grp, reader := none, rc := e99
    time := (Timeb.ofMs now).time }

/-- The entry `check_and_store_ecmcache` hits: the first that is young enough
and fits the request. -/
def hitEntry (ctimeout now : Nat) (grp : Grp) (cache : EcmCache)
    (er : EcmRequest) : Option SEcm :=
  cache.entries.find? fun ecm =>
    !decide (ecm.time < (Timeb.ofMs now).time - (ctimeout / 1000 : Nat) -
      csCacheTimeout) &&
    (groupFits grp ecm && ecm.caid == er.caid && ecm.ecmd5 == er.ecmd5)

/-- The unanswered entry it makes the request wait for. -/
def waitingEntry (ctimeout now : Nat) (grp : Grp) (cache : EcmCache)
    (er : EcmRequest) : Option SEcm :=
  (cache.hitEntry ctimeout now grp er).filter (·.rc ≠ eFound)

/-- The three ways out of `check_and_store_ecmcache`: answered from an entry,
joined to an unanswered entry, or asked for the first time. -/
theorem checkAndStoreEcmcache_cases (ctimeout now : Nat) (grp : Grp)
    (cache : EcmCache) (er : EcmRequest) :
    ∃ walked : EcmCache,
      (∃ hit, walked = (cache.lookup ctimeout now hit).1) ∧
      ((∃ ecm ∈ walked.entries,
          ecm.caid = er.caid ∧ ecm.ecmd5 = er.ecmd5 ∧
          (Timeb.ofMs now).time - (ctimeout / 1000 : Nat) - csCacheTimeout ≤
            ecm.time ∧
          ((ecm.rc = eFound ∧
              checkAndStoreEcmcache ctimeout now grp cache er =
                (walked,
                  { er with cw := ecm.cw, selectedReader := ecm.reader },
                  eCache1)) ∨
            (cache.waitingEntry ctimeout now grp er = some ecm ∧
              checkAndStoreEcmcache ctimeout now grp cache er =
                (walked,
                  { er with
                    cw := ecm.cw, selectedReader := ecm.reader
                    ecmcacheptr := some ecm.addr },
                  ecm.rc)))) ∨
        checkAndStoreEcmcache ctimeout now grp cache er =
          ({ walked with
              entries := walked.fresh now grp er :: walked.entries
              nextAddr := walked.nextAddr + 1 },
            { er with ecmcacheptr := some walked.nextAddr }, eUnhandled)) := by
  let hit := fun ecm : SEcm =>
    groupFits grp ecm && ecm.caid == er.caid && ecm.ecmd5 == er.ecmd5
  refine ⟨_, ⟨hit, rfl⟩, ?_⟩
  cases walk : (cache.lookup ctimeout now hit).2 with
  | none =>
      right
      simp only [checkAndStoreEcmcache, hit] at walk ⊢
      rw [walk]
      rfl
  | some ecm =>
      left
      obtain ⟨member, young, matched⟩ := lookup_found walk
      have first : cache.hitEntry ctimeout now grp er = some ecm :=
        (PurgeSearch.found_eq_find? _ _ _).symm.trans walk
      simp only [hit, Bool.and_eq_true, beq_iff_eq] at matched
      refine ⟨ecm, member, matched.1.2, matched.2, young, ?_⟩
      simp only [checkAndStoreEcmcache, hit] at walk ⊢
      rw [walk]
      by_cases found : ecm.rc = eFound
      · exact .inl ⟨found, by simp only [if_pos found]⟩
      · right
        exact ⟨by simp [waitingEntry, first, found],
          by simp only [if_neg found]⟩

/-- A hit of `check_cwcache1` is an entry answered as found. -/
theorem checkCwcache1_cases (ctimeout now : Nat) (grp : Grp)
    (cache : EcmCache) (er : EcmRequest) :
    (∃ hit, (checkCwcache1 ctimeout now grp cache er).1 =
        (cache.lookup ctimeout now hit).1) ∧
      ∀ answered, (checkCwcache1 ctimeout now grp cache er).2 = some answered →
        ∃ ecm ∈ cache.heap,
          ecm.rc = eFound ∧ ecm.caid = er.caid ∧ ecm.ecmd5 = er.ecmd5 ∧
          answered =
            { er with cw := ecm.cw, selectedReader := ecm.reader } := by
  refine ⟨⟨_, rfl⟩, ?_⟩
  intro answered result
  simp only [checkCwcache1, Option.map_eq_some_iff] at result
  obtain ⟨ecm, walk, image⟩ := result
  obtain ⟨member, _, matched⟩ := lookup_found walk
  simp only [Bool.and_eq_true, beq_iff_eq] at matched
  have inHeap : ecm ∈ cache.heap :=
    mem_heap_lookup.mp (List.mem_append.mpr (.inl member))
  exact ⟨ecm, inHeap, matched.1.1.1, matched.1.1.2, matched.2, image.symm⟩

theorem WellAddressed.checkAndStore (addressed : WellAddressed cache) :
    WellAddressed (checkAndStoreEcmcache ctimeout now grp cache er).1 := by
  obtain ⟨walked, ⟨hit, rfl⟩, outcome⟩ :=
    checkAndStoreEcmcache_cases ctimeout now grp cache er
  have kept : WellAddressed (cache.lookup ctimeout now hit).1 :=
    addressed.lookup
  rcases outcome with ⟨ecm, _, _, _, _, ⟨_, result⟩ | ⟨_, result⟩⟩ | result
  · rw [result]
    exact kept
  · rw [result]
    exact kept
  · rw [result]
    constructor
    · simp only [heap, List.cons_append, List.map_cons, List.nodup_cons]
      refine ⟨?_, kept.nodup⟩
      intro listed
      obtain ⟨old, oldMember, same⟩ := List.mem_map.mp listed
      have below := kept.below old oldMember
      simp only [fresh] at same
      omega
    · intro ecm member
      simp only [heap, List.cons_append, List.mem_cons] at member
      rcases member with rfl | older
      · exact Nat.lt_succ_self _
      · exact Nat.lt_succ_of_lt (kept.below ecm older)

end EcmCache

end Oscam
