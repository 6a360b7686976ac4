import Oscam.Stat.AddStat
import Oscam.Stat.Lookup
import Oscam.Stat.StatRoundTrip

/-!
# One record for a key

The calls that change the list of records of a reader: lookups, which may give
a record its length, insertions, removals and the file.  A key is a caid, a
provider, a service and a length.
-/

namespace Oscam.Stat

open Monitor (ascii cstr)

/-! ## Calls -/

/-- `remove_stat`.  A record whose node has a flag stays in the list. -/
def removeStatNodes (nodes : List StatNode) (caid prid srvid : Nat)
    (ecmlen : Int) : List StatNode :=
  nodes.filterMap fun node =>
    if node.stat.isFor caid prid srvid ecmlen then
      if node.flag = 0 then none else some { node with flag := node.flag + 1 }
    else some node

/-- A record is changed in a list. -/
def modifyStat (nodes : List StatNode) (place : Nat)
    (change : ReaderStat → ReaderStat) : List StatNode :=
  nodes.modify place fun node => { node with stat := change node.stat }

/-- `get_add_stat`, with the place of the record. -/
def getAddStatNodes (cfg : LbCfg) (nodes : List StatNode) (er : EcmRequest)
    (prid : Nat) : List StatNode × Nat :=
  let (nodes, place) :=
    match getStatNodes cfg nodes er.caid prid er.srvid (int16 er.l) with
    | (nodes, some place) => (nodes, place)
    | (nodes, none) =>
        (nodes ++ [{ stat := (newStat er prid).stat, flag := 0 }], nodes.length)
  (modifyStat nodes place fun stat =>
    if stat.ecmCount < 0 then { stat with ecmCount := 0 } else stat, place)

/-- A record with times, of which only the record is kept. -/
def onStat (times : RingBuffer Int lbMaxStatTime)
    (change : TimedStat → TimedStat) (stat : ReaderStat) : ReaderStat :=
  (change { stat, times }).stat

/-- What `add_stat` does for an answer to the record of its request. -/
inductive Taken where
  | ignored
  | seen
  | added (change : TimedStat → TimedStat)

/-- The branches of `add_stat`. -/
def AddStatCall.taken (cfg : StatCfg) (call : AddStatCall) : Taken :=
  match call.client with
  | none => .ignored
  | some client =>
      if cfg.lb.lbMode = lbNone then .ignored
      else
        let rc := call.statRc cfg
        if rc = 0 then .added (addFound cfg call)
        else if rc = 1 ∨ rc = 2 then .seen
        else if rc = 4 then
          if isCccamError call.r.er.rcEx then .seen
          else .added (addNotFound cfg call)
        else if rc = 5 then .added (addTimeout cfg call client)
        else .ignored

/-- `add_stat` in the list of the reader; `times` are those of the record, if
there is one. -/
def addStatNodes (cfg : StatCfg) (call : AddStatCall)
    (times : RingBuffer Int lbMaxStatTime) (nodes : List StatNode) :
    List StatNode :=
  let er := call.r.er
  let prid := getPrid cfg.lb er.caid er.prid
  match call.taken cfg with
  | .ignored => nodes
  | .seen =>
      match getStatNodes cfg.lb nodes er.caid prid er.srvid (int16 er.l) with
      | (nodes, none) => nodes
      | (nodes, some place) =>
          modifyStat nodes place fun stat =>
            { stat with lastReceived := call.ctime }
  | .added change =>
      let found := statIn cfg.lb nodes er.caid prid er.srvid (int16 er.l)
      let times := if found.isSome then times else noTimes
      let (nodes, place) := getAddStatNodes cfg.lb nodes er prid
      modifyStat nodes place (onStat times change)

/-- A call, for the reader at some place. -/
inductive ListCall where
  | loadStatFromFile (fullDebug : Bool) (file : List UInt8)
  | getStat (rdr caid prid srvid : Nat) (ecmlen : Int)
  | getAddStat (rdr : Nat) (er : EcmRequest) (prid : Nat)
  | removeStat (rdr caid prid srvid : Nat) (ecmlen : Int)
  | addStat (rdr : Nat) (call : AddStatCall)
      (times : RingBuffer Int lbMaxStatTime)

/-- The list of one reader is changed. -/
def modifyList (readers : List StatReader) (rdr : Nat)
    (change : List StatNode → List StatNode) : List StatReader :=
  readers.modify rdr fun reader => { reader with lbStat := change reader.lbStat }

def ListCall.step (cfg : StatCfg) (readers : List StatReader) :
    ListCall → List StatReader
  | .loadStatFromFile fullDebug file =>
      Stat.loadStatFromFile cfg.lb fullDebug file readers
  | .getStat rdr caid prid srvid ecmlen =>
      modifyList readers rdr fun nodes =>
        (getStatNodes cfg.lb nodes caid prid srvid ecmlen).1
  | .getAddStat rdr er prid =>
      modifyList readers rdr fun nodes =>
        (getAddStatNodes cfg.lb nodes er prid).1
  | .removeStat rdr caid prid srvid ecmlen =>
      modifyList readers rdr fun nodes =>
        removeStatNodes nodes caid prid srvid ecmlen
  | .addStat rdr call times =>
      modifyList readers rdr (addStatNodes cfg call times)

/-- A run of calls. -/
def runCalls (cfg : StatCfg) (readers : List StatReader)
    (calls : List ListCall) : List StatReader :=
  calls.foldl (ListCall.step cfg) readers

/-! ## Keys -/

structure StatKey where
  caid : Nat
  prid : Nat
  srvid : Nat
  ecmlen : Int
  deriving DecidableEq, Repr

def ReaderStat.key (stat : ReaderStat) : StatKey :=
  { caid := stat.caid, prid := stat.prid, srvid := stat.srvid
    ecmlen := stat.ecmlen }

def keys (nodes : List StatNode) : List StatKey := nodes.map (·.stat.key)

/-- At most one record for each key. -/
def DistinctKeys (nodes : List StatNode) : Prop := (keys nodes).Nodup

variable {cfg : LbCfg} {nodes front behind : List StatNode} {node : StatNode}
  {caid prid srvid : Nat} {ecmlen : Int} {key : StatKey}

theorem isFor_iff {stat : ReaderStat} :
    stat.isFor caid prid srvid ecmlen = true ↔
      stat.key = ⟨caid, prid, srvid, ecmlen⟩ ∨
        stat.key = ⟨caid, prid, srvid, 0⟩ := by
  unfold ReaderStat.isFor ReaderStat.key
  simp only [Bool.and_eq_true, Bool.or_eq_true, beq_iff_eq, StatKey.mk.injEq]
  tauto

theorem getPrid_getPrid (cfg : LbCfg) (caid prid : Nat) :
    getPrid cfg caid (getPrid cfg caid prid) = getPrid cfg caid prid := by
  unfold getPrid
  split
  · rfl
  · rfl

theorem keys_modifyStat {change : ReaderStat → ReaderStat}
    (keeps : ∀ stat, (change stat).key = stat.key) (place : Nat) :
    keys (modifyStat nodes place change) = keys nodes := by
  unfold keys modifyStat
  induction nodes generalizing place with
  | nil => rw [List.modify_nil]
  | cons head nodes induction =>
      cases place with
      | zero =>
          rw [List.modify_zero_cons, List.map_cons, List.map_cons, keeps]
      | succ place =>
          rw [List.modify_succ_cons, List.map_cons, List.map_cons,
            induction place]

/-! ### Lookups -/

/-- The first record that a lookup takes, with those in front and behind. -/
structure Hit (cfg : LbCfg) (nodes : List StatNode) (caid prid srvid : Nat)
    (ecmlen : Int) (front : List StatNode) (node : StatNode)
    (behind : List StatNode) : Prop where
  nodes : nodes = front ++ node :: behind
  others : Others cfg caid prid srvid ecmlen front
  found : node.stat.isFor caid (getPrid cfg caid prid) srvid ecmlen = true

theorem hit_or_others (cfg : LbCfg) (nodes : List StatNode)
    (caid prid srvid : Nat) (ecmlen : Int) :
    (∃ front node behind,
        Hit cfg nodes caid prid srvid ecmlen front node behind) ∨
      Others cfg caid prid srvid ecmlen nodes := by
  cases first : nodes.find? fun node =>
      node.stat.isFor caid (getPrid cfg caid prid) srvid ecmlen with
  | none =>
      right
      intro node member
      simpa using List.find?_eq_none.mp first node member
  | some node =>
      obtain ⟨found, front, behind, rfl, before⟩ :=
        List.find?_eq_some_iff_append.mp first
      left
      refine ⟨front, node, behind, rfl, ?_, found⟩
      intro other member
      simpa using before other member

theorem getStatNodes_others (others : Others cfg caid prid srvid ecmlen nodes) :
    getStatNodes cfg nodes caid prid srvid ecmlen = (nodes, none) := by
  unfold getStatNodes
  dsimp only
  rw [List.findIdx?_eq_none_iff.mpr others]

/-- A list in which a lookup finds a record at some place, which then has its
length. -/
structure Lands (cfg : LbCfg) (caid prid srvid : Nat) (ecmlen : Int)
    (nodes : List StatNode) (place : Nat) (stat : ReaderStat)
    (others : List StatNode) : Prop where
  split : ∃ front flag behind, nodes = front ++ { stat, flag } :: behind ∧
    place = front.length ∧ (front ++ behind).Perm others ∧
    Others cfg caid prid srvid ecmlen front
  key : stat.key = ⟨caid, getPrid cfg caid prid, srvid, ecmlen⟩

theorem Hit.withLength_key
    (hit : Hit cfg nodes caid prid srvid ecmlen front node behind) :
    (node.withLength ecmlen).stat.key =
      ⟨caid, getPrid cfg caid prid, srvid, ecmlen⟩ := by
  have key : (node.withLength ecmlen).stat.key =
      { node.stat.key with ecmlen := ecmlen } := rfl
  rcases isFor_iff.mp hit.found with same | without
  · rw [key, same]
  · rw [key, without]

/-- A lookup that finds a record. -/
theorem Hit.lands (hit : Hit cfg nodes caid prid srvid ecmlen front node behind) :
    ∃ place, (getStatNodes cfg nodes caid prid srvid ecmlen).2 = some place ∧
      Lands cfg caid prid srvid ecmlen
        (getStatNodes cfg nodes caid prid srvid ecmlen).1 place
        (node.withLength ecmlen).stat (front ++ behind) := by
  have key := hit.withLength_key
  have here (flag : UInt8) : Lands cfg caid prid srvid ecmlen
      (front ++ { node.withLength ecmlen with flag := flag } :: behind)
      front.length (node.withLength ecmlen).stat (front ++ behind) :=
    ⟨⟨front, flag, behind, rfl, rfl, List.Perm.refl _, hit.others⟩, key⟩
  rw [hit.nodes, getStatNodes_found hit.others hit.found]
  dsimp only
  split
  · split
    · exact ⟨0, rfl, ⟨[], _, front ++ behind, rfl, rfl, List.Perm.refl _,
        others_nil⟩, key⟩
    · exact ⟨front.length, rfl, here _⟩
  · exact ⟨front.length, rfl, here _⟩

theorem Lands.keys {place : Nat} {stat : ReaderStat} {others : List StatNode}
    (lands : Lands cfg caid prid srvid ecmlen nodes place stat others) :
    (keys nodes).Perm
      (⟨caid, getPrid cfg caid prid, srvid, ecmlen⟩ :: keys others) := by
  obtain ⟨⟨front, flag, behind, rfl, rfl, perm, _⟩, key⟩ := lands
  rw [← key]
  exact (List.perm_middle.trans (perm.cons _)).map _

/-- A change of the record that keeps its key. -/
theorem Lands.modify {place : Nat} {stat : ReaderStat}
    {others : List StatNode}
    (lands : Lands cfg caid prid srvid ecmlen nodes place stat others)
    (change : ReaderStat → ReaderStat)
    (keeps : ∀ stat, (change stat).key = stat.key) :
    Lands cfg caid prid srvid ecmlen (modifyStat nodes place change) place
      (change stat) others := by
  obtain ⟨⟨front, flag, behind, rfl, rfl, perm, first⟩, key⟩ := lands
  exact ⟨⟨front, flag, behind, modify_append_cons _, rfl, perm, first⟩,
    (keeps stat).trans key⟩

/-- The next lookup finds the record as it is. -/
theorem Lands.statIn {place : Nat} {stat : ReaderStat} {others : List StatNode}
    (lands : Lands cfg caid prid srvid ecmlen nodes place stat others) :
    statIn cfg nodes caid prid srvid ecmlen = some stat := by
  obtain ⟨⟨front, flag, behind, rfl, rfl, perm, first⟩, key⟩ := lands
  have found := isFor_iff.mpr (Or.inl key)
  rw [@statIn_found cfg front behind { stat, flag } caid prid srvid ecmlen first
    found]
  have length : stat.ecmlen = ecmlen := congrArg StatKey.ecmlen key
  subst length
  rfl

/-- No record of the list is one with the key asked for. -/
theorem Others.key_not_mem (others : Others cfg caid prid srvid ecmlen nodes) :
    ⟨caid, getPrid cfg caid prid, srvid, ecmlen⟩ ∉ keys nodes := by
  intro member
  obtain ⟨node, inside, key⟩ := List.mem_map.mp member
  have found := isFor_iff.mpr (Or.inl key)
  rw [others node inside] at found
  cases found

/-- A lookup takes a record with the length asked for, or there is none with
that key. -/
def LookFits (cfg : LbCfg) (nodes : List StatNode) (caid prid srvid : Nat)
    (ecmlen : Int) : Prop :=
  ∀ node, nodes.find? (fun node =>
      node.stat.isFor caid (getPrid cfg caid prid) srvid ecmlen) = some node →
    node.stat.ecmlen = ecmlen ∨
      ⟨caid, getPrid cfg caid prid, srvid, ecmlen⟩ ∉ keys nodes

/-- A lookup keeps the keys distinct if and only if this is so. -/
theorem distinct_getStatNodes_iff (distinct : DistinctKeys nodes) :
    DistinctKeys (getStatNodes cfg nodes caid prid srvid ecmlen).1 ↔
      LookFits cfg nodes caid prid srvid ecmlen := by
  rcases hit_or_others cfg nodes caid prid srvid ecmlen with
    ⟨front, node, behind, hit⟩ | others
  · obtain ⟨place, -, lands⟩ := hit.lands
    have first : nodes.find? (fun node => node.stat.isFor caid
        (getPrid cfg caid prid) srvid ecmlen) = some node := by
      refine List.find?_eq_some_iff_append.mpr
        ⟨hit.found, front, behind, hit.nodes, ?_⟩
      intro other member
      simpa using hit.others other member
    have perm : (keys nodes).Perm
        (node.stat.key :: keys (front ++ behind)) := by
      rw [hit.nodes]
      exact List.perm_middle.map _
    have before := perm.nodup_iff.mp distinct
    have fits : LookFits cfg nodes caid prid srvid ecmlen ↔
        node.stat.ecmlen = ecmlen ∨
          ⟨caid, getPrid cfg caid prid, srvid, ecmlen⟩ ∉ keys nodes := by
      constructor
      · exact fun fits => fits node first
      · intro fits other same
        cases first.symm.trans same
        exact fits
    rw [DistinctKeys, lands.keys.nodup_iff, List.nodup_cons, fits,
      perm.mem_iff, List.mem_cons]
    have rest := (List.nodup_cons.mp before).2
    have away := (List.nodup_cons.mp before).1
    rcases isFor_iff.mp hit.found with same | without
    · have length : node.stat.ecmlen = ecmlen := congrArg StatKey.ecmlen same
      rw [← same]
      exact iff_of_true ⟨away, rest⟩ (Or.inl length)
    · have length : node.stat.ecmlen = 0 := congrArg StatKey.ecmlen without
      rw [length]
      constructor
      · rintro ⟨fresh, _⟩
        by_cases zero : 0 = ecmlen
        · exact Or.inl zero
        · refine Or.inr ?_
          rintro (same | member)
          · rw [without] at same
            exact zero (congrArg StatKey.ecmlen same).symm
          · exact fresh member
      · rintro (zero | fresh)
        · rw [← zero, ← without]
          exact ⟨away, rest⟩
        · exact ⟨fun member => fresh (Or.inr member), rest⟩
  · rw [getStatNodes_others others]
    refine iff_of_true distinct ?_
    intro node first
    have found := List.find?_some first
    rw [others node (List.mem_of_find?_eq_some first)] at found
    cases found

/-! ### Insertions and removals -/

theorem distinct_append_iff (distinct : DistinctKeys nodes) :
    DistinctKeys (nodes ++ [node]) ↔ node.stat.key ∉ keys nodes := by
  have perm : (keys (nodes ++ [node])).Perm (node.stat.key :: keys nodes) :=
    (List.perm_append_singleton node nodes).map _
  rw [DistinctKeys, perm.nodup_iff, List.nodup_cons]
  exact and_iff_left distinct

theorem distinct_removeStatNodes (distinct : DistinctKeys nodes) :
    DistinctKeys (removeStatNodes nodes caid prid srvid ecmlen) := by
  have sub : (keys (removeStatNodes nodes caid prid srvid ecmlen)).Sublist
      (keys nodes) := by
    unfold removeStatNodes
    induction nodes with
    | nil => exact List.Sublist.slnil
    | cons node nodes induction =>
        have rest := induction (List.nodup_cons.mp distinct).2
        rw [List.filterMap_cons]
        split
        · exact rest.cons _
        · rename_i kept here
          have same : kept.stat.key = node.stat.key := by
            split at here
            · split at here
              · cases here
              · cases here
                rfl
            · cases here
              rfl
          show List.Sublist (kept.stat.key :: _) (node.stat.key :: _)
          rw [same]
          exact rest.cons_cons _
  exact distinct.sublist sub

/-- The provider under which `get_add_stat` inserts a record is one that its
lookup has seen, and so has the lookup. -/
structure AddFits (cfg : LbCfg) (nodes : List StatNode) (caid prid srvid : Nat)
    (ecmlen : Int) : Prop where
  look : LookFits cfg nodes caid prid srvid ecmlen
  insert : Others cfg caid prid srvid ecmlen nodes →
    ⟨caid, prid, srvid, ecmlen⟩ ∉ keys nodes

/-- A provider as lookups have it. -/
theorem AddFits.of_look (fits : LookFits cfg nodes caid prid srvid ecmlen)
    (normal : getPrid cfg caid prid = prid) :
    AddFits cfg nodes caid prid srvid ecmlen where
  look := fits
  insert := by
    intro others
    have absent := others.key_not_mem
    rwa [normal] at absent

variable {er : EcmRequest}

/-- The list with the record that a lookup finds, or else with a new one. -/
def lookOrAppend (cfg : LbCfg) (nodes : List StatNode)
    (caid prid srvid : Nat) (ecmlen : Int) (stat : ReaderStat) :
    List StatNode × Nat :=
  match getStatNodes cfg nodes caid prid srvid ecmlen with
  | (nodes, some place) => (nodes, place)
  | (nodes, none) => (nodes ++ [{ stat, flag := 0 }], nodes.length)

theorem distinct_lookOrAppend_iff {stat : ReaderStat}
    (distinct : DistinctKeys nodes)
    (key : stat.key = ⟨caid, prid, srvid, ecmlen⟩) :
    DistinctKeys (lookOrAppend cfg nodes caid prid srvid ecmlen stat).1 ↔
      AddFits cfg nodes caid prid srvid ecmlen := by
  have look := @distinct_getStatNodes_iff cfg nodes caid prid srvid ecmlen
    distinct
  unfold lookOrAppend
  rcases hit_or_others cfg nodes caid prid srvid ecmlen with
    ⟨front, node, behind, hit⟩ | others
  · obtain ⟨place, found, -⟩ := hit.lands
    generalize getStatNodes cfg nodes caid prid srvid ecmlen = result
      at look found
    obtain ⟨after, _⟩ := result
    cases found
    refine look.trans ⟨fun fits => ⟨fits, ?_⟩, fun fits => fits.look⟩
    intro others
    have member : node ∈ nodes := hit.nodes ▸ List.mem_append_right _
      List.mem_cons_self
    have wrong := others node member
    rw [hit.found] at wrong
    cases wrong
  · have fits := look.mp (by rwa [getStatNodes_others others])
    rw [getStatNodes_others others]
    refine (distinct_append_iff distinct).trans ?_
    rw [key]
    exact ⟨fun fresh => ⟨fits, fun _ => fresh⟩, fun fits => fits.insert others⟩

/-- The list of `get_add_stat` before a negative count is dropped. -/
def addedNodes (cfg : LbCfg) (nodes : List StatNode) (er : EcmRequest)
    (prid : Nat) : List StatNode × Nat :=
  lookOrAppend cfg nodes er.caid prid er.srvid (int16 er.l)
    (newStat er prid).stat

theorem getAddStatNodes_eq :
    getAddStatNodes cfg nodes er prid =
      (modifyStat (addedNodes cfg nodes er prid).1
        (addedNodes cfg nodes er prid).2 fun stat =>
          if stat.ecmCount < 0 then { stat with ecmCount := 0 } else stat,
        (addedNodes cfg nodes er prid).2) := rfl

theorem key_dropCount (stat : ReaderStat) :
    (if stat.ecmCount < 0 then { stat with ecmCount := 0 } else stat).key =
      stat.key := by
  split
  · rfl
  · rfl

theorem distinct_getAddStatNodes_iff (distinct : DistinctKeys nodes) :
    DistinctKeys (getAddStatNodes cfg nodes er prid).1 ↔
      AddFits cfg nodes er.caid prid er.srvid (int16 er.l) := by
  rw [getAddStatNodes_eq, DistinctKeys, keys_modifyStat key_dropCount]
  exact distinct_lookOrAppend_iff distinct rfl

/-- The record is where the next lookup finds it. -/
theorem lands_getAddStatNodes (times : RingBuffer Int lbMaxStatTime)
    (normal : getPrid cfg er.caid prid = prid) :
    ∃ others, Lands cfg er.caid prid er.srvid (int16 er.l)
      (getAddStatNodes cfg nodes er prid).1
      (getAddStatNodes cfg nodes er prid).2
      (getAddStat er prid ((statIn cfg nodes er.caid prid er.srvid
        (int16 er.l)).map fun stat => { stat, times })).stat others := by
  have drop (s : TimedStat) :
      (if s.stat.ecmCount < 0 then
          { s with stat := { s.stat with ecmCount := 0 } } else s).stat =
        if s.stat.ecmCount < 0 then { s.stat with ecmCount := 0 }
        else s.stat := by
    split
    · rfl
    · rfl
  rw [getAddStatNodes_eq, addedNodes, lookOrAppend]
  rcases hit_or_others cfg nodes er.caid prid er.srvid (int16 er.l) with
    ⟨front, node, behind, hit⟩ | others
  · have before : statIn cfg nodes er.caid prid er.srvid (int16 er.l) =
        some (node.withLength (int16 er.l)).stat := by
      rw [hit.nodes]
      exact statIn_found hit.others hit.found
    obtain ⟨place, found, lands⟩ := hit.lands
    generalize getStatNodes cfg nodes er.caid prid er.srvid (int16 er.l) =
      result at found lands
    obtain ⟨after, _⟩ := result
    cases found
    rw [before]
    unfold getAddStat
    dsimp only [Option.map_some]
    rw [drop]
    exact ⟨_, lands.modify _ key_dropCount⟩
  · have before : statIn cfg nodes er.caid prid er.srvid (int16 er.l) =
        none := by
      unfold statIn
      rw [getStatNodes_others others]
      rfl
    have lands : Lands cfg er.caid prid er.srvid (int16 er.l)
        (nodes ++ [{ stat := (newStat er prid).stat, flag := 0 }])
        nodes.length (newStat er prid).stat nodes := by
      refine ⟨⟨nodes, 0, [], rfl, rfl, ?_, others⟩, ?_⟩
      · rw [List.append_nil]
      · rw [normal]
        rfl
    rw [getStatNodes_others others, before]
    unfold getAddStat
    dsimp only [Option.map_none]
    rw [drop]
    exact ⟨_, lands.modify _ key_dropCount⟩

/-! ### Answers -/

section Answers

variable {cfg : StatCfg} {call : AddStatCall}
  {times : RingBuffer Int lbMaxStatTime} {usage : Usagelevel}
  {change : TimedStat → TimedStat}

theorem addStat_taken (found : Option TimedStat) :
    (addStat cfg call found usage).1 =
      match call.taken cfg with
      | .ignored => found
      | .seen => found.map (addReceived call)
      | .added change =>
          some (change (getAddStat call.r.er
            (getPrid cfg.lb call.r.er.caid call.r.er.prid) found)) := by
  unfold addStat AddStatCall.taken
  cases call.client with
  | none => rfl
  | some client =>
      dsimp only
      split
      · rfl
      split
      · rfl
      split
      · rfl
      split
      · split
        · rfl
        · rfl
      split
      · rfl
      · rfl

/-- A new record has no times yet. -/
theorem times_of_found (times : RingBuffer Int lbMaxStatTime)
    (er : EcmRequest) (prid : Nat) (found : Option ReaderStat) :
    (getAddStat er prid (found.map fun stat => { stat, times })).times =
      if found.isSome then times else noTimes := by
  cases found with
  | none =>
      unfold getAddStat
      dsimp only [Option.map_none]
      split
      · rfl
      · rfl
  | some stat =>
      unfold getAddStat
      dsimp only [Option.map_some]
      split
      · rfl
      · rfl

theorem key_addTime (s : TimedStat) (ecmTime : Int) :
    (s.addTime ecmTime).stat.key = s.stat.key := rfl

theorem key_addFound (s : TimedStat) :
    (addFound cfg call s).stat.key = s.stat.key := by
  unfold addFound
  rw [key_addTime]
  rfl

theorem key_addNotFound (s : TimedStat) :
    (addNotFound cfg call s).stat.key = s.stat.key := by
  unfold addNotFound incFail ReaderStat.key
  dsimp only

theorem key_incFail (stat : ReaderStat) : (incFail stat).key = stat.key := rfl

theorem key_rc (stat : ReaderStat) (rc : Int) :
    { stat with rc := rc }.key = stat.key := rfl

theorem key_lastReceived (stat : ReaderStat) (time : Int) :
    { stat with lastReceived := time }.key = stat.key := rfl

theorem key_addTimeout (client : StatClient) (s : TimedStat) :
    (addTimeout cfg call client s).stat.key = s.stat.key := by
  unfold addTimeout
  refine (key_addTime _ _).trans ((key_lastReceived _ _).trans ?_)
  split
  · exact key_rc _ _
  split
  · rw [key_incFail, key_rc]
  · rfl

/-- An answer does not change the key of a record. -/
theorem key_taken (taken : call.taken cfg = .added change) (s : TimedStat) :
    (change s).stat.key = s.stat.key := by
  unfold AddStatCall.taken at taken
  dsimp only at taken
  split at taken
  · cases taken
  split at taken
  · cases taken
  split at taken
  · rw [← Taken.added.inj taken, key_addFound]
  split at taken
  · cases taken
  split at taken
  · split at taken
    · cases taken
    · rw [← Taken.added.inj taken, key_addNotFound]
  split at taken
  · rw [← Taken.added.inj taken, key_addTimeout]
  · cases taken

theorem statIn_getPrid (cfg : LbCfg) (nodes : List StatNode)
    (caid prid srvid : Nat) (ecmlen : Int) :
    statIn cfg nodes caid (getPrid cfg caid prid) srvid ecmlen =
      statIn cfg nodes caid prid srvid ecmlen := by
  unfold statIn getStatNodes
  rw [getPrid_getPrid]

/-- The next lookup for the same request sees what an answer has made of the
record. -/
theorem statIn_addStatNodes (cfg : StatCfg) (call : AddStatCall)
    (times : RingBuffer Int lbMaxStatTime) (usage : Usagelevel)
    (nodes : List StatNode) :
    statIn cfg.lb (addStatNodes cfg call times nodes) call.r.er.caid
        call.r.er.prid call.r.er.srvid (int16 call.r.er.l) =
      (addStat cfg call ((statIn cfg.lb nodes call.r.er.caid call.r.er.prid
        call.r.er.srvid (int16 call.r.er.l)).map fun stat =>
          { stat, times }) usage).1.map (·.stat) := by
  have normal := getPrid_getPrid cfg.lb call.r.er.caid call.r.er.prid
  rw [addStat_taken, ← statIn_getPrid cfg.lb nodes,
    ← statIn_getPrid cfg.lb (addStatNodes cfg call times nodes)]
  unfold addStatNodes
  dsimp only
  generalize getPrid cfg.lb call.r.er.caid call.r.er.prid = prid at normal ⊢
  cases kind : call.taken cfg with
  | ignored =>
      dsimp only
      rw [Option.map_map]
      exact (congrFun Option.map_id _).symm
  | seen =>
      rcases hit_or_others cfg.lb nodes call.r.er.caid prid call.r.er.srvid
        (int16 call.r.er.l) with ⟨front, node, behind, hit⟩ | others
      · have before : statIn cfg.lb nodes call.r.er.caid prid
            call.r.er.srvid (int16 call.r.er.l) =
              some (node.withLength (int16 call.r.er.l)).stat := by
          rw [hit.nodes]
          exact statIn_found hit.others hit.found
        obtain ⟨place, found, lands⟩ := hit.lands
        rw [before]
        generalize getStatNodes cfg.lb nodes call.r.er.caid prid
          call.r.er.srvid (int16 call.r.er.l) = result at found lands ⊢
        obtain ⟨after, _⟩ := result
        cases found
        exact (lands.modify (fun stat =>
          { stat with lastReceived := call.ctime }) fun _ => rfl).statIn
      · have before : statIn cfg.lb nodes call.r.er.caid prid
            call.r.er.srvid (int16 call.r.er.l) = none := by
          unfold statIn
          rw [getStatNodes_others others]
          rfl
        rw [before, getStatNodes_others others]
        dsimp only
        rw [before]
        rfl
  | added change =>
      obtain ⟨others, lands⟩ := @lands_getAddStatNodes cfg.lb nodes prid
        call.r.er times normal
      have kept := times_of_found times call.r.er prid
        (statIn cfg.lb nodes call.r.er.caid prid call.r.er.srvid
          (int16 call.r.er.l))
      dsimp only
      rw [← kept]
      exact (lands.modify (onStat _ change)
        fun stat => key_taken kind { stat, times := _ }).statIn

/-- The answer makes a lookup. -/
def AddStatCall.Looks (cfg : StatCfg) (call : AddStatCall) : Prop :=
  call.taken cfg ≠ .ignored

theorem distinct_addStatNodes (distinct : DistinctKeys nodes)
    (fits : call.Looks cfg → LookFits cfg.lb nodes call.r.er.caid
      call.r.er.prid call.r.er.srvid (int16 call.r.er.l)) :
    DistinctKeys (addStatNodes cfg call times nodes) := by
  have normal := getPrid_getPrid cfg.lb call.r.er.caid call.r.er.prid
  have look (looks : call.Looks cfg) : LookFits cfg.lb nodes call.r.er.caid
      (getPrid cfg.lb call.r.er.caid call.r.er.prid) call.r.er.srvid
      (int16 call.r.er.l) := by
    unfold LookFits
    rw [normal]
    exact fits looks
  unfold addStatNodes AddStatCall.Looks at *
  dsimp only
  generalize getPrid cfg.lb call.r.er.caid call.r.er.prid = prid at normal look
  cases kind : call.taken cfg with
  | ignored => exact distinct
  | seen =>
      have kept := (distinct_getStatNodes_iff distinct).mpr
        (look (by rw [kind]; exact Taken.noConfusion))
      dsimp only
      split
      · rename_i same
        rwa [same] at kept
      · rename_i same
        rw [same] at kept
        rw [DistinctKeys, keys_modifyStat fun stat => key_lastReceived stat _]
        exact kept
  | added change =>
      have added := (distinct_getAddStatNodes_iff distinct).mpr
        (AddFits.of_look (look (by rw [kind]; exact Taken.noConfusion)) normal)
      dsimp only
      rw [DistinctKeys, keys_modifyStat fun stat => key_taken kind _]
      exact added

end Answers

/-! ### The file -/

/-- A record that was read is new, or looked for before it is appended. -/
def AppendFits (cfg : LbCfg) (fullDebug : Bool) (nodes : List StatNode)
    (stat : ReaderStat) : Prop :=
  if fullDebug then
    AddFits cfg nodes stat.caid stat.prid stat.srvid stat.ecmlen
  else stat.key ∉ keys nodes

theorem distinct_appendStat_iff {fullDebug : Bool} {stat : ReaderStat}
    (distinct : DistinctKeys nodes) :
    DistinctKeys (appendStat cfg fullDebug nodes stat) ↔
      AppendFits cfg fullDebug nodes stat := by
  unfold AppendFits
  cases fullDebug with
  | false => exact distinct_append_iff distinct
  | true =>
      rw [if_pos rfl, ← distinct_lookOrAppend_iff distinct rfl]
      unfold appendStat lookOrAppend
      rw [if_pos rfl]
      generalize getStatNodes cfg nodes stat.caid stat.prid stat.srvid
        stat.ecmlen = result
      obtain ⟨after, _ | place⟩ := result
      · exact Iff.rfl
      · exact Iff.rfl

/-- No reader has two records for a key. -/
def AllDistinct (readers : List StatReader) : Prop :=
  ∀ rdr ∈ readers, DistinctKeys rdr.lbStat

/-- The record of a line, if it has one, can be appended. -/
def LoadState.LineFits (cfg : LbCfg) (fullDebug : Bool) (s : LoadState)
    (line : List UInt8) : Prop :=
  kept (cstr line) = true → ∀ buf stat,
    (s.type.getD (fileType (cstr line))).read (cstr line) = some (buf, stat) →
    ∀ place rdr, findReader s.readers s.rdr buf = some place →
      s.readers[place]? = some rdr → AppendFits cfg fullDebug rdr.lbStat stat

/-- So can those of all lines, one after the other. -/
def LoadState.Fits (cfg : LbCfg) (fullDebug : Bool) :
    LoadState → List (List UInt8) → Prop
  | _, [] => True
  | s, line :: lines =>
      s.LineFits cfg fullDebug line ∧
        (s.loadLine cfg fullDebug line).Fits cfg fullDebug lines

/-- A change of one list. -/
theorem allDistinct_modify {readers : List StatReader} {rdr : Nat}
    {change : StatReader → StatReader} (distinct : AllDistinct readers)
    (keeps : ∀ reader, readers[rdr]? = some reader →
      DistinctKeys (change reader).lbStat) :
    AllDistinct (readers.modify rdr change) := by
  intro reader member
  obtain ⟨place, here⟩ := List.mem_iff_getElem?.mp member
  rw [List.getElem?_modify] at here
  obtain ⟨old, there, same⟩ := Option.map_eq_some_iff.mp here
  by_cases equal : rdr = place
  · subst equal
    rw [if_pos rfl] at same
    exact same ▸ keeps old there
  · rw [if_neg equal] at same
    exact same ▸ distinct old (List.mem_of_getElem? there)

theorem LoadState.LineFits.distinct {fullDebug : Bool} {s : LoadState}
    {line : List UInt8} (fits : s.LineFits cfg fullDebug line)
    (distinct : AllDistinct s.readers) :
    AllDistinct (s.loadLine cfg fullDebug line).readers := by
  unfold LoadState.loadLine
  dsimp only
  split
  · rename_i kept
    have fits := fits kept
    split
    · exact distinct
    · rename_i buf stat read
      unfold LoadState.addStat
      split
      · exact distinct
      · rename_i place found
        refine allDistinct_modify distinct fun reader here => ?_
        exact (distinct_appendStat_iff (distinct reader
          (List.mem_of_getElem? here))).mpr
            (fits buf stat read place reader found here)
  · exact distinct

theorem LoadState.Fits.distinct {fullDebug : Bool} {s : LoadState}
    {lines : List (List UInt8)} (fits : s.Fits cfg fullDebug lines)
    (distinct : AllDistinct s.readers) :
    AllDistinct (lines.foldl (LoadState.loadLine cfg fullDebug) s).readers := by
  induction lines generalizing s with
  | nil => exact distinct
  | cons line lines induction =>
      exact induction fits.2 (fits.1.distinct distinct)

/-! ## Runs -/

/-- What the keys need of a call: lookups take the record with the length asked
for if there is one, and new records have new keys. -/
def ListCall.Fits (cfg : StatCfg) (readers : List StatReader) :
    ListCall → Prop
  | .loadStatFromFile fullDebug file =>
      LoadState.Fits cfg.lb fullDebug { readers, rdr := none, type := none }
        (fgetsLines 1024 file)
  | .getStat rdr caid prid srvid ecmlen =>
      ∀ reader, readers[rdr]? = some reader →
        LookFits cfg.lb reader.lbStat caid prid srvid ecmlen
  | .getAddStat rdr er prid =>
      ∀ reader, readers[rdr]? = some reader →
        AddFits cfg.lb reader.lbStat er.caid prid er.srvid (int16 er.l)
  | .removeStat _ _ _ _ _ => True
  | .addStat rdr call _ =>
      ∀ reader, readers[rdr]? = some reader → call.Looks cfg →
        LookFits cfg.lb reader.lbStat call.r.er.caid call.r.er.prid
          call.r.er.srvid (int16 call.r.er.l)

/-- All calls of a run are so. -/
def RunFits (cfg : StatCfg) : List StatReader → List ListCall → Prop
  | _, [] => True
  | readers, call :: calls =>
      call.Fits cfg readers ∧ RunFits cfg (call.step cfg readers) calls

section Runs

variable {cfg : StatCfg} {readers : List StatReader} {calls : List ListCall}

theorem ListCall.Fits.distinct {call : ListCall} (fits : call.Fits cfg readers)
    (distinct : AllDistinct readers) :
    AllDistinct (call.step cfg readers) := by
  cases call with
  | loadStatFromFile fullDebug file =>
      exact LoadState.Fits.distinct fits distinct
  | getStat rdr caid prid srvid ecmlen =>
      refine allDistinct_modify distinct fun reader here => ?_
      exact (distinct_getStatNodes_iff (distinct reader
        (List.mem_of_getElem? here))).mpr (fits reader here)
  | getAddStat rdr er prid =>
      refine allDistinct_modify distinct fun reader here => ?_
      exact (distinct_getAddStatNodes_iff (distinct reader
        (List.mem_of_getElem? here))).mpr (fits reader here)
  | removeStat rdr caid prid srvid ecmlen =>
      refine allDistinct_modify distinct fun reader here => ?_
      exact distinct_removeStatNodes (distinct reader
        (List.mem_of_getElem? here))
  | addStat rdr call times =>
      refine allDistinct_modify distinct fun reader here => ?_
      exact distinct_addStatNodes (distinct reader (List.mem_of_getElem? here))
        (fits reader here)

/-- What the next lookup finds of an answer in the list of a reader. -/
def Seen (cfg : StatCfg) (readers : List StatReader) (rdr : Nat)
    (call : AddStatCall) (times : RingBuffer Int lbMaxStatTime) : Prop :=
  ∀ before after, readers[rdr]? = some before →
    (ListCall.step cfg readers (.addStat rdr call times))[rdr]? = some after →
    ∀ usage, statIn cfg.lb after.lbStat call.r.er.caid call.r.er.prid
        call.r.er.srvid (int16 call.r.er.l) =
      (addStat cfg call ((statIn cfg.lb before.lbStat call.r.er.caid
        call.r.er.prid call.r.er.srvid (int16 call.r.er.l)).map fun stat =>
          { stat, times }) usage).1.map (·.stat)

theorem seen (cfg : StatCfg) (readers : List StatReader) (rdr : Nat)
    (call : AddStatCall) (times : RingBuffer Int lbMaxStatTime) :
    Seen cfg readers rdr call times := by
  intro before after old new usage
  have changed : (readers.modify rdr fun reader => { reader with
      lbStat := addStatNodes cfg call times reader.lbStat })[rdr]? =
        some after := new
  rw [List.getElem?_modify_eq, old] at changed
  cases changed
  exact statIn_addStatNodes cfg call times usage before.lbStat

/-- In a run of such calls no reader ever has two records for a key, and each
answer that is taken is seen by the next lookup. -/
theorem run_distinct (distinct : AllDistinct readers)
    (fits : RunFits cfg readers calls) :
    AllDistinct (runCalls cfg readers calls) ∧
      ∀ rdr call times, Seen cfg (runCalls cfg readers calls) rdr call times := by
  refine ⟨?_, fun rdr call times => seen cfg _ rdr call times⟩
  induction calls generalizing readers with
  | nil => exact distinct
  | cons call calls induction =>
      exact induction (fits.1.distinct distinct) fits.2

end Runs

def keyCfg : StatCfg := { lb := defaultCfg, ctimeout := 5000, ftimeout := 2500 }

/-- A reader at the start. -/
def emptyStats : StatReader :=
  { label := ascii "local", text := by decide, short := by decide
    lbStat := [] }

/-- A lookup that finds nothing, and then an insertion. -/
theorem run_distinct_one :
    AllDistinct (runCalls keyCfg [emptyStats]
        [.getStat 0 0x500 1 2 80, .getAddStat 0 EcmRequest.zero 0]) ∧
      ∀ rdr call times, Seen keyCfg (runCalls keyCfg [emptyStats]
        [.getStat 0 0x500 1 2 80, .getAddStat 0 EcmRequest.zero 0]) rdr call
          times := by
  apply run_distinct
  · exact List.forall_mem_singleton.mpr List.nodup_nil
  · refine ⟨?_, ?_, trivial⟩
    · intro reader here node found
      cases here
      cases found
    · intro reader here
      cases here
      constructor
      · intro node found
        cases found
      · intro _
        exact List.not_mem_nil

/-- Two records that differ in their length only, the one without a length in
front. -/
def twoLengths : List UInt8 :=
  ascii "local,0,0500,023800,0001,300,7,1300000000,0,00\n" ++
    ascii "local,0,0500,023800,0001,300,7,1300000000,0,50\n"

def lookedUp : StatKey :=
  { caid := 0x500, prid := 0x023800, srvid := 1, ecmlen := 0x50 }

/-- A lookup gives the first one the length of the second. -/
theorem twoLengths_not_distinct :
    ¬ ∀ (cfg : StatCfg) (readers : List StatReader) (calls : List ListCall),
      AllDistinct readers → AllDistinct (runCalls cfg readers calls) := by
  intro always
  have distinct := always keyCfg [emptyStats]
    [.loadStatFromFile false twoLengths, .getStat 0 0x500 0x023800 1 0x50]
    (List.forall_mem_singleton.mpr List.nodup_nil)
  have both : (runCalls keyCfg [emptyStats] [.loadStatFromFile false twoLengths,
      .getStat 0 0x500 0x023800 1 0x50]).map (fun rdr => keys rdr.lbStat) =
        [[lookedUp, lookedUp]] := by
    decide +kernel
  have listed : [lookedUp, lookedUp] ∈ (runCalls keyCfg [emptyStats]
      [.loadStatFromFile false twoLengths,
        .getStat 0 0x500 0x023800 1 0x50]).map fun rdr => keys rdr.lbStat := by
    rw [both]
    exact List.mem_singleton_self _
  obtain ⟨rdr, member, same⟩ := List.mem_map.mp listed
  have once := distinct rdr member
  rw [DistinctKeys, same] at once
  exact (List.nodup_cons.mp once).1 (List.mem_singleton_self _)

end Oscam.Stat
