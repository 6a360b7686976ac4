import Oscam.Dvbapi.Positions

/-!
# The order in which ECM pids are tried

`dvbapi_try_next_caid` takes the unchecked ECM pid of the lowest status, and
begins again when there is none, three times.  The order is the one of the
rules as long as the positions keep it in eight bits.
-/

namespace Oscam.Dvbapi

/-! ## Orders -/

/-- Where the rules put an ECM pid: by its position, or behind the others. -/
def ruleKey (cfg : Cfg) (d : Demux) (n : Fin ecmPids) : Option Nat :=
  if d.InUse n then
    match verdict cfg d n with
    | .ignored => none
    | .preferred => some (position (prioritisations cfg d) n - 1)
    | .plain => some ((prioritisations cfg d).length + 1)
  else none

/-- The ECM pids that are not ignored, in the order of the rules. -/
def ruleOrder (cfg : Cfg) (d : Demux) : List (Fin ecmPids) :=
  KeyOrder.listed (ruleKey cfg d) ((prioritisations cfg d).length + 2)

/-- When a status is tried: from 1 to the highest one, and then 0. -/
def statusKey (maxStatus status : Int8) : Option Nat :=
  if 1 ≤ status.toInt ∧ status.toInt ≤ maxStatus.toInt then
    some (status.toInt - 1).toNat
  else if status.toInt = 0 then some maxStatus.toInt.toNat
  else none

/-- Where the statuses of a demux put an ECM pid. -/
def Demux.tryKey (d : Demux) (n : Fin ecmPids) : Option Nat :=
  if d.InUse n then statusKey d.maxStatus (d.ecmPid n).status else none

def Demux.tryOrder (d : Demux) : List (Fin ecmPids) :=
  KeyOrder.listed d.tryKey (d.maxStatus.toInt.toNat + 1)

/-- Where a position in eight bits puts an ECM pid. -/
def wrappedKey (cfg : Cfg) (d : Demux) (n : Fin ecmPids) : Option Nat :=
  if d.InUse n then
    statusKey (Int8.ofNat ((prioritisations cfg d).length + 1))
      ((verdict cfg d n).status (position (prioritisations cfg d) n))
  else none

variable {cfg : Cfg} {d : Demux} {n : Fin ecmPids}

theorem bounded_ruleKey (cfg : Cfg) (d : Demux) :
    KeyOrder.Bounded (ruleKey cfg d) ((prioritisations cfg d).length + 2) := by
  intro n j found
  have high := @position_le (prioritisations cfg d) n
  unfold ruleKey at found
  split at found
  · split at found
    · cases found
    · cases found
      omega
    · cases found
      omega
  · cases found

theorem bounded_statusKey {maxStatus status : Int8} {j : Nat}
    (found : statusKey maxStatus status = some j) :
    j < maxStatus.toInt.toNat + 1 := by
  unfold statusKey at found
  split at found
  · cases found
    omega
  · split at found
    · cases found
      omega
    · cases found

theorem bounded_tryKey (d : Demux) :
    KeyOrder.Bounded d.tryKey (d.maxStatus.toInt.toNat + 1) := by
  intro n j found
  unfold Demux.tryKey at found
  split at found
  · exact bounded_statusKey found
  · cases found

theorem tryKey_resort (cfg : Cfg) (d : Demux) :
    (resortEcmpids cfg d).tryKey = wrappedKey cfg d := by
  funext n
  unfold Demux.tryKey wrappedKey
  rw [resortEcmpids_maxStatus]
  by_cases used : d.InUse n
  · have still : (resortEcmpids cfg d).InUse n := used
    rw [if_pos used, if_pos still, resortEcmpids_status cfg d used]
  · have still : ¬ (resortEcmpids cfg d).InUse n := used
    rw [if_neg used, if_neg still]

/-! ## One call -/

theorem findSome?_range_congr {α : Type} {f g : Nat → Option α} {m : Nat}
    (same : ∀ j < m, f j = g j) :
    (List.range m).findSome? f = (List.range m).findSome? g := by
  have maps : (List.range m).map f = (List.range m).map g :=
    List.map_congr_left fun j member => same j (List.mem_range.mp member)
  have both := congrArg (List.findSome? id) maps
  rwa [List.findSome?_map, List.findSome?_map] at both

/-- The next ECM pid is the first unchecked one of the order. -/
theorem nextPid_eq (d : Demux) :
    d.nextPid = d.tryOrder.find? fun n => !(d.ecmPid n).checked := by
  unfold Demux.nextPid Demux.tryOrder KeyOrder.listed
  dsimp only
  have inside (j : Nat) (below : j < d.maxStatus.toInt.toNat)
      (n : Fin ecmPids) :
      d.tryKey n = some j ↔
        d.InUse n ∧ (d.ecmPid n).status.toInt = (j : Int) + 1 := by
    unfold Demux.tryKey statusKey
    by_cases used : d.InUse n
    · rw [if_pos used]
      split
      · rw [Option.some.injEq]
        exact ⟨fun same => ⟨used, by omega⟩, fun ⟨_, same⟩ => by omega⟩
      · split
        · rw [Option.some.injEq]
          exact ⟨fun same => by omega, fun ⟨_, same⟩ => by omega⟩
        · exact iff_of_false (Option.some_ne_none _).symm fun ⟨_, same⟩ => by omega
    · rw [if_neg used]
      exact iff_of_false (Option.some_ne_none _).symm fun both => used both.1
  have last (n : Fin ecmPids) :
      d.tryKey n = some d.maxStatus.toInt.toNat ↔
        d.InUse n ∧ (d.ecmPid n).status.toInt = 0 := by
    unfold Demux.tryKey statusKey
    by_cases used : d.InUse n
    · rw [if_pos used]
      split
      · rw [Option.some.injEq]
        exact ⟨fun same => by omega, fun ⟨_, same⟩ => by omega⟩
      · split
        · rename_i zero
          exact iff_of_true rfl ⟨used, zero⟩
        · rename_i other
          exact iff_of_false (Option.some_ne_none _).symm fun both => other both.2
    · rw [if_neg used]
      exact iff_of_false (Option.some_ne_none _).symm fun both => used both.1
  have unchecked (j : Nat) (status : Int)
      (same : ∀ n, d.tryKey n = some j ↔
        d.InUse n ∧ (d.ecmPid n).status.toInt = status) :
      ((List.finRange ecmPids).find? fun n => decide (d.InUse n) &&
        !(d.ecmPid n).checked && decide ((d.ecmPid n).status.toInt = status)) =
      ((List.finRange ecmPids).filter fun n => d.tryKey n = some j).find?
        fun n => !(d.ecmPid n).checked := by
    rw [List.find?_filter]
    congr 1
    funext n
    rw [Bool.eq_iff_iff]
    simp only [Bool.and_eq_true, decide_eq_true_eq, same n]
    exact ⟨fun all => ⟨⟨all.1.1, all.2⟩, all.1.2⟩,
      fun all => ⟨⟨all.1.1, all.2⟩, all.1.2⟩⟩
  rw [List.range_succ, List.flatMap_append, List.find?_append,
    List.find?_flatMap, List.flatMap_singleton, ← unchecked _ _ last]
  have casts (m : Nat) : (do let a ← List.range m; pure (a : Int)) =
      (List.range m).map Int.ofNat :=
    List.flatMap_pure_eq_map Int.ofNat (List.range m)
  rw [casts, List.findSome?_map]
  congr 1
  refine findSome?_range_congr fun j below => ?_
  exact unchecked j _ (inside j below)

/-! ## Repeated calls -/

/-- What a call has selected; behind the third round it stops the filters. -/
def Demux.selected (d : Demux) : Option (Fin ecmPids) :=
  if d.tries > 2 then none else d.curindex

/-- What the call behind `k` others selects. -/
def selection (cfg : Cfg) (d : Demux) (k : Nat) : Option (Fin ecmPids) :=
  ((tryNextCaid cfg)^[k + 1] d).selected

/-- Within a round: those in front are checked, those behind are not. -/
structure Round (order front behind : List (Fin ecmPids)) (more : Nat)
    (d : Demux) : Prop where
  split : order = front ++ behind
  whole : d.tryOrder = order
  checked : ∀ n ∈ order, (d.ecmPid n).checked = true ↔ n ∈ front
  tries : d.tries = Int8.ofNat (2 - more)
  more : more ≤ 2

/-- All that is still to be selected. -/
inductive Left (order : List (Fin ecmPids)) (d : Demux) :
    List (Fin ecmPids) → Prop where
  | stopped (tries : d.tries > 2) : Left order d []
  | round {front behind : List (Fin ecmPids)} {more : Nat}
      (round : Round order front behind more d) :
      Left order d (behind ++ (List.replicate more order).flatten)

/-- What a call leaves. -/
structure Called (order rest : List (Fin ecmPids)) (d : Demux) : Prop where
  selected : d.selected = rest.head?
  left : Left order d rest.tail

variable {order front behind rest : List (Fin ecmPids)} {more turns : Nat}

theorem nodup_tryOrder (d : Demux) : d.tryOrder.Nodup :=
  KeyOrder.nodup_listed _ _

theorem Round.tries_le (round : Round order front behind more d) :
    ¬ d.tries > 2 := by
  have few := round.more
  rw [round.tries]
  obtain rfl | rfl | rfl : more = 0 ∨ more = 1 ∨ more = 2 := by omega
  · decide
  · decide
  · decide

/-- An ECM pid is tried. -/
def Demux.tried (d : Demux) (num : Fin ecmPids) : Demux :=
  { d with
    curindex := some num
    ecmPid := Function.update d.ecmPid num { d.ecmPid num with checked := true } }

/-- All are tried again. -/
def Demux.again (d : Demux) : Demux :=
  { d with
    tries := d.tries + 1
    ecmPid := fun n =>
      if d.InUse n then { d.ecmPid n with checked := false } else d.ecmPid n }

theorem tryTurns_succ (mode : cfg.requestmode = 0) (turns : Nat) (d : Demux) :
    tryTurns cfg (turns + 1) d =
      if d.tries > 2 then d
      else
        match d.nextPid with
        | none => tryTurns cfg turns d.again
        | some num => d.tried num := by
  have other : cfg.requestmode ≠ 1 := by omega
  rw [tryTurns]
  cases d.nextPid with
  | none =>
      dsimp only
      rw [if_neg other]
      rfl
  | some num =>
      dsimp only
      rw [if_neg other]
      rfl

theorem tryOrder_tried (d : Demux) (num : Fin ecmPids) :
    (d.tried num).tryOrder = d.tryOrder := by
  have key : (d.tried num).tryKey = d.tryKey := by
    funext n
    unfold Demux.tryKey
    by_cases same : n = num
    · subst same
      show (if d.InUse n then statusKey d.maxStatus
        (Function.update d.ecmPid n _ n).status else none) = _
      rw [Function.update_self]
    · show (if d.InUse n then statusKey d.maxStatus
        (Function.update d.ecmPid num _ n).status else none) = _
      rw [Function.update_of_ne same]
  show KeyOrder.listed _ _ = _
  rw [key]
  rfl

theorem tryOrder_again (d : Demux) : d.again.tryOrder = d.tryOrder := by
  have key : d.again.tryKey = d.tryKey := by
    funext n
    unfold Demux.tryKey
    show (if d.InUse n then statusKey d.maxStatus (if d.InUse n then
      { d.ecmPid n with checked := false } else d.ecmPid n).status else none) = _
    by_cases used : d.InUse n
    · rw [if_pos used, if_pos used, if_pos used]
    · rw [if_neg used, if_neg used]
  show KeyOrder.listed _ _ = _
  rw [key]
  rfl

/-- The next one of a round is selected. -/
theorem Round.next {n : Fin ecmPids}
    (round : Round order front (n :: behind) more d) :
    d.nextPid = some n ∧
      Round order (front ++ [n]) behind more (d.tried n) := by
  have split := round.split
  have nodup : order.Nodup := round.whole ▸ nodup_tryOrder d
  have unchecked (m : Fin ecmPids) (member : m ∈ order) :
      (d.ecmPid m).checked = true ↔ m ∈ front := round.checked m member
  have here : n ∈ order := split ▸ List.mem_append_right _ List.mem_cons_self
  have fresh : n ∉ front := by
    intro member
    rw [split] at nodup
    exact (List.nodup_append.mp nodup).2.2 n member n List.mem_cons_self rfl
  constructor
  · rw [nextPid_eq, round.whole, split, List.find?_append]
    have none : front.find? (fun n => !(d.ecmPid n).checked) = none := by
      rw [List.find?_eq_none]
      intro m member
      have checked := (unchecked m (split ▸ List.mem_append_left _ member)).mpr
        member
      rw [checked]
      exact Bool.false_ne_true
    have free : (d.ecmPid n).checked = false := by
      rw [← Bool.not_eq_true]
      exact fun checked => fresh ((unchecked n here).mp checked)
    rw [none, Option.none_or, List.find?_cons, free]
    rfl
  · refine ⟨?_, ?_, ?_, round.tries, round.more⟩
    · rw [split, List.append_assoc]
      rfl
    · rw [tryOrder_tried, round.whole]
    · intro m member
      show (Function.update d.ecmPid n _ m).checked = true ↔ _
      rw [List.mem_append, List.mem_singleton]
      by_cases same : m = n
      · rw [same, Function.update_self]
        exact iff_of_true rfl (Or.inr rfl)
      · rw [Function.update_of_ne same, unchecked m member]
        exact (or_iff_left same).symm

/-- Behind the last one of a round all are tried again. -/
theorem Round.again (round : Round order front [] more d) :
    d.nextPid = none ∧
      (more = 0 → d.again.tries > 2) ∧
      ∀ fewer, more = fewer + 1 → Round order [] order fewer d.again := by
  have split := round.split
  rw [List.append_nil] at split
  refine ⟨?_, ?_, ?_⟩
  · rw [nextPid_eq, round.whole, List.find?_eq_none]
    intro m member
    rw [(round.checked m member).mpr (split ▸ member)]
    exact Bool.false_ne_true
  · rintro rfl
    show d.tries + 1 > 2
    rw [round.tries]
    decide
  · rintro fewer rfl
    have few := round.more
    refine ⟨rfl, ?_, ?_, ?_, by omega⟩
    · rw [tryOrder_again, round.whole]
    · intro m member
      refine iff_of_false ?_ List.not_mem_nil
      have used : d.InUse m := by
        rw [← round.whole] at member
        obtain ⟨j, _, found⟩ := KeyOrder.mem_listed.mp member
        unfold Demux.tryKey at found
        split at found
        · assumption
        · cases found
      show ¬ (if d.InUse m then _ else _ : EcmPid).checked = true
      rw [if_pos used]
      exact Bool.false_ne_true
    · show d.tries + 1 = _
      rw [round.tries]
      obtain rfl | rfl : fewer = 0 ∨ fewer = 1 := by omega
      · rfl
      · rfl

/-- A call within a round. -/
theorem Round.called (mode : cfg.requestmode = 0)
    (round : Round order front behind more d) (fuel : more + 1 < turns) :
    Called order (behind ++ (List.replicate more order).flatten)
      (tryTurns cfg turns d) := by
  induction more generalizing front behind d turns with
  | zero =>
      obtain ⟨turns, rfl⟩ : ∃ left, turns = left + 2 := ⟨turns - 2, by omega⟩
      rw [tryTurns_succ mode, if_neg round.tries_le]
      cases behind with
      | cons n behind =>
          obtain ⟨next, after⟩ := round.next
          rw [next]
          exact ⟨if_neg after.tries_le, .round after⟩
      | nil =>
          obtain ⟨next, ends, -⟩ := round.again
          rw [next]
          dsimp only
          rw [tryTurns_succ mode, if_pos (ends rfl)]
          exact ⟨if_pos (ends rfl), .stopped (ends rfl)⟩
  | succ more induction =>
      obtain ⟨turns, rfl⟩ : ∃ left, turns = left + 1 := ⟨turns - 1, by omega⟩
      rw [tryTurns_succ mode, if_neg round.tries_le]
      cases behind with
      | cons n behind =>
          obtain ⟨next, after⟩ := round.next
          rw [next]
          exact ⟨if_neg after.tries_le, .round after⟩
      | nil =>
          obtain ⟨next, -, again⟩ := round.again
          rw [next]
          exact induction (again more rfl) (by omega)

theorem Left.called (mode : cfg.requestmode = 0) (left : Left order d rest) :
    Called order rest (tryNextCaid cfg d) := by
  cases left with
  | stopped tries =>
      have same : tryNextCaid cfg d = d := by
        show tryTurns cfg (199 + 1) d = d
        rw [tryTurns_succ mode, if_pos tries]
      rw [same]
      exact ⟨if_pos tries, .stopped tries⟩
  | round round =>
      have few := round.more
      exact round.called mode (by omega)

/-- What is left is selected, one call after the other. -/
theorem Left.selection (mode : cfg.requestmode = 0) (left : Left order d rest)
    (k : Nat) : selection cfg d k = rest[k]? := by
  induction k generalizing d rest with
  | zero =>
      rw [← List.head?_eq_getElem?]
      exact (left.called mode).selected
  | succ k induction =>
      have later := induction (left.called mode).left
      rw [List.getElem?_tail] at later
      rw [← later, Dvbapi.selection, Dvbapi.selection,
        Function.iterate_succ_apply]

/-- The calls end from any state: more turns change nothing. -/
theorem tryTurns_ends (mode : cfg.requestmode = 0) (more : Nat)
    (fuel : 3 - d.tries.toInt ≤ turns) :
    tryTurns cfg (turns + more) d = tryTurns cfg turns d := by
  induction turns generalizing d with
  | zero =>
      cases more with
      | zero => rfl
      | succ more =>
          have past : d.tries > 2 := by
            have high : (2 : Int8).toInt = 2 := rfl
            rw [gt_iff_lt, Int8.lt_iff_toInt_lt]
            omega
          rw [Nat.zero_add, tryTurns_succ mode, if_pos past]
          rfl
  | succ turns induction =>
      rw [Nat.succ_add, tryTurns_succ mode, tryTurns_succ mode]
      split
      · rfl
      · rename_i few
        cases d.nextPid with
        | some num => rfl
        | none =>
            dsimp only
            apply induction
            have low : d.tries.toInt ≤ 2 := by
              have high : (2 : Int8).toInt = 2 := rfl
              rw [gt_iff_lt, Int8.lt_iff_toInt_lt] at few
              omega
            have least := Int8.le_toInt d.tries
            have next : (d.tries + 1).toInt = d.tries.toInt + 1 := by
              rw [Int8.toInt_add]
              have one : (1 : Int8).toInt = 1 := rfl
              rw [one]
              exact Int.bmod_eq_of_le (by omega) (by omega)
            show 3 - (d.tries + 1).toInt ≤ _
            rw [next]
            omega

/-! ## The orders compared -/

/-- No ECM pid is checked, and it is the first round. -/
structure Fresh (d : Demux) : Prop where
  unchecked : ∀ n, d.InUse n → (d.ecmPid n).checked = false
  tries : d.tries = 0

/-- Three rounds in the order of the rules, and then nothing. -/
def TriesInRounds (cfg : Cfg) (d : Demux) : Prop :=
  ∀ k, selection cfg (resortEcmpids cfg d) k =
    (List.replicate 3 (ruleOrder cfg d)).flatten[k]?

/-- The positions keep their order in eight bits. -/
structure KeepsOrder (cfg : Cfg) (d : Demux) : Prop where
  listed : ∀ n, (wrappedKey cfg d n).isSome ↔ (ruleKey cfg d n).isSome
  order : ∀ n m, KeyOrder.Before (wrappedKey cfg d) n m ↔
    KeyOrder.Before (ruleKey cfg d) n m

theorem tryOrder_eq_iff :
    (resortEcmpids cfg d).tryOrder = ruleOrder cfg d ↔ KeepsOrder cfg d := by
  have bounded := bounded_tryKey (resortEcmpids cfg d)
  have iff := KeyOrder.listed_eq_iff bounded (bounded_ruleKey cfg d)
  rw [tryKey_resort] at iff
  have same : (resortEcmpids cfg d).tryOrder =
      KeyOrder.listed (wrappedKey cfg d)
        ((resortEcmpids cfg d).maxStatus.toInt.toNat + 1) := by
    rw [Demux.tryOrder, tryKey_resort]
  rw [same]
  exact iff.trans ⟨fun both => ⟨both.1, both.2⟩,
    fun keeps => ⟨keeps.listed, keeps.order⟩⟩

/-- What repeated calls select is given by the statuses. -/
theorem selection_resort (mode : cfg.requestmode = 0) (fresh : Fresh d)
    (k : Nat) :
    selection cfg (resortEcmpids cfg d) k =
      (List.replicate 3 (resortEcmpids cfg d).tryOrder).flatten[k]? := by
  have round : Round (resortEcmpids cfg d).tryOrder []
      (resortEcmpids cfg d).tryOrder 2 (resortEcmpids cfg d) := by
    refine ⟨rfl, rfl, ?_, fresh.tries, Nat.le_refl 2⟩
    intro n member
    have used : d.InUse n := by
      obtain ⟨j, _, found⟩ := KeyOrder.mem_listed.mp member
      unfold Demux.tryKey at found
      split at found
      · assumption
      · cases found
    have unchecked : ((resortEcmpids cfg d).ecmPid n).checked = false :=
      fresh.unchecked n used
    rw [unchecked]
    exact iff_of_false Bool.false_ne_true List.not_mem_nil
  exact (Left.round round).selection mode k

theorem flatten_replicate_inj {α : Type} {first second : List α}
    (same : (List.replicate 3 first).flatten =
      (List.replicate 3 second).flatten) : first = second := by
  have three (list : List α) :
      (List.replicate 3 list).flatten = list ++ (list ++ list) := by
    simp [List.replicate]
  rw [three, three] at same
  have lengths := congrArg List.length same
  simp only [List.length_append] at lengths
  exact (List.append_inj same (by omega)).1

theorem triesInRounds_iff (mode : cfg.requestmode = 0) (fresh : Fresh d) :
    TriesInRounds cfg d ↔ KeepsOrder cfg d := by
  rw [← tryOrder_eq_iff]
  constructor
  · intro rounds
    apply flatten_replicate_inj
    apply List.ext_getElem?
    intro k
    rw [← rounds k, selection_resort mode fresh]
  · intro same k
    rw [selection_resort mode fresh, same]

/-- Repeated calls try the ECM pids in three rounds, each in the order of the
rules, if and only if the positions keep this order in eight bits. -/
theorem tryNextCaid_rounds_iff (mode : cfg.requestmode = 0) (fresh : Fresh d) :
    (TriesInRounds cfg d ↔ KeepsOrder cfg d) ∧
      ∀ (any : Demux) (more : Nat),
        tryTurns cfg (200 + more) any = tryNextCaid cfg any := by
  refine ⟨triesInRounds_iff mode fresh, fun any more => ?_⟩
  have least := Int8.le_toInt any.tries
  exact tryTurns_ends mode more (by omega)

/-- A demux with some ECM pids of one caid. -/
def someEcmpids (count : Nat) (few : count ≤ ecmPids) : Demux :=
  { Demux.zero with
    ecmPidCount := count
    ecmPid := fun n =>
      { EcmPid.zero with caid := 0x0500, ecmPid := UInt16.ofNat (n.val + 1) }
    ecmPidCount_le := few }

theorem fresh_someEcmpids (count : Nat) (few : count ≤ ecmPids) :
    Fresh (someEcmpids count few) where
  unchecked := fun _ _ => rfl
  tries := rfl

theorem tryNextCaid_rounds_iff_two :
    (TriesInRounds Cfg.plain (someEcmpids 2 (by decide)) ↔
        KeepsOrder Cfg.plain (someEcmpids 2 (by decide))) ∧
      ∀ (any : Demux) (more : Nat),
        tryTurns Cfg.plain (200 + more) any = tryNextCaid Cfg.plain any :=
  tryNextCaid_rounds_iff rfl (fresh_someEcmpids 2 (by decide))

/-- Services for a caid, all of them good ones. -/
def goodServices (count : Nat) : Cfg :=
  { Cfg.plain with
    sidtab := List.replicate count { caid := [0x0500], provid := [], srvid := [] }
    sidtabok := 2 ^ count - 1 }

/-- With 64 services two ECM pids get the positions 64 and 128, and the highest
status is negative. -/
theorem positions_wrapped :
    ¬ ∀ (cfg : Cfg) (d : Demux), cfg.requestmode = 0 → Fresh d →
      TriesInRounds cfg d := by
  intro always
  have keeps := (triesInRounds_iff rfl (fresh_someEcmpids 2 (by decide))).mp
    (always (goodServices 64) (someEcmpids 2 (by decide)) rfl
      (fresh_someEcmpids 2 (by decide)))
  have listed := keeps.listed 0
  have wrapped : wrappedKey (goodServices 64) (someEcmpids 2 (by decide)) 0 =
      none := by
    decide +kernel
  have ruled : ruleKey (goodServices 64) (someEcmpids 2 (by decide)) 0 =
      some 63 := by
    decide +kernel
  rw [wrapped, ruled] at listed
  exact Bool.false_ne_true (listed.mpr rfl)

end Oscam.Dvbapi
