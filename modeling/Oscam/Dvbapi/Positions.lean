import Oscam.Dvbapi.Demux
import Oscam.Lib.KeyOrder

/-!
# Positions of ECM pids

What the priority file and the services say about the ECM pids of a demux, and
the positions that they give, each prioritisation one more than the one before.
`dvbapi_resort_ecmpids` stores the positions in eight bits.
-/

namespace Oscam.Dvbapi

/-! ## What the rules say -/

/-- What is said about an ECM pid. -/
inductive Verdict where
  | plain
  | ignored
  | preferred
  deriving DecidableEq, Repr

/-- An entry of the priority file applies to an ECM pid. -/
def Priority.decides (p : Priority) (d : Demux) (n : Fin ecmPids) : Bool :=
  decide (d.InUse n) && p.fits d (d.ecmPid n) &&
    (p.type == .prefer || p.type == .ignore && p.chid == 0)

def Priority.verdict (p : Priority) : Verdict :=
  if p.type = .prefer then .preferred else .ignored

/-- The first entry decides. -/
def fileVerdict (rules : List Priority) (d : Demux) (n : Fin ecmPids) :
    Verdict :=
  ((rules.find? (·.decides d n)).map (·.verdict)).getD .plain

/-- The request that services are compared with. -/
def serviceRequest (cfg : Cfg) (d : Demux) (n : Fin ecmPids) : EcmRequest :=
  { cfg.stack with
    caid := (d.ecmPid n).caid.toNat
    prid := (d.ecmPid n).provid.toNat
    srvid := d.programNumber.toNat }

/-- A service is for an ECM pid. -/
def isFor (cfg : Cfg) (d : Demux) (n : Fin ecmPids) (sidtab : Cccam.Sidtab) :
    Bool :=
  !(sidtab.caid.isEmpty && sidtab.provid.isEmpty && sidtab.srvid.isEmpty) &&
    Stat.chkSrvidMatch (serviceRequest cfg d n) sidtab

/-- What a service says; one that is in both masks prioritises. -/
def serviceVerdict (cfg : Cfg) (d : Demux) (n : Fin ecmPids)
    (service : Cccam.Sidtab × Nat) : Option Verdict :=
  if isFor cfg d n service.1 then
    if cfg.sidtabok.testBit service.2 then some .preferred
    else if cfg.sidtabno.testBit service.2 then some .ignored
    else none
  else none

/-- The last service decides, or else the file. -/
def verdict (cfg : Cfg) (d : Demux) (n : Fin ecmPids) : Verdict :=
  (cfg.sidtab.zipIdx.reverse.findSome? (serviceVerdict cfg d n)).getD
    (fileVerdict cfg.priority d n)

/-! ## Positions -/

/-- The ECM pids that an entry of the file prioritises behind others. -/
def fileTurn (d : Demux) (front : List Priority) (p : Priority) :
    List (Fin ecmPids) :=
  (List.finRange ecmPids).filter fun n =>
    p.decides d n && p.type == .prefer && fileVerdict front d n == .plain

def fileTurns (d : Demux) : List Priority → List Priority → List (Fin ecmPids)
  | _, [] => []
  | front, p :: rules => fileTurn d front p ++ fileTurns d (front ++ [p]) rules

/-- How often services prioritise an ECM pid. -/
def serviceTurns (cfg : Cfg) (d : Demux) (n : Fin ecmPids) :
    List (Fin ecmPids) :=
  List.replicate (cfg.sidtab.zipIdx.countP fun service =>
    serviceVerdict cfg d n service == some .preferred) n

/-- All prioritisations, in their order. -/
def prioritisations (cfg : Cfg) (d : Demux) : List (Fin ecmPids) :=
  fileTurns d [] cfg.priority ++
    ((List.finRange ecmPids).filter d.InUse).flatMap (serviceTurns cfg d)

/-- The position of an ECM pid, counted from one: the last one counts. -/
def position (turns : List (Fin ecmPids)) (n : Fin ecmPids) : Nat :=
  turns.length - turns.reverse.idxOf n

/-- The status for a verdict. -/
def Verdict.status : Verdict → Nat → Int8
  | .plain, _ => 0
  | .ignored, _ => -1
  | .preferred, position => Int8.ofNat position

variable {cfg : Cfg} {d : Demux} {turns : List (Fin ecmPids)}
  {n m : Fin ecmPids} {sorting : Sorting} {said : Fin ecmPids → Verdict}

theorem position_append_self : position (turns ++ [n]) n = turns.length + 1 := by
  unfold position
  rw [List.reverse_append, List.length_append]
  simp

theorem position_append_of_ne (other : m ≠ n) :
    position (turns ++ [n]) m = position turns m := by
  unfold position
  rw [List.reverse_append, List.length_append, List.reverse_singleton,
    List.singleton_append, List.idxOf_cons_ne _ other.symm]
  show turns.length + 1 - _ = _
  omega

theorem position_le : position turns n ≤ turns.length := Nat.sub_le _ _

theorem position_pos (member : n ∈ turns) : 0 < position turns n := by
  have inside := List.idxOf_lt_length_of_mem (List.mem_reverse.mpr member)
  rw [List.length_reverse] at inside
  unfold position
  omega

/-! ## Sorting -/

/-- The statuses are those of some verdicts and positions. -/
structure Stands (d : Demux) (said : Fin ecmPids → Verdict)
    (turns : List (Fin ecmPids)) (sorting : Sorting) : Prop where
  newStatus : sorting.newStatus = turns.length + 1
  status : ∀ n, d.InUse n →
    sorting.status n = (said n).status (position turns n)

theorem Stands.prioritize (stands : Stands d said turns sorting)
    (n : Fin ecmPids) :
    Stands d (Function.update said n .preferred) (turns ++ [n])
      (sorting.prioritize n) where
  newStatus := by
    show sorting.newStatus + 1 = _
    rw [stands.newStatus, List.length_append, List.length_singleton]
  status := by
    intro m used
    show Function.update sorting.status n (Int8.ofNat sorting.newStatus) m = _
    by_cases same : m = n
    · rw [same, Function.update_self, Function.update_self,
        position_append_self, stands.newStatus]
      rfl
    · rw [Function.update_of_ne same, Function.update_of_ne same,
        position_append_of_ne same, stands.status m used]

theorem Stands.ignore (stands : Stands d said turns sorting)
    (n : Fin ecmPids) :
    Stands d (Function.update said n .ignored) turns (sorting.set n (-1)) where
  newStatus := stands.newStatus
  status := by
    intro m used
    show Function.update sorting.status n (-1) m = _
    by_cases same : m = n
    · rw [same, Function.update_self, Function.update_self]
      rfl
    · rw [Function.update_of_ne same, Function.update_of_ne same,
        stands.status m used]

theorem Stands.congr {other : Fin ecmPids → Verdict}
    (stands : Stands d said turns sorting)
    (same : ∀ n, d.InUse n → said n = other n) :
    Stands d other turns sorting where
  newStatus := stands.newStatus
  status := by
    intro n used
    rw [← same n used, stands.status n used]

/-! ### The priority file -/

/-- The file has given each position once. -/
structure FileStands (d : Demux) (said : Fin ecmPids → Verdict)
    (turns : List (Fin ecmPids)) (sorting : Sorting) : Prop
    extends Stands d said turns sorting where
  members : ∀ n, n ∈ turns ↔ said n = .preferred
  nodup : turns.Nodup

theorem FileStands.few (stands : FileStands d said turns sorting) :
    turns.length ≤ 30 := by
  have few := stands.nodup.length_le_card
  rwa [Fintype.card_fin] at few

theorem ofNat_ne_zero {k : Nat} (some : 0 < k) (small : k < 256) :
    Int8.ofNat k ≠ 0 := by
  intro zero
  have same : (Int8.ofNat k).toBitVec = (0 : Int8).toBitVec := by rw [zero]
  have number := congrArg BitVec.toNat same
  have whole : k % 256 = 0 := number
  omega

/-- A status is zero where nothing has been said. -/
theorem FileStands.status_zero_iff (stands : FileStands d said turns sorting)
    (used : d.InUse n) : sorting.status n = 0 ↔ said n = .plain := by
  rw [stands.status n used]
  cases verdict : said n with
  | plain => exact iff_of_true rfl rfl
  | ignored =>
      exact iff_of_false (show (-1 : Int8) ≠ 0 by decide) Verdict.noConfusion
  | preferred =>
      have member := (stands.members n).mpr verdict
      have high := @position_le turns n
      have few := stands.few
      refine iff_of_false ?_ Verdict.noConfusion
      exact ofNat_ne_zero (position_pos member) (by omega)

/-- What is said of an ECM pid behind one more entry. -/
def Priority.turn (p : Priority) (d : Demux) (n : Fin ecmPids)
    (before : Verdict) : Verdict :=
  if p.decides d n && before == .plain then p.verdict else before

theorem verdict_ne_plain (p : Priority) : p.verdict ≠ .plain := by
  unfold Priority.verdict
  split
  · exact Verdict.noConfusion
  · exact Verdict.noConfusion

theorem fileVerdict_append (front : List Priority) (p : Priority) :
    fileVerdict (front ++ [p]) d n = p.turn d n (fileVerdict front d n) := by
  unfold fileVerdict Priority.turn
  rw [List.find?_append]
  cases front.find? (·.decides d n) with
  | some rule =>
      have plain : (rule.verdict == .plain) = false :=
        beq_eq_false_iff_ne.mpr (verdict_ne_plain rule)
      simp [plain]
  | none =>
      rw [Option.none_or, List.find?_singleton]
      split
      · rename_i decides
        rw [decides]
        rfl
      · rename_i other
        rw [Bool.not_eq_true] at other
        rw [other]
        rfl

/-- One entry of the file and one ECM pid. -/
theorem FileStands.turn (stands : FileStands d said turns sorting)
    (p : Priority) (n : Fin ecmPids) :
    FileStands d (Function.update said n (p.turn d n (said n)))
      (turns ++ [n].filter fun n =>
        p.decides d n && p.type == .prefer && said n == .plain)
      (sortByPriority d p sorting n) := by
  by_cases acts : p.decides d n ∧ said n = .plain
  · obtain ⟨decides, plain⟩ := acts
    have all := decides
    simp only [Priority.decides, Bool.and_eq_true, decide_eq_true_eq,
      Bool.or_eq_true, beq_iff_eq] at all
    obtain ⟨⟨used, fits⟩, kind⟩ := all
    have here : d.InUse n ∧ sorting.status n = 0 ∧ p.fits d (d.ecmPid n) :=
      ⟨used, (stands.status_zero_iff used).mpr plain, fits⟩
    have absent : n ∉ turns := by
      intro member
      rw [(stands.members n).mp member] at plain
      cases plain
    have turn : p.turn d n (said n) = p.verdict := by
      rw [Priority.turn, decides, plain]
      rfl
    rw [turn]
    unfold sortByPriority
    rw [if_pos here]
    rcases kind with prefer | ⟨ignore, zero⟩
    · have taken : ([n].filter fun n =>
          p.decides d n && p.type == .prefer && said n == .plain) = [n] := by
        rw [List.filter_singleton, decides, prefer, plain]
        rfl
      have verdict : p.verdict = .preferred := if_pos prefer
      rw [taken, verdict, prefer]
      refine ⟨stands.prioritize n, ?_, ?_⟩
      · intro m
        rw [List.mem_append, List.mem_singleton, stands.members]
        by_cases same : m = n
        · rw [same, Function.update_self]
          exact iff_of_true (Or.inr rfl) rfl
        · rw [Function.update_of_ne same]
          exact or_iff_left same
      · rw [List.nodup_append_comm]
        exact List.nodup_cons.mpr ⟨absent, stands.nodup⟩
    · have taken : ([n].filter fun n =>
          p.decides d n && p.type == .prefer && said n == .plain) = [] := by
        rw [List.filter_singleton, ignore, decides]
        rfl
      have verdict : p.verdict = .ignored := by
        rw [Priority.verdict, ignore]
        rfl
      rw [taken, verdict, ignore, List.append_nil]
      dsimp only
      rw [if_neg (not_not_intro zero)]
      refine ⟨stands.ignore n, ?_, stands.nodup⟩
      intro m
      rw [stands.members]
      by_cases same : m = n
      · rw [same, Function.update_self, plain]
        exact iff_of_false Verdict.noConfusion Verdict.noConfusion
      · rw [Function.update_of_ne same]
  · have rests : p.turn d n (said n) = said n := by
      unfold Priority.turn
      rw [if_neg]
      simpa using acts
    have taken : ([n].filter fun n =>
        p.decides d n && p.type == .prefer && said n == .plain) = [] := by
      rw [List.filter_singleton, cond_eq_ite, if_neg]
      intro all
      simp only [Bool.and_eq_true, beq_iff_eq] at all
      exact acts ⟨all.1.1, all.2⟩
    have same : sortByPriority d p sorting n = sorting := by
      unfold sortByPriority
      split
      · rename_i here
        have plain := (stands.status_zero_iff here.1).mp here.2.1
        have other : ¬ p.decides d n := fun decides => acts ⟨decides, plain⟩
        simp only [Priority.decides, Bool.and_eq_true, decide_eq_true_eq,
          Bool.or_eq_true, beq_iff_eq] at other
        split
        · rename_i prefer
          exact absurd ⟨⟨here.1, here.2.2⟩, Or.inl prefer⟩ other
        · rename_i ignore
          rw [if_pos]
          intro zero
          exact other ⟨⟨here.1, here.2.2⟩, Or.inr ⟨ignore, zero⟩⟩
        · rfl
      · rfl
    rw [rests, Function.update_eq_self, taken, List.append_nil, same]
    exact stands

/-- One entry of the file and all ECM pids of a list. -/
theorem FileStands.pids (stands : FileStands d said turns sorting)
    (p : Priority) {pids : List (Fin ecmPids)} (nodup : pids.Nodup) :
    FileStands d
      (fun n => if n ∈ pids then p.turn d n (said n) else said n)
      (turns ++ pids.filter fun n =>
        p.decides d n && p.type == .prefer && said n == .plain)
      (pids.foldl (sortByPriority d p) sorting) := by
  induction pids using List.reverseRecOn with
  | nil =>
      rw [List.filter_nil, List.append_nil]
      simpa using stands
  | append_singleton pids n induction =>
      have parts := List.nodup_append.mp nodup
      have fresh : n ∉ pids := fun member =>
        parts.2.2 n member n (List.mem_singleton_self n) rfl
      have step := (induction parts.1).turn p n
      rw [if_neg fresh] at step
      have verdicts : (Function.update
          (fun m => if m ∈ pids then p.turn d m (said m) else said m) n
            (p.turn d n (said n))) =
          fun m => if m ∈ pids ++ [n] then p.turn d m (said m) else said m := by
        funext m
        by_cases same : m = n
        · rw [same, Function.update_self, if_pos (by simp)]
        · rw [Function.update_of_ne same]
          simp [same]
      have events : ([n].filter fun n => p.decides d n && p.type == .prefer &&
          (if n ∈ pids then p.turn d n (said n) else said n) == .plain) =
          [n].filter fun n =>
            p.decides d n && p.type == .prefer && said n == .plain := by
        apply List.filter_congr
        intro m member
        rw [List.mem_singleton.mp member, if_neg fresh]
      rw [List.foldl_append, List.filter_append, ← List.append_assoc,
        ← verdicts]
      rwa [events] at step

/-- The whole file. -/
theorem FileStands.rules {front : List Priority}
    (stands : FileStands d (fileVerdict front d) turns sorting)
    (rules : List Priority) :
    FileStands d (fileVerdict (front ++ rules) d)
      (turns ++ fileTurns d front rules)
      (rules.foldl (fun sorting p =>
        (List.finRange ecmPids).foldl (sortByPriority d p) sorting) sorting) := by
  induction rules generalizing front turns sorting with
  | nil =>
      rw [List.append_nil, fileTurns, List.append_nil]
      exact stands
  | cons p rules induction =>
      have turn := stands.pids p (List.nodup_finRange ecmPids)
      have verdicts : (fun n => if n ∈ List.finRange ecmPids then
          p.turn d n (fileVerdict front d n) else fileVerdict front d n) =
            fileVerdict (front ++ [p]) d := by
        funext n
        rw [if_pos (List.mem_finRange n), fileVerdict_append]
      rw [verdicts] at turn
      have rest := induction turn
      rw [List.append_assoc, List.append_assoc] at rest
      exact rest

/-! ### The services -/

theorem sortByService_eq (n : Fin ecmPids) (sorting : Sorting)
    (service : Cccam.Sidtab × Nat) :
    sortByService cfg d n sorting service =
      match serviceVerdict cfg d n service with
      | some .preferred => sorting.prioritize n
      | some _ => sorting.set n (-1)
      | none => sorting := by
  obtain ⟨sidtab, nr⟩ := service
  have twice : (sorting.set n (-1)).prioritize n = sorting.prioritize n := by
    unfold Sorting.prioritize Sorting.set
    rw [Function.update_idem]
  unfold sortByService serviceVerdict isFor serviceRequest
  dsimp only
  by_cases empty : sidtab.caid.isEmpty ∧ sidtab.provid.isEmpty ∧
      sidtab.srvid.isEmpty
  · rw [if_pos empty]
    simp [empty.1, empty.2.1, empty.2.2]
  · have kept : (!(sidtab.caid.isEmpty && sidtab.provid.isEmpty &&
        sidtab.srvid.isEmpty)) = true := by
      simp only [Bool.not_eq_true', Bool.and_eq_false_iff]
      by_contra all
      simp only [not_or, Bool.not_eq_false] at all
      exact empty ⟨all.1.1, all.1.2, all.2⟩
    rw [if_neg empty, kept, Bool.true_and]
    generalize Stat.chkSrvidMatch _ sidtab = fits
    cases fits with
    | false => simp
    | true =>
        simp only [and_true, if_true]
        by_cases good : cfg.sidtabok.testBit nr
        · rw [if_pos good, if_pos good]
          by_cases bad : cfg.sidtabno.testBit nr
          · rw [if_pos bad, twice]
          · rw [if_neg bad]
        · rw [if_neg good, if_neg good]
          by_cases bad : cfg.sidtabno.testBit nr
          · rw [if_pos bad, if_pos bad]
          · rw [if_neg bad, if_neg bad]

theorem serviceVerdict_ne_plain {service : Cccam.Sidtab × Nat} :
    serviceVerdict cfg d n service ≠ some .plain := by
  intro plain
  unfold serviceVerdict at plain
  split at plain
  · split at plain
    · cases plain
    · split at plain
      · cases plain
      · cases plain
  · cases plain

/-- What services say of an ECM pid. -/
def lastVerdict (cfg : Cfg) (d : Demux) (n : Fin ecmPids)
    (services : List (Cccam.Sidtab × Nat)) (before : Verdict) : Verdict :=
  (services.reverse.findSome? (serviceVerdict cfg d n)).getD before

theorem Stands.services (stands : Stands d said turns sorting)
    (n : Fin ecmPids) (services : List (Cccam.Sidtab × Nat)) :
    Stands d
      (Function.update said n (lastVerdict cfg d n services (said n)))
      (turns ++ List.replicate (services.countP fun service =>
        serviceVerdict cfg d n service == some .preferred) n)
      (services.foldl (sortByService cfg d n) sorting) := by
  induction services using List.reverseRecOn with
  | nil =>
      have same : lastVerdict cfg d n [] (said n) = said n := rfl
      rw [same, Function.update_eq_self]
      simpa using stands
  | append_singleton services service induction =>
      have last : lastVerdict cfg d n (services ++ [service]) (said n) =
          (serviceVerdict cfg d n service).getD
            (lastVerdict cfg d n services (said n)) := by
        unfold lastVerdict
        rw [List.reverse_append, List.reverse_singleton, List.singleton_append,
          List.findSome?_cons]
        cases serviceVerdict cfg d n service with
        | some verdict => rfl
        | none => rfl
      rw [List.foldl_append, List.foldl_cons, List.foldl_nil, last,
        sortByService_eq, List.countP_append, List.countP_singleton]
      cases found : serviceVerdict cfg d n service with
      | none => simpa using induction
      | some word =>
          cases word with
          | preferred =>
              have step := induction.prioritize n
              rw [Function.update_idem, List.append_assoc] at step
              rw [beq_self_eq_true, if_pos rfl, List.replicate_succ']
              exact step
          | ignored =>
              have step := induction.ignore n
              rw [Function.update_idem] at step
              simpa using step
          | plain => exact absurd found serviceVerdict_ne_plain

/-- All services and the ECM pids of a list. -/
theorem Stands.pids (stands : Stands d said turns sorting)
    {pids : List (Fin ecmPids)} (nodup : pids.Nodup) :
    Stands d
      (fun n => if n ∈ pids ∧ d.InUse n then
        lastVerdict cfg d n cfg.sidtab.zipIdx (said n) else said n)
      (turns ++ (pids.filter d.InUse).flatMap (serviceTurns cfg d))
      (pids.foldl (fun sorting n =>
        if d.InUse n then
          cfg.sidtab.zipIdx.foldl (sortByService cfg d n) sorting
        else sorting) sorting) := by
  induction pids using List.reverseRecOn with
  | nil =>
      rw [List.filter_nil, List.flatMap_nil, List.append_nil]
      simpa using stands
  | append_singleton pids n induction =>
      have parts := List.nodup_append.mp nodup
      have fresh : n ∉ pids := fun member =>
        parts.2.2 n member n (List.mem_singleton_self n) rfl
      have before := induction parts.1
      rw [List.foldl_append, List.foldl_cons, List.foldl_nil,
        List.filter_append]
      by_cases used : d.InUse n
      · have step := @Stands.services cfg _ _ _ _ before n cfg.sidtab.zipIdx
        rw [if_neg fun both => fresh both.1, List.append_assoc] at step
        have one : [n].filter d.InUse = [n] := by
          rw [List.filter_singleton, decide_eq_true used]
          rfl
        rw [if_pos used, one, List.flatMap_append, List.flatMap_singleton]
        refine step.congr fun m _ => ?_
        by_cases same : m = n
        · rw [same, Function.update_self, if_pos ⟨by simp, used⟩]
        · rw [Function.update_of_ne same]
          simp [same]
      · have none : [n].filter d.InUse = [] := by
          rw [List.filter_singleton, decide_eq_false used]
          rfl
        rw [if_neg used, none, List.append_nil]
        refine before.congr fun m usedToo => ?_
        have other : m ≠ n := fun same => used (same ▸ usedToo)
        simp [other]

/-! ### All of it -/

/-- Nothing is said yet. -/
theorem stands_start (d : Demux) :
    FileStands d (fileVerdict [] d) []
      { status := fun n => if d.InUse n then 0 else (d.ecmPid n).status
        newStatus := 1 } where
  newStatus := rfl
  status := fun _ used => if_pos used
  members := fun _ => iff_of_false List.not_mem_nil Verdict.noConfusion
  nodup := List.nodup_nil

/-- The statuses of `dvbapi_resort_ecmpids` at the end. -/
theorem stands_resort (cfg : Cfg) (d : Demux) :
    ∃ sorted, Stands d (verdict cfg d) (prioritisations cfg d) sorted ∧
      resortEcmpids cfg d = { d with
        ecmPid := fun n => { d.ecmPid n with status := sorted.status n }
        maxStatus := Int8.ofNat sorted.newStatus } := by
  have file := ((stands_start d).rules cfg.priority).toStands
  have all := @Stands.pids cfg _ _ _ _ file _ (List.nodup_finRange ecmPids)
  refine ⟨_, all.congr fun n used => ?_, rfl⟩
  rw [if_pos ⟨List.mem_finRange n, used⟩, List.nil_append]
  rfl

/-- `dvbapi_resort_ecmpids` stores each position in eight bits. -/
theorem resortEcmpids_status (cfg : Cfg) (d : Demux) (used : d.InUse n) :
    ((resortEcmpids cfg d).ecmPid n).status =
      (verdict cfg d n).status (position (prioritisations cfg d) n) := by
  obtain ⟨sorted, stands, same⟩ := stands_resort cfg d
  rw [same]
  exact stands.status n used

theorem resortEcmpids_maxStatus (cfg : Cfg) (d : Demux) :
    (resortEcmpids cfg d).maxStatus =
      Int8.ofNat ((prioritisations cfg d).length + 1) := by
  obtain ⟨sorted, stands, same⟩ := stands_resort cfg d
  rw [same]
  exact congrArg Int8.ofNat stands.newStatus

end Oscam.Dvbapi
