import Oscam.Lib.Comparison
import Oscam.Stat.StatFile

/-!
# Sorting statistics

`sort_stat`, which puts the records of a reader in order for the web interface.
The comparison subtracts field after field and keeps the differences in an
`int`.
-/

namespace Oscam.Stat

open Comparison

/-- The fields in the order in which they are compared. -/
def ReaderStat.sortKey (stat : ReaderStat) : List Int :=
  [stat.rc, stat.caid, stat.prid, stat.srvid, stat.ecmlen, stat.lastReceived]

/-- `compare_stat`. -/
def compareStat (s1 s2 : ReaderStat) : Int :=
  let res := int32 (s1.rc - s2.rc)
  if res ≠ 0 then res else
  let res := int32 ((s1.caid : Int) - s2.caid)
  if res ≠ 0 then res else
  let res := int32 ((s1.prid : Int) - s2.prid)
  if res ≠ 0 then res else
  let res := int32 ((s1.srvid : Int) - s2.srvid)
  if res ≠ 0 then res else
  let res := int32 (s1.ecmlen - s2.ecmlen)
  if res ≠ 0 then res else
  int32 (s1.lastReceived - s2.lastReceived)

/-- `compare_stat_r`. -/
def compareStatR (ps1 ps2 : ReaderStat) : Int := int32 (-compareStat ps1 ps2)

/-- `ll_sort`: the nodes stay where they are, only the records are sorted. -/
def LlSort (compare : ReaderStat → ReaderStat → Int)
    (before after : List StatNode) : Prop :=
  ∃ p, Sorts compare (before.map (·.stat)) p ∧
    after = before.zipWith (fun node obj => { node with stat := obj }) p

/-- `sort_stat`. -/
def SortStat (reverse : Bool) (before after : List StatNode) : Prop :=
  if reverse then LlSort compareStatR before after
  else LlSort compareStat before after

/-! ## Records in order -/

/-- Two records in the order of their fields. -/
def ReaderStat.InOrder (s1 s2 : ReaderStat) : Prop :=
  ¬ Before s2.sortKey s1.sortKey

/-- `compare_stat` is an order of some records, and `sort_stat` puts every list
of them in order, one way or the other. -/
structure SortsInOrder (records : Set ReaderStat) : Prop where
  preorder : Preorder compareStat records
  upwards : ∀ before after, (∀ node ∈ before, node.stat ∈ records) →
    SortStat false before after →
      (after.map (·.stat)).Pairwise ReaderStat.InOrder
  downwards : ∀ before after, (∀ node ∈ before, node.stat ∈ records) →
    SortStat true before after →
      (after.map (·.stat)).Pairwise fun s1 s2 => s2.InOrder s1

/-- In the first field in which two records differ, the difference keeps its
sign as an `int`. -/
def Comparable (s1 s2 : ReaderStat) : Prop :=
  Kept (2 ^ 32) s1.sortKey s2.sortKey

/-! ## The comparison -/

theorem compareStat_eq : compareStat = byKey (2 ^ 32) ReaderStat.sortKey := by
  funext s1 s2
  have last (x y : Int) : int32 (x - y) = differ (2 ^ 32) [x] [y] := by
    by_cases zero : (x - y).bmod (2 ^ 32) = 0
    · have none : differ (2 ^ 32) [x] [y] = 0 := if_neg (not_not.mpr zero)
      rw [none]
      exact zero
    · exact (differ_cons_of_ne zero [] []).symm
  unfold compareStat byKey ReaderStat.sortKey
  rw [last s1.lastReceived]
  rfl

theorem compareStatR_eq (ps1 ps2 : ReaderStat) :
    compareStatR ps1 ps2 = compareStat ps2 ps1 := by
  rw [compareStatR, compareStat_eq]
  exact (differ_swap (2 ^ 32) ps1.sortKey ps2.sortKey).symm

theorem int32_sub_eq_zero {x y : Int} (low : -2 ^ 32 < x - y)
    (high : x - y < 2 ^ 32) (zero : int32 (x - y) = 0) : x = y := by
  have multiple := Int.dvd_of_bmod_eq_zero zero
  omega

theorem int32_bounds {x : Int} (typed : int32 x = x) :
    -2 ^ 31 ≤ x ∧ x < 2 ^ 31 := by
  have low := Int.le_bmod (x := x) (m := 2 ^ 32) (by decide)
  have high := Int.bmod_lt (x := x) (m := 2 ^ 32) (by decide)
  unfold int32 at typed
  omega

theorem int16_bounds {x : Int} (typed : int16 x = x) :
    -2 ^ 15 ≤ x ∧ x < 2 ^ 15 := by
  have low := Int.le_bmod (x := x) (m := 2 ^ 16) (by decide)
  have high := Int.bmod_lt (x := x) (m := 2 ^ 16) (by decide)
  unfold int16 at typed
  omega

/-- Only the time may differ by a multiple of the size of an `int`. -/
theorem ReaderStat.Typed.narrow {s1 s2 : ReaderStat} (typed : s1.Typed)
    (typed' : s2.Typed) : Narrow (2 ^ 32) s1.sortKey s2.sortKey := by
  have rc := int32_bounds typed.rc
  have rc' := int32_bounds typed'.rc
  have ecmlen := int16_bounds typed.ecmlen
  have ecmlen' := int16_bounds typed'.ecmlen
  have caid := typed.caid
  have caid' := typed'.caid
  have prid := typed.prid
  have prid' := typed'.prid
  have srvid := typed.srvid
  have srvid' := typed'.srvid
  refine ⟨int32_sub_eq_zero ?_ ?_, int32_sub_eq_zero ?_ ?_,
    int32_sub_eq_zero ?_ ?_, int32_sub_eq_zero ?_ ?_,
    int32_sub_eq_zero ?_ ?_, trivial⟩
  all_goals omega

/-! ## Sorting -/

theorem map_stat_zipWith {before : List StatNode} {p : List ReaderStat}
    (length : p.length = before.length) :
    (before.zipWith (fun node obj => { node with stat := obj }) p).map
      (·.stat) = p := by
  induction before generalizing p with
  | nil => exact (List.length_eq_zero_iff.mp length).symm
  | cons node before induction => cases p with
    | nil => exact absurd length.symm (Nat.succ_ne_zero _)
    | cons obj p =>
        have rest := induction (Nat.succ.inj length)
        exact congrArg (obj :: ·) rest

/-- A list of records on nodes. -/
def onNodes (stats : List ReaderStat) : List StatNode :=
  stats.map fun stat => { stat := stat, flag := 0 }

theorem map_stat_onNodes (stats : List ReaderStat) :
    (onNodes stats).map (·.stat) = stats := by
  unfold onNodes
  rw [List.map_map]
  exact List.map_id _

/-- `ll_sort` puts the records on the nodes as `qsort` does in an array. -/
theorem orders_iff_llSort (compare : ReaderStat → ReaderStat → Int)
    (key : ReaderStat → List Int) (records : Set ReaderStat) :
    Orders compare key records ↔
      ∀ before after, (∀ node ∈ before, node.stat ∈ records) →
        LlSort compare before after →
          (after.map (·.stat)).Pairwise fun s1 s2 =>
            ¬ Before (key s2) (key s1) := by
  constructor
  · intro orders before after inside ⟨p, sorts, result⟩
    have length : p.length = before.length := by
      rw [sorts.perm.length_eq, List.length_map]
    rw [result, map_stat_zipWith length]
    apply orders (before.map (·.stat)) p _ sorts
    intro stat member
    obtain ⟨node, here, rfl⟩ := List.mem_map.mp member
    exact inside node here
  · intro orders before after inside sorts
    have length : after.length = (onNodes before).length := by
      rw [sorts.perm.length_eq, ← map_stat_onNodes before, List.length_map,
        map_stat_onNodes]
    have sorted := orders (onNodes before) _ (by
      intro node member
      obtain ⟨stat, here, rfl⟩ := List.mem_map.mp member
      exact inside stat here) ⟨after, by rwa [map_stat_onNodes], rfl⟩
    rwa [map_stat_zipWith length] at sorted

/-- Sorting with `compare_stat_r` is sorting the other way round. -/
theorem pairwise_downwards {records : Set ReaderStat}
    (preorder : Preorder compareStat records)
    (upwards : ∀ s1 ∈ records, ∀ s2 ∈ records,
      compareStat s1 s2 ≤ 0 → s1.InOrder s2)
    {before after : List StatNode}
    (inside : ∀ node ∈ before, node.stat ∈ records)
    (sorts : SortStat true before after) :
    (after.map (·.stat)).Pairwise fun s1 s2 => s2.InOrder s1 := by
  obtain ⟨p, sorts, result⟩ : LlSort compareStatR before after := sorts
  have length : p.length = before.length := by
    rw [sorts.perm.length_eq, List.length_map]
  have members : ∀ stat ∈ before.map (·.stat), stat ∈ records := by
    intro stat member
    obtain ⟨node, here, rfl⟩ := List.mem_map.mp member
    exact inside node here
  have order : Preorder compareStatR {stat | stat ∈ before.map (·.stat)} := by
    have order := preorder.mono members
    constructor
    · intro a inA b inB
      rw [compareStatR_eq, compareStatR_eq]
      exact order.antisymm b inB a inA
    · intro a inA b inB c inC
      rw [compareStatR_eq, compareStatR_eq, compareStatR_eq]
      intro below above
      exact order.trans c inC b inB a inA above below
  rw [result, map_stat_zipWith length]
  apply (sorts.sorted order).imp_of_mem
  intro a b inA inB below
  rw [compareStatR_eq] at below
  exact upwards b (members b (sorts.perm.mem_iff.mp inB)) a
    (members a (sorts.perm.mem_iff.mp inA)) below

/-! ## Which records are sorted -/

theorem sortsInOrder_iff {records : Set ReaderStat}
    (typed : ∀ stat ∈ records, stat.Typed) :
    SortsInOrder records ↔
      ∀ s1 ∈ records, ∀ s2 ∈ records, Comparable s1 s2 := by
  have length (s1 : ReaderStat) (_ : s1 ∈ records) (s2 : ReaderStat)
      (_ : s2 ∈ records) : s1.sortKey.length = s2.sortKey.length := rfl
  have narrow (s1 : ReaderStat) (in1 : s1 ∈ records) (s2 : ReaderStat)
      (in2 : s2 ∈ records) : Narrow (2 ^ 32) s1.sortKey s2.sortKey :=
    (typed s1 in1).narrow (typed s2 in2)
  constructor
  · intro sorts s1 in1 s2 in2
    have preorder := sorts.preorder
    have orders := (orders_iff_llSort compareStat ReaderStat.sortKey
      records).mpr sorts.upwards
    rw [compareStat_eq] at preorder orders
    exact kept_of_orders length narrow preorder orders in1 in2
  · intro kept
    have preorder := preorder_of_kept length kept
    have orders := orders_of_kept length kept
    rw [← compareStat_eq] at preorder orders
    refine ⟨preorder, (orders_iff_llSort _ _ records).mp orders, ?_⟩
    intro before after inside sorts
    apply pairwise_downwards preorder _ inside sorts
    intro s1 in1 s2 in2 below
    rw [compareStat_eq] at below
    exact (byKey_le_iff (length s1 in1 s2 in2) (kept s1 in1 s2 in2)).mp below

/-- A found record of a provider. -/
def providerStat (prid : Nat) : ReaderStat :=
  { rc := 0, caid := 0x0500, prid := prid, srvid := 0x0001, ecmlen := 0x89
    lastReceived := 0, ecmCount := 1, timeAvg := 300, failFactor := 0 }

theorem typed_providerStat_zero : (providerStat 0).Typed := by
  constructor <;> decide

theorem typed_providerStat {prid : Nat} (small : prid < 2 ^ 32) :
    (providerStat prid).Typed :=
  { typed_providerStat_zero with prid := small }

theorem comparable_providerStat {prid prid' : Nat} (small : prid < 2 ^ 31)
    (small' : prid' < 2 ^ 31) :
    Comparable (providerStat prid) (providerStat prid') := by
  by_cases same : (prid : Int) = prid'
  · show if (prid : Int) = prid' then _ else _
    rw [if_pos same]
    trivial
  · show if (prid : Int) = prid' then _ else _
    have value : ((prid : Int) - prid').bmod (2 ^ 32) = prid - prid' :=
      Int.bmod_eq_of_le (by omega) (by omega)
    rw [if_neg same]
    exact congrArg Int.sign value

/-- All providers of Viaccess are compared as they should be. -/
theorem sortsInOrder_iff_viaccess :
    SortsInOrder {stat | ∃ prid, prid < 2 ^ 24 ∧ stat = providerStat prid} := by
  apply (sortsInOrder_iff _).mpr
  · rintro _ ⟨prid, small, rfl⟩ _ ⟨prid', small', rfl⟩
    exact comparable_providerStat (by omega) (by omega)
  · rintro _ ⟨prid, small, rfl⟩
    exact typed_providerStat (by omega)

/-- The provider `0x80000000` is before 0 and 0 before it. -/
theorem not_sortsInOrder_prid :
    ¬ ∀ records : Set ReaderStat, (∀ stat ∈ records, stat.Typed) →
      SortsInOrder records := by
  intro always
  have sorts := always {stat | stat.Typed} fun _ typed => typed
  have signs := sorts.preorder.antisymm (providerStat 0)
    (typed_providerStat (by decide)) (providerStat 0x80000000)
    (typed_providerStat (by decide))
  revert signs
  decide

end Oscam.Stat
