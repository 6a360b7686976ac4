import Mathlib.Data.Fintype.Prod
import Oscam.Dvbapi.Events

/-!
# Descrambler indices

An entry in use that is descrambled has an index of its own.  The search for a
free one looks only at entries in use, while an entry that is no longer counted
keeps its index; when it is counted again, another may have got the same one.
-/

namespace Oscam.Dvbapi

/-- Entries in use have different indices unless they have none. -/
def DistinctIndices (s : State) : Prop :=
  ∀ i n j k, (s i).InUse n → (s j).InUse k →
    ((s i).ecmPid n).index ≠ 0 →
    ((s i).ecmPid n).index = ((s j).ecmPid k).index → i = j ∧ n = k

/-! ## The free index -/

/-- The entries in use that have an index. -/
def indexed (s : State) : Finset (Fin maxDemux × Fin ecmPids) :=
  Finset.univ.filter fun p =>
    (s p.1).InUse p.2 ∧ ((s p.1).ecmPid p.2).index ≠ 0

/-- The entries of a demux that get an index when the descrambling starts. -/
def pending (cfg : Cfg) (d : Demux) : Finset (Fin ecmPids) :=
  Finset.univ.filter fun j =>
    d.InUse j ∧ d.goesAlong cfg j = true ∧ (d.ecmPid j).index = 0

section

variable {cfg : Cfg} {s : State} {i : Fin maxDemux} {j : Fin ecmPids}
  {entry : EcmPid}

theorem inUse_setEcmPid (k : Fin maxDemux) (n : Fin ecmPids) :
    (setEcmPid s i j entry k).InUse n ↔ (s k).InUse n := by
  by_cases here : k = i
  · subst here
    rw [setEcmPid_self]
    exact Iff.rfl
  · rw [setEcmPid_of_ne here]

theorem index_setEcmPid (k : Fin maxDemux) (n : Fin ecmPids) :
    ((setEcmPid s i j entry k).ecmPid n).index =
      if k = i ∧ n = j then entry.index else ((s k).ecmPid n).index := by
  by_cases here : k = i
  · subst here
    rw [setEcmPid_self]
    dsimp only
    by_cases same : n = j
    · subst same
      rw [Function.update_self, if_pos ⟨rfl, rfl⟩]
    · rw [Function.update_of_ne same, if_neg fun both => same both.2]
  · rw [setEcmPid_of_ne here, if_neg fun both => here both.1]

end

/-- Fewer entries in use with the same indices are different as before. -/
theorem DistinctIndices.mono {s t : State} (distinct : DistinctIndices s)
    (kept : ∀ i n, (t i).InUse n → (s i).InUse n ∧
      ((t i).ecmPid n).index = ((s i).ecmPid n).index) :
    DistinctIndices t := by
  intro i n j k usedN usedK some same
  obtain ⟨usedN, indexN⟩ := kept i n usedN
  obtain ⟨usedK, indexK⟩ := kept j k usedK
  rw [indexN] at some same
  rw [indexK] at same
  exact distinct i n j k usedN usedK some same

theorem entries_update {s : State} {i : Fin maxDemux} {d : Demux}
    (count : d.ecmPidCount = (s i).ecmPidCount)
    (index : ∀ n, (d.ecmPid n).index = ((s i).ecmPid n).index)
    (k : Fin maxDemux) (n : Fin ecmPids) :
    ((Function.update s i d k).InUse n ↔ (s k).InUse n) ∧
      ((Function.update s i d k).ecmPid n).index =
        ((s k).ecmPid n).index := by
  by_cases here : k = i
  · subst here
    rw [Function.update_self]
    unfold Demux.InUse
    rw [count]
    exact ⟨Iff.rfl, index n⟩
  · rw [Function.update_of_ne here]
    exact ⟨Iff.rfl, rfl⟩

/-- A demux whose entries and indices are the same. -/
theorem DistinctIndices.update {s : State} (distinct : DistinctIndices s)
    (i : Fin maxDemux) {d : Demux}
    (count : d.ecmPidCount = (s i).ecmPidCount)
    (index : ∀ n, (d.ecmPid n).index = ((s i).ecmPid n).index) :
    DistinctIndices (Function.update s i d) := by
  refine distinct.mono fun k n used => ?_
  have same := entries_update count index k n
  exact ⟨same.1.mp used, same.2⟩

/-- An entry gets an index that is in use nowhere. -/
theorem DistinctIndices.set {s : State} (distinct : DistinctIndices s)
    (i : Fin maxDemux) (j : Fin ecmPids) {entry : EcmPid}
    (unused : ∀ k n, (s k).InUse n →
      ((s k).ecmPid n).index ≠ entry.index) :
    DistinctIndices (setEcmPid s i j entry) := by
  intro k n l q usedN usedQ some same
  rw [inUse_setEcmPid] at usedN usedQ
  rw [index_setEcmPid] at some same
  rw [index_setEcmPid] at same
  by_cases first : k = i ∧ n = j
  · by_cases second : l = i ∧ q = j
    · exact ⟨first.1.trans second.1.symm, first.2.trans second.2.symm⟩
    · rw [if_pos first, if_neg second] at same
      exact absurd same.symm (unused l q usedQ)
  · rw [if_neg first] at some same
    by_cases second : l = i ∧ q = j
    · rw [if_pos second] at same
      exact absurd same (unused k n usedN)
    · rw [if_neg second] at same
      exact distinct k n l q usedN usedQ some same

/-- The descrambler slot to which a control word is written. -/
def Demux.slot (d : Demux) (er : Dcw) : Option Int :=
  (d.entryOf er).map fun n => (d.ecmPid n).index.toInt - 1

theorem slot_some {d : Demux} {er : Dcw} {slot : Int}
    (written : d.slot er = some slot) :
    ∃ n, d.InUse n ∧ (d.ecmPid n).index.toInt = slot + 1 := by
  obtain ⟨n, entry, rfl⟩ := Option.map_eq_some_iff.mp written
  have all := List.find?_some entry
  simp only [Bool.and_eq_true, decide_eq_true_eq] at all
  exact ⟨n, all.1.1, by omega⟩

/-- Two demuxes write to the same slot only if their entries have no index. -/
theorem DistinctIndices.slots {s : State} (distinct : DistinctIndices s)
    {i j : Fin maxDemux} {er other : Dcw} {slot : Int} (some : slot ≠ -1)
    (first : (s i).slot er = .some slot)
    (second : (s j).slot other = .some slot) : i = j := by
  obtain ⟨n, usedN, indexN⟩ := slot_some first
  obtain ⟨k, usedK, indexK⟩ := slot_some second
  refine (distinct i n j k usedN usedK ?_ ?_).1
  · intro none
    rw [none] at indexN
    have zero : (0 : Int8).toInt = 0 := rfl
    omega
  · exact Int8.toInt_inj.mp (indexN.trans indexK.symm)

end Oscam.Dvbapi
