import Mathlib.Data.Fintype.Card
import Oscam.Dvbapi.Pids

/-!
# The loops end

The loops of the dvbapi have as many turns in the definitions as they can need:
with more turns they do the same.
-/

namespace Oscam.Dvbapi

/-! ## The search for a free index -/

theorem hasIndex_of_le {d : Demux} {idx : Nat} (large : 128 ≤ idx) :
    hasIndex d idx = false := by
  rw [hasIndex, List.any_eq_false]
  intro j _member both
  have equal := of_decide_eq_true (Bool.and_eq_true_iff.mp both).2
  have small := Int8.toInt_lt (d.ecmPid j).index
  omega

theorem le_descindexPass (s : State) (idx : Nat) :
    idx ≤ descindexPass s idx := by
  unfold descindexPass
  induction List.finRange maxDemux generalizing idx with
  | nil => exact le_rfl
  | cons i rest induction =>
      rw [List.foldl_cons]
      split
      · exact (Nat.le_succ idx).trans (induction _)
      · exact induction idx

theorem descindexPass_of_le (s : State) {idx : Nat} (large : 128 ≤ idx) :
    descindexPass s idx = idx := by
  unfold descindexPass
  induction List.finRange maxDemux with
  | nil => rfl
  | cons i rest induction =>
      rw [List.foldl_cons, hasIndex_of_le large]
      exact induction

theorem descindexLoop_enough (s : State) {fuel idx : Nat} (more : Nat)
    (enough : 128 - idx < fuel) :
    descindexLoop s (fuel + more) idx = descindexLoop s fuel idx := by
  induction fuel generalizing idx with
  | zero => cases enough
  | succ fuel induction =>
      rw [Nat.succ_add_eq_add_succ, Nat.add_succ, descindexLoop, descindexLoop]
      by_cases last : descindexPass s idx = idx
      · rw [if_pos last, if_pos last]
      · have further := le_descindexPass s idx
        have small : idx < 128 := by
          by_contra large
          exact last (descindexPass_of_le s (Nat.not_lt.mp large))
        rw [if_neg last, if_neg last, induction (by omega)]

/-! ## The next ECM pid -/

/-- What is tried next is in use and unchecked. -/
theorem nextPid_some {d : Demux} {num : Fin ecmPids}
    (next : d.nextPid = some num) :
    d.InUse num ∧ (d.ecmPid num).checked = false := by
  have unchecked {status : Int}
      (found : (List.finRange ecmPids).find? (fun n =>
        decide (d.InUse n) && !(d.ecmPid n).checked &&
          decide ((d.ecmPid n).status.toInt = status)) = some num) :
      d.InUse num ∧ (d.ecmPid num).checked = false := by
    have all := List.find?_some found
    simp only [Bool.and_eq_true, decide_eq_true_eq, Bool.not_eq_true'] at all
    exact all.1
  unfold Demux.nextPid at next
  dsimp only at next
  rcases Option.or_eq_some_iff.mp next with best | ⟨-, last⟩
  · obtain ⟨j, -, found⟩ := List.exists_of_findSome?_eq_some best
    exact unchecked found
  · exact unchecked last

/-- The entries that are not checked. -/
def Demux.unchecked (d : Demux) : Finset (Fin ecmPids) :=
  Finset.univ.filter fun n => (d.ecmPid n).checked = false

/-- In request mode 1 every turn checks an entry. -/
theorem tryTurns_enough_checked (cfg : Cfg) (mode : cfg.requestmode = 1)
    {turns : Nat} (more : Nat) {d : Demux}
    (enough : d.unchecked.card < turns) :
    tryTurns cfg (turns + more) d = tryTurns cfg turns d := by
  induction turns generalizing d with
  | zero => cases enough
  | succ turns induction =>
      rw [Nat.succ_add_eq_add_succ, Nat.add_succ, tryTurns, tryTurns,
        if_pos mode]
      split
      · rfl
      cases next : d.nextPid with
      | none => rfl
      | some num =>
          apply induction
          refine Nat.lt_of_lt_of_le (Finset.card_lt_card ?_)
            (Nat.lt_succ_iff.mp enough)
          refine (Finset.ssubset_iff_of_subset ?_).mpr ⟨num, ?_, ?_⟩
          · intro n member
            simp only [Demux.unchecked, Finset.mem_filter, Finset.mem_univ,
              true_and] at member ⊢
            by_cases same : n = num
            · subst same
              simp only [Function.update_self] at member
              cases member
            · rwa [Function.update_of_ne same] at member
          · exact Finset.mem_filter.mpr
              ⟨Finset.mem_univ num, (nextPid_some next).2⟩
          · simp [Demux.unchecked]

/-- In the other modes every turn but the last is a try more. -/
theorem tryTurns_enough_tries (cfg : Cfg) (mode : cfg.requestmode ≠ 1)
    {turns : Nat} (more : Nat) {d : Demux}
    (enough : 3 - d.tries.toInt < turns) (filled : 0 < turns) :
    tryTurns cfg (turns + more) d = tryTurns cfg turns d := by
  induction turns generalizing d with
  | zero => cases filled
  | succ turns induction =>
      rw [Nat.succ_add_eq_add_succ, Nat.add_succ, tryTurns, tryTurns,
        if_neg mode]
      split
      · rfl
      rename_i few
      cases next : d.nextPid with
      | none =>
          have low : d.tries.toInt ≤ 2 := by
            have order := mt Int8.lt_iff_toInt_lt.mpr few
            have two : (2 : Int8).toInt = 2 := rfl
            omega
          have above := Int8.le_toInt d.tries
          have step : (d.tries + 1).toInt = d.tries.toInt + 1 := by
            rw [Int8.toInt_add]
            have one : (1 : Int8).toInt = 1 := rfl
            rw [one, Int.bmod_eq_of_le (by omega) (by omega)]
          apply induction
          · dsimp only
            rw [step]
            omega
          · omega
      | some num => rfl

theorem tryNextCaid_enough (cfg : Cfg) (more : Nat) (d : Demux) :
    tryTurns cfg (200 + more) d = tryNextCaid cfg d := by
  unfold tryNextCaid
  by_cases mode : cfg.requestmode = 1
  · have few : d.unchecked.card ≤ 30 :=
      (Finset.card_le_univ _).trans_eq (Fintype.card_fin _)
    exact tryTurns_enough_checked cfg mode more (by omega)
  · have above := Int8.le_toInt d.tries
    exact tryTurns_enough_tries cfg mode more (by omega) (by omega)

/-! ## The streams -/

/-- No stream is added any more after as many as the table can have. -/
theorem addStreams_full (m : Memory) (length : Nat) (places rest : List Nat)
    (d : Demux) (enough : ecmPids < places.length + d.streamPids.length) :
    addStreams m length (places ++ rest) d = addStreams m length places d := by
  induction places generalizing d with
  | nil =>
      have room := d.streamPids_le
      rw [List.length_nil] at enough
      omega
  | cons p places induction =>
      rw [List.cons_append, addStreams, addStreams]
      split
      · rename_i room
        apply induction (addStreamTurn m length d room p)
        rw [length_addStreamTurn]
        rw [List.length_cons] at enough
        omega
      · rfl

/-! ## All loops -/

/-- More turns than the loops of the parsers have change nothing. -/
structure LoopsEnd (m : Memory) : Prop where
  seca : ∀ length more,
    places (· + 15) length (length + more) 2 = secaPids length
  descriptors : ∀ base infoLength more,
    let area := descriptorArea m base infoLength
    (places (fun j => j + (m (area.1 + j + 1)).toNat + 2) area.2
      (area.2 + more) 0).map (area.1 + ·) = descriptorPlaces m base infoLength
  streams : ∀ base length more d,
    addStreams m length
      ((places (fun i => i + bits12 m (base + i + 3) + 5) length
        (ecmPids + 1 + more) (bits12 m (base + 4) + 8)).map (base + ·)) d =
      addStreams m length (streamPlaces m base length) d
  tries : ∀ cfg more d, tryTurns cfg (200 + more) d = tryNextCaid cfg d
  indices : ∀ s more, descindexLoop s (128 + more) 1 = getDescindex s
  cat : ∀ more,
    places (fun i => i + (m (i + 1)).toNat + 2) (bits12 m 1 - 1)
      (bits12 m 1 + more) 8 = catPlaces m
  catSeca : ∀ i more,
    places (· + 4) (i + (m (i + 1)).toNat + 2) ((m (i + 1)).toNat + more)
      (i + 7) = catSecaPids m i
  catViaccess : ∀ i more,
    places (fun k => k + (m (k + 1)).toNat + 2) (i + (m (i + 1)).toNat + 2)
      ((m (i + 1)).toNat + more) (i + 6) = catViaccessParts m i

theorem loopsEnd (m : Memory) : LoopsEnd m where
  seca := fun length more =>
    Places.places_enough (fun p => by omega) (by omega)
  descriptors := by
    intro base infoLength more
    dsimp only
    rw [Places.places_enough (fun p => by omega) (by omega)]
    rfl
  streams := by
    intro base length more d
    obtain ⟨rest, same, used⟩ := Places.places_prefix
      (fun i => i + bits12 m (base + i + 3) + 5) length (ecmPids + 1)
      (bits12 m (base + 4) + 8) more
    rw [same, List.map_append]
    rcases used with all | rfl
    · apply addStreams_full
      rw [List.length_map, all]
      omega
    · rw [List.map_nil, List.append_nil]
      rfl
  tries := tryNextCaid_enough
  indices := fun s more => descindexLoop_enough s more (by omega)
  cat := fun more => Places.places_enough (fun p => by omega) (by omega)
  catSeca := fun i more => Places.places_enough (fun p => by omega) (by omega)
  catViaccess := fun i more =>
    Places.places_enough (fun p => by omega) (by omega)

end Oscam.Dvbapi
