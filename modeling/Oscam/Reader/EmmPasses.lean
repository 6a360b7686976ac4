import Oscam.Reader.EmmCache

/-!
# How often an EMM is passed on

While an EMM stays in the ring, its count says how many EMMs with its first
`emm[2]` bytes have come, and `rewritemm` says how many of them are passed on.
-/

namespace Oscam.EmmCache

variable {δ : Type} [DecidableEq δ] {md5 : List UInt8 → δ} {rdr : EmmReader}
  {zero : δ} {s : EmmRun δ} {call : EmmCall}

/-- The EMMs of some calls, each with what `reader_do_emm` did with it. -/
def EmmRun.trace (md5 : List UInt8 → δ) (rdr : EmmReader) :
    EmmRun δ → List EmmCall → List (Emm × Nat)
  | _, [] => []
  | s, call :: calls =>
      (call.ep.emm, s.ecs md5 rdr call) ::
        EmmRun.trace md5 rdr (s.step md5 rdr call) calls

/-- How many EMMs some calls store. -/
def EmmRun.stores (md5 : List UInt8 → δ) (rdr : EmmReader) (s : EmmRun δ)
    (calls : List EmmCall) : Nat :=
  (s.trace md5 rdr calls).countP fun done => done.2 == 0

/-- How often some calls pass an EMM on. -/
def EmmRun.passes (md5 : List UInt8 → δ) (rdr : EmmReader) (s : EmmRun δ)
    (emm : Emm) (calls : List EmmCall) : Nat :=
  (s.trace md5 rdr calls).countP fun done => done.1 == emm && done.2 < 2

/-- The EMMs that the cache cannot tell from this one. -/
def lookalikes (emm : Emm) (calls : List EmmCall) : List Emm :=
  (calls.map fun call => call.ep.emm).filter fun other =>
    other.hashed = emm.hashed

/-! ## An EMM in its cell -/

/-- An EMM is in cell `i`, with its count and the number of stores since. -/
structure Kept (md5 : List UInt8 → δ) (zero : δ) (s : EmmRun δ) (i : Nat)
    (emm : Emm) (count : Int) (age : Nat) : Prop where
  tracks : Tracks md5 zero s
  held : s.held.cells[i]? = some (some emm)
  cell : ∃ cell, s.cells.cells[i]? = some cell ∧ cell.count = count
  age_eq : s.cells.age i = age

namespace Kept

variable {i : Nat} {emm : Emm} {count : Int} {age : Nat}

/-- An EMM that was stored is in the cell written last. -/
theorem of_stored (tracks : Tracks md5 zero s)
    (stored : s.ecs md5 rdr call = 0) :
    Kept md5 zero (s.step md5 rdr call) (s.step md5 rdr call).cells.place
      call.ep.emm 1 0 := by
  rcases step_cases md5 rdr s call with ⟨new, _, step⟩ | ⟨cell, _, _, ecs, _⟩
  · have held := held_append s.cells (readerStoreEmm md5 s.cells call.ep)
      s.stored call.ep.emm
    have next := tracks.store new
    rw [step]
    refine ⟨next, ?_, ?_, RingBuffer.age_place _⟩
    · have place : (readerStoreEmm md5 s.cells call.ep).place =
          (s.held.push (some call.ep.emm)).place := by
        have same := congrArg RingBuffer.place next.digests
        rw [held] at same
        exact same
      rw [held, place]
      exact RingBuffer.getElem?_push_self _ _
    · exact ⟨_, RingBuffer.getElem?_push_self _ _, rfl⟩
  · rw [stored] at ecs
    exact absurd ecs.symm (ecsOf_pos cell)

omit [DecidableEq δ] in
theorem inside (kept : Kept md5 zero s i emm count age) :
    i < csEmmcachesize := by
  obtain ⟨cell, here, _⟩ := kept.cell
  have bound := (List.getElem?_eq_some_iff.mp here).1
  rwa [s.cells.length_eq] at bound

/-- The search finds the cell of the EMM, for every EMM with the same digest. -/
theorem found (kept : Kept md5 zero s i emm count age)
    (alike : call.ep.emm.hashed = emm.hashed) :
    ∃ cell, findEmm md5 s.cells call.ep.emm = some (cell, i) ∧
      cell.count = count := by
  have digest := kept.tracks.digest_of_held kept.held
  rw [digestOf, ← alike] at digest
  cases search : findEmm md5 s.cells call.ep.emm with
  | none => exact absurd digest (findEmm_none search i)
  | some entry =>
      obtain ⟨cell, j⟩ := entry
      obtain ⟨here, same⟩ := findEmm_some search
      rw [alike] at same
      have place := kept.tracks.distinct i j emm kept.held same
      subst place
      obtain ⟨kept, there, counted⟩ := kept.cell
      cases here.symm.trans there
      exact ⟨cell, rfl, counted⟩

/-- An EMM with the same digest is counted. -/
theorem alike (kept : Kept md5 zero s i emm count age) (rdr : EmmReader)
    (alike : call.ep.emm.hashed = emm.hashed) :
    s.ecs md5 rdr call =
        (if rdr.cachemm then if rdr.rewritemm > count then 1 else 2 else 1) ∧
      Kept md5 zero (s.step md5 rdr call) i emm
        (Stat.int32 (count + 1)) age := by
  obtain ⟨cell, found, rfl⟩ := kept.found alike
  rcases step_cases md5 rdr s call with
    ⟨new, _, _⟩ | ⟨_, j, search, ecs, step⟩
  · rw [found] at new
    cases new
  · cases found.symm.trans search
    refine ⟨ecs, ?_⟩
    have next := kept.tracks.step rdr call
    rw [step] at next ⊢
    refine ⟨next, kept.held, ?_, kept.age_eq⟩
    have here := (findEmm_some found).1
    refine ⟨{ cell with count := Stat.int32 (cell.count + 1) }, ?_, rfl⟩
    simp only [RingBuffer.modify, List.getElem?_modify_eq, here]
    rfl

/-- Another EMM leaves the cell alone, unless the ring has come round. -/
theorem other (injective : Function.Injective md5)
    (kept : Kept md5 zero s i emm count age) (rdr : EmmReader)
    (different : call.ep.emm.hashed ≠ emm.hashed)
    (young : (if s.ecs md5 rdr call = 0 then age + 1 else age) <
      csEmmcachesize) :
    Kept md5 zero (s.step md5 rdr call) i emm count
      (if s.ecs md5 rdr call = 0 then age + 1 else age) := by
  have next := kept.tracks.step rdr call
  rcases step_cases md5 rdr s call with
    ⟨new, ecs, step⟩ | ⟨cell, j, found, ecs, step⟩
  · rw [step] at next ⊢
    simp only [ecs, if_true] at young ⊢
    have held := held_append s.cells (readerStoreEmm md5 s.cells call.ep)
      s.stored call.ep.emm
    have younger : s.cells.age i + 1 < csEmmcachesize := by
      rw [kept.age_eq]
      exact young
    have cells := RingBuffer.survives_push kept.inside younger
      { emmd5 := md5 call.ep.emm.hashed, type := call.ep.type, count := 1 }
    have sameAge : s.held.age i = s.cells.age i := by
      have place := congrArg RingBuffer.place kept.tracks.digests
      unfold RingBuffer.age
      rw [show s.held.place = s.cells.place from place.symm]
    rw [← sameAge] at younger
    have kepts := RingBuffer.survives_push kept.inside younger
      (some call.ep.emm)
    refine ⟨next, ?_, ?_, ?_⟩
    · rw [held]
      exact kepts.2.trans kept.held
    · obtain ⟨cell, here, counted⟩ := kept.cell
      exact ⟨cell, cells.2.trans here, counted⟩
    · exact cells.1.trans (by rw [kept.age_eq])
  · rw [step] at next ⊢
    have again : ecsOf rdr cell ≠ 0 := ecsOf_pos cell
    simp only [ecs, again, if_false] at young ⊢
    refine ⟨next, kept.held, ?_, kept.age_eq⟩
    have elsewhere : j ≠ i := by
      rintro rfl
      have digest := (findEmm_some found).2
      rw [kept.tracks.digest_of_held kept.held] at digest
      exact different (injective (Option.some.inj digest)).symm
    obtain ⟨cell, here, counted⟩ := kept.cell
    refine ⟨cell, ?_, counted⟩
    rw [RingBuffer.getElem?_modify_of_ne elsewhere]
    exact here

end Kept

/-! ## Counting -/

theorem lookalikes_cons_alike {emm : Emm} {calls : List EmmCall}
    (alike : call.ep.emm.hashed = emm.hashed) :
    lookalikes emm (call :: calls) = call.ep.emm :: lookalikes emm calls := by
  simp [lookalikes, alike]

theorem lookalikes_cons_other {emm : Emm} {calls : List EmmCall}
    (different : call.ep.emm.hashed ≠ emm.hashed) :
    lookalikes emm (call :: calls) = lookalikes emm calls := by
  simp [lookalikes, different]

theorem stores_cons {calls : List EmmCall} :
    s.stores md5 rdr (call :: calls) =
      (s.step md5 rdr call).stores md5 rdr calls +
        if s.ecs md5 rdr call = 0 then 1 else 0 := by
  simp only [EmmRun.stores, EmmRun.trace, List.countP_cons, beq_iff_eq]

theorem passes_cons {emm : Emm} {calls : List EmmCall} :
    s.passes md5 rdr emm (call :: calls) =
      (s.step md5 rdr call).passes md5 rdr emm calls +
        if call.ep.emm = emm ∧ s.ecs md5 rdr call < 2 then 1 else 0 := by
  simp only [EmmRun.passes, EmmRun.trace, List.countP_cons, Bool.and_eq_true,
    beq_iff_eq, decide_eq_true_eq]

variable {i : Nat} {emm : Emm} {count : Int} {age : Nat}

/-- What a call that is not for the EMM leaves for the calls behind it. -/
theorem Kept.rest (injective : Function.Injective md5)
    (kept : Kept md5 zero s i emm count age) {calls : List EmmCall}
    (young : age + s.stores md5 rdr (call :: calls) < csEmmcachesize)
    (different : call.ep.emm.hashed ≠ emm.hashed) :
    ∃ age', Kept md5 zero (s.step md5 rdr call) i emm count age' ∧
      age' + (s.step md5 rdr call).stores md5 rdr calls < csEmmcachesize := by
  rw [stores_cons] at young
  refine ⟨_, kept.other injective rdr different ?_, ?_⟩
  · split <;> split at young <;> omega
  · split <;> split at young <;> omega

/-- While an EMM stays in the ring, it is not stored again. -/
theorem Kept.not_stored (injective : Function.Injective md5)
    (calls : List EmmCall) (kept : Kept md5 zero s i emm count age)
    (young : age + s.stores md5 rdr calls < csEmmcachesize) :
    ∀ done ∈ s.trace md5 rdr calls, done.1 = emm → done.2 ≠ 0 := by
  induction calls generalizing s count age with
  | nil =>
      intro done member
      cases member
  | cons call calls induction =>
      intro done member same
      rw [EmmRun.trace, List.mem_cons] at member
      by_cases alike : call.ep.emm.hashed = emm.hashed
      · obtain ⟨ecs, next⟩ := kept.alike rdr alike
        have again : s.ecs md5 rdr call ≠ 0 := by
          rw [ecs]
          split
          · split <;> decide
          · decide
        rw [stores_cons, if_neg again] at young
        rcases member with rfl | later
        · exact again
        · exact induction next young done later same
      · obtain ⟨age', next, young⟩ := kept.rest injective young alike
        rcases member with rfl | later
        · exact absurd (congrArg Emm.hashed same) alike
        · exact induction next young done later same

/-- While an EMM stays in the ring, it is passed on as far as the EMMs with
its digest do not bring its count to `rewritemm`. -/
theorem Kept.passes_eq (injective : Function.Injective md5)
    (cached : rdr.cachemm = true) (calls : List EmmCall)
    (kept : Kept md5 zero s i emm count age) (positive : 0 < count)
    (young : age + s.stores md5 rdr calls < csEmmcachesize)
    (few : count + (lookalikes emm calls).length < 2 ^ 31) :
    s.passes md5 rdr emm calls =
      ((lookalikes emm calls).take (rdr.rewritemm - count).toNat).count
        emm := by
  induction calls generalizing s count age with
  | nil => simp [EmmRun.passes, EmmRun.trace, lookalikes]
  | cons call calls induction =>
      by_cases alike : call.ep.emm.hashed = emm.hashed
      · obtain ⟨ecs, next⟩ := kept.alike rdr alike
        rw [lookalikes_cons_alike alike] at few ⊢
        rw [List.length_cons] at few
        rw [Stat.int32_of_small (by omega) (by omega)] at next
        rw [cached, if_pos rfl] at ecs
        have again : s.ecs md5 rdr call ≠ 0 := by
          rw [ecs]
          split <;> decide
        rw [stores_cons, if_neg again] at young
        rw [passes_cons, induction next (by omega) young (by omega)]
        by_cases left : rdr.rewritemm > count
        · have turns : (rdr.rewritemm - count).toNat =
              (rdr.rewritemm - (count + 1)).toNat + 1 := by omega
          rw [if_pos left] at ecs
          rw [turns, List.take_succ_cons, List.count_cons]
          simp [ecs]
        · have turns : (rdr.rewritemm - count).toNat = 0 := by omega
          have later : (rdr.rewritemm - (count + 1)).toNat = 0 := by omega
          rw [if_neg left] at ecs
          simp [ecs, turns, later]
      · obtain ⟨age', next, young⟩ := kept.rest injective young alike
        rw [lookalikes_cons_other alike] at few ⊢
        have other : call.ep.emm ≠ emm := fun same =>
          alike (congrArg Emm.hashed same)
        rw [passes_cons, induction next positive young few]
        simp [other]

/-! ## The claim of `rewritemm` -/

/-- How often an EMM is to be passed on. -/
def EmmReader.turns (rdr : EmmReader) : Int := max 1 rdr.rewritemm

/-- From the call that stores an EMM on, it is passed on as often as it should
be, if it comes that often, and it is not stored again. -/
def PassedInTurns (md5 : List UInt8 → δ) (rdr : EmmReader) (s : EmmRun δ)
    (first : EmmCall) (later : List EmmCall) : Prop :=
  (rdr.turns ≤ 1 + (lookalikes first.ep.emm later).count first.ep.emm →
    (s.passes md5 rdr first.ep.emm (first :: later) : Int) = rdr.turns) ∧
  ∀ done ∈ (s.step md5 rdr first).trace md5 rdr later,
    done.1 = first.ep.emm → done.2 ≠ 0

/-- If the EMM comes that often, then no other EMM with the same first
`emm[2]` bytes comes before the count has reached `rewritemm`. -/
def TurnsUndisturbed (rdr : EmmReader) (first : EmmCall)
    (later : List EmmCall) : Prop :=
  rdr.turns ≤ 1 + (lookalikes first.ep.emm later).count first.ep.emm →
    ∀ emm ∈ (lookalikes first.ep.emm later).take (rdr.turns - 1).toNat,
      emm = first.ep.emm

theorem emm_passed_in_turns_iff (injective : Function.Injective md5)
    (cached : rdr.cachemm = true) {zero : δ} {earlier later : List EmmCall}
    {first : EmmCall}
    (stored : (emmRun md5 rdr zero earlier).ecs md5 rdr first = 0)
    (young : ((emmRun md5 rdr zero earlier).step md5 rdr first).stores md5 rdr
      later < csEmmcachesize)
    (few : (lookalikes first.ep.emm later).length + 1 < 2 ^ 31) :
    PassedInTurns md5 rdr (emmRun md5 rdr zero earlier) first later ↔
      TurnsUndisturbed rdr first later := by
  have kept := Kept.of_stored (Tracks.run md5 rdr zero earlier) stored
  rw [← Nat.zero_add (EmmRun.stores _ _ _ _)] at young
  have never := kept.not_stored injective later young
  have passes := kept.passes_eq injective cached later (by decide) young
    (by omega)
  have left : (rdr.rewritemm - 1).toNat = (rdr.turns - 1).toNat := by
    unfold EmmReader.turns
    omega
  rw [left] at passes
  have whole : (emmRun md5 rdr zero earlier).passes md5 rdr first.ep.emm
      (first :: later) =
        ((lookalikes first.ep.emm later).take (rdr.turns - 1).toNat).count
          first.ep.emm + 1 := by
    rw [passes_cons, passes, stored]
    simp
  have some : 1 ≤ rdr.turns := le_max_left 1 rdr.rewritemm
  unfold PassedInTurns TurnsUndisturbed
  rw [whole, and_iff_left never]
  apply imp_congr_right
  intro often
  have length : ((lookalikes first.ep.emm later).take
      (rdr.turns - 1).toNat).length = (rdr.turns - 1).toNat := by
    have total := List.count_le_length (a := first.ep.emm)
      (l := lookalikes first.ep.emm later)
    rw [List.length_take]
    omega
  constructor
  · intro all emm member
    have full : ((lookalikes first.ep.emm later).take
        (rdr.turns - 1).toNat).count first.ep.emm =
          ((lookalikes first.ep.emm later).take
            (rdr.turns - 1).toNat).length := by
      omega
    exact (List.count_eq_length.mp full emm member).symm
  · intro alone
    have full := List.count_eq_length.mpr fun emm member =>
      (alone emm member).symm
    omega

/-! A reader that writes every EMM twice. -/

def writeTwice : EmmReader := { cachemm := true, rewritemm := 2 }

theorem emm_passed_in_turns_twice :
    PassedInTurns id writeTwice (emmRun id writeTwice [] []) (someEmm 3)
      [someEmm 3, someEmm 3] := by
  refine (emm_passed_in_turns_iff Function.injective_id rfl (by decide)
    (by decide) (by decide)).mpr ?_
  unfold TurnsUndisturbed
  decide

/-- Another EMM with the same first bytes takes the second turn. -/
theorem lookalike_takes_turn :
    ¬∀ (md5 : List UInt8 → List UInt8) (rdr : EmmReader) (zero : List UInt8)
      (earlier : List EmmCall) (first : EmmCall) (later : List EmmCall),
      Function.Injective md5 → rdr.cachemm = true →
        (emmRun md5 rdr zero earlier).ecs md5 rdr first = 0 →
          ((emmRun md5 rdr zero earlier).step md5 rdr first).stores md5 rdr
            later < csEmmcachesize →
              PassedInTurns md5 rdr (emmRun md5 rdr zero earlier) first
                later := by
  intro passed
  have turns := (passed id writeTwice [] [] (someEmm 3)
    [someEmm 4, someEmm 3] Function.injective_id rfl (by decide)
    (by decide)).1
  exact absurd (turns (by decide)) (by decide)

end Oscam.EmmCache
