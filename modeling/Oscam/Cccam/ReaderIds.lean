import Mathlib.Algebra.Ring.Nat
import Mathlib.Data.Finset.Card
import Mathlib.Data.List.Perm.Basic
import Mathlib.Tactic.SplitIfs

/-!
# Reader ids

`update_card_list` gives every active reader without a `cc_id` the next free
one.  The search for it starts over when an id is taken; since the loop then
moves on to the next reader, all passes but the first leave out the first
reader of the list.
-/

namespace Oscam

namespace ReaderIds

/-- An id that is taken is no longer tried afterwards. -/
theorem countP_succ_lt {r : Nat} {ids : List Nat} (taken : r ∈ ids) :
    ids.countP (r + 1 ≤ ·) < ids.countP (r ≤ ·) := by
  have fewer : ∀ others : List Nat,
      others.countP (r + 1 ≤ ·) ≤ others.countP (r ≤ ·) := by
    intro others
    apply List.countP_mono_left
    intro id _ above
    rw [decide_eq_true_eq] at above ⊢
    omega
  obtain ⟨before, after, rfl⟩ := List.append_of_mem taken
  have first := fewer before
  have second := fewer after
  simp only [List.countP_append, List.countP_cons, le_refl, decide_true,
    decide_eq_true_eq, if_pos, if_neg (Nat.not_succ_le_self r)]
  omega

/-- The inner loop: `i` is the place of `rdr2`, `k` the place of `rdr`, and `r`
the id that is tried.  An id that is taken restarts the loop, which goes on
with the reader behind the first one. -/
def scan (ids : List Nat) (k i r : Nat) : Nat :=
  if inside : i < ids.length then
    if i ≠ k ∧ ids[i] = r then scan ids k 1 (r + 1)
    else scan ids k (i + 1) r
  else r
termination_by (ids.countP (r ≤ ·), ids.length - i)
decreasing_by
  · rename_i taken
    apply Prod.Lex.left
    exact countP_succ_lt (taken.2 ▸ List.getElem_mem inside)
  · apply Prod.Lex.right
    omega

/-- The outer loop over the ids of the active readers, in list order: `done`
has been passed, and `r` is the last id that was tried. -/
def assign (done : List Nat) (r : Nat) : List Nat → List Nat
  | [] => done
  | ccId :: todo =>
      if ccId = 0 then
        let id := scan (done ++ ccId :: todo) done.length 0 (r + 1)
        assign (done ++ [id]) id todo
      else assign (done ++ [ccId]) r todo

/-- The id assignment of `update_card_list`. -/
def updateCardList (ids : List Nat) : List Nat := assign [] 0 ids

/-- `remove_reader_from_active` and `add_reader_to_active`, as a restart of a
reader calls them: the reader moves to the end of the list. -/
def restart (ids : List Nat) (k : Nat) : List Nat :=
  ids.eraseIdx k ++ (ids[k]?).toList

/-- `add_reader_to_active` with a new reader. -/
def addReader (ids : List Nat) : List Nat := ids ++ [0]

/-- The `remote_id` of a card from `create_card2`. -/
def remoteId (ccId j : BitVec 32) : BitVec 32 := ccId <<< 16 ||| j

/-- Every reader has an id of its own. -/
def Apart (ids : List Nat) : Prop := 0 ∉ ids ∧ ids.Nodup

/-- The ids that were given earlier are distinct. -/
def Distinct (ids : List Nat) : Prop := (ids.filter (· ≠ 0)).Nodup

instance (ids : List Nat) : Decidable (Apart ids) :=
  inferInstanceAs (Decidable (_ ∧ _))

instance (ids : List Nat) : Decidable (Distinct ids) :=
  inferInstanceAs (Decidable (List.Nodup _))

/-! ## The search -/

/-- What one search finds.  The id tried first is compared with all readers,
the ones after it only with those behind the first reader. -/
def Next (first : Nat) (rest : List Nat) (r id : Nat) : Prop :=
  (r + 1 ∉ first :: rest ∧ id = r + 1) ∨
    (r + 1 ∈ first :: rest ∧ r + 1 < id ∧ id ∉ rest ∧
      ∀ m, r + 1 < m → m < id → m ∈ rest)

theorem scan_spec (ids : List Nat) (k i r : Nat) (own : ids[k]? = some 0)
    (positive : 0 < r) :
    (r ∉ ids.drop i → scan ids k i r = r) ∧
      (r ∈ ids.drop i →
        r < scan ids k i r ∧ scan ids k i r ∉ ids.drop 1 ∧
          ∀ m, r < m → m < scan ids k i r → m ∈ ids.drop 1) := by
  fun_induction scan ids k i r with
  | case1 i r inside taken induction =>
      obtain ⟨free, again⟩ := induction (Nat.succ_pos r)
      have found : r ∈ ids.drop i := by
        rw [List.drop_eq_getElem_cons inside]
        exact List.mem_cons.mpr (.inl taken.2.symm)
      refine ⟨fun outside => absurd found outside, fun _ => ?_⟩
      by_cases next : r + 1 ∈ ids.drop 1
      · obtain ⟨above, open_, between⟩ := again next
        refine ⟨by omega, open_, ?_⟩
        intro m low high
        by_cases at_ : m = r + 1
        · rwa [at_]
        · exact between m (by omega) high
      · rw [free next]
        refine ⟨by omega, next, ?_⟩
        intro m low high
        omega
  | case2 i r inside passed induction =>
      have same : r ∈ ids.drop i ↔ r ∈ ids.drop (i + 1) := by
        rw [List.drop_eq_getElem_cons inside, List.mem_cons]
        refine or_iff_right ?_
        intro here
        refine passed ⟨?_, here.symm⟩
        intro self
        subst self
        rw [List.getElem?_eq_getElem inside] at own
        have zero := Option.some.inj own
        omega
      rw [same]
      exact induction positive
  | case3 i r outside =>
      have empty : ids.drop i = [] :=
        List.drop_eq_nil_of_le (Nat.le_of_not_lt outside)
      simp [empty]

/-- One turn of the outer loop for a reader without an id. -/
theorem scan_next (first : Nat) {r : Nat} {rest passed todo : List Nat}
    (same : ∀ m, r < m → (m ∈ passed ++ todo ↔ m ∈ rest)) :
    Next first rest r
      (scan (first :: passed ++ 0 :: todo) (first :: passed).length 0
        (r + 1)) := by
  have own : (first :: passed ++ 0 :: todo)[(first :: passed).length]? =
      some 0 := by simp
  have found := scan_spec _ _ 0 (r + 1) own (Nat.succ_pos r)
  have behind : ∀ m, r < m → (m ∈ passed ++ 0 :: todo ↔ m ∈ rest) := by
    intro m above
    rw [← same m above]
    have positive : m ≠ 0 := by omega
    simp [positive]
  have all : r + 1 ∈ first :: passed ++ 0 :: todo ↔ r + 1 ∈ first :: rest := by
    rw [List.cons_append, List.mem_cons, List.mem_cons,
      behind (r + 1) (Nat.lt_succ_self r)]
  rw [List.drop_zero, List.cons_append, List.drop_one, List.tail_cons,
    ← List.cons_append] at found
  by_cases taken : r + 1 ∈ first :: passed ++ 0 :: todo
  · obtain ⟨above, open_, between⟩ := found.2 taken
    refine .inr ⟨all.mp taken, above, ?_, ?_⟩
    · rwa [← behind _ (by omega)]
    · intro m low high
      exact (behind m (by omega)).mp (between m low high)
  · exact .inl ⟨fun inside => taken (all.mpr inside), found.1 taken⟩

/-- The ids given one after the other. -/
def Given (first : Nat) (rest : List Nat) : Nat → List Nat → Prop
  | _, [] => True
  | r, id :: ids => Next first rest r id ∧ Given first rest id ids

theorem Next.above {first r id : Nat} {rest : List Nat}
    (next : Next first rest r id) : r < id := by
  rcases next with ⟨_, same⟩ | ⟨_, above, _⟩ <;> omega

theorem Next.free {first r id : Nat} {rest : List Nat}
    (next : Next first rest r id) : id ∉ rest := by
  rcases next with ⟨open_, same⟩ | ⟨_, _, open_, _⟩
  · rw [same]
    exact fun inside => open_ (List.mem_cons_of_mem _ inside)
  · exact open_

/-- The loop keeps the ids that are there and adds those it gives. -/
theorem assign_given (first : Nat) (rest todo : List Nat) :
    ∀ (passed : List Nat) (r : Nat),
      (∀ m, r < m → (m ∈ passed ++ todo ↔ m ∈ rest)) →
      ∃ given, Given first rest r given ∧ given.length = todo.count 0 ∧
        (assign (first :: passed) r todo).Perm
          (first :: passed ++ todo.filter (· ≠ 0) ++ given) := by
  induction todo with
  | nil =>
      intro passed r _
      exact ⟨[], trivial, rfl, by simp [assign]⟩
  | cons ccId todo induction =>
      intro passed r same
      by_cases unset : ccId = 0
      · subst unset
        have open_ : ∀ m, r < m → (m ∈ passed ++ todo ↔ m ∈ rest) := by
          intro m above
          rw [← same m above]
          have positive : m ≠ 0 := by omega
          simp [positive]
        have next := scan_next first open_
        rw [assign, if_pos rfl]
        generalize scan (first :: passed ++ 0 :: todo)
          (first :: passed).length 0 (r + 1) = id at next ⊢
        obtain ⟨given, later, count, perm⟩ := induction (passed ++ [id]) id
          (by
            intro m above
            rw [← open_ m (lt_trans next.above above)]
            have other : m ≠ id := by omega
            simp [other])
        refine ⟨id :: given, ⟨next, later⟩, by simp [count], ?_⟩
        refine perm.trans ?_
        have moved : (id :: (todo.filter (· ≠ 0) ++ given)).Perm
            (todo.filter (· ≠ 0) ++ id :: given) :=
          List.perm_middle.symm
        have whole := moved.append_left (first :: passed)
        simpa using whole
      · rw [assign, if_neg unset]
        obtain ⟨given, later, count, perm⟩ := induction (passed ++ [ccId]) r
          (by simpa using same)
        refine ⟨given, later, ?_, ?_⟩
        · rw [count, List.count_cons_of_ne (Ne.symm (Ne.symm unset))]
        · simpa [unset] using perm

theorem Given.bounds {first : Nat} {rest given : List Nat} :
    ∀ {r : Nat}, Given first rest r given →
      given.Pairwise (· < ·) ∧ ∀ id ∈ given, r < id ∧ id ∉ rest := by
  induction given with
  | nil => simp
  | cons id given induction =>
      rintro r ⟨next, later⟩
      obtain ⟨sorted, above⟩ := induction later
      refine ⟨List.pairwise_cons.mpr ⟨?_, sorted⟩, ?_⟩
      · exact fun other inside => (above other inside).1
      · intro other inside
        rcases List.mem_cons.mp inside with rfl | inside
        · exact ⟨next.above, next.free⟩
        · obtain ⟨greater, open_⟩ := above other inside
          exact ⟨lt_trans next.above greater, open_⟩

/-! ## When the first reader's id is given again -/

/-- The ids above `r` and below the first reader's that nobody has. -/
def freeBelow (first : Nat) (rest : List Nat) (r : Nat) : Finset Nat :=
  (Finset.range first).filter fun m => r < m ∧ m ∉ rest

theorem mem_freeBelow {first r m : Nat} {rest : List Nat} :
    m ∈ freeBelow first rest r ↔ m < first ∧ r < m ∧ m ∉ rest := by
  simp [freeBelow]

/-- A search that ends below the first reader's id uses up one free id. -/
theorem freeBelow_next {first r id : Nat} {rest : List Nat}
    (next : Next first rest r id) (below : id < first) :
    (freeBelow first rest r).card = (freeBelow first rest id).card + 1 := by
  have skipped : ∀ m, r < m → m < id → m ∈ rest := by
    intro m low high
    rcases next with ⟨_, same⟩ | ⟨taken, _, _, between⟩
    · omega
    · by_cases tried : m = r + 1
      · rw [tried]
        rcases List.mem_cons.mp taken with self | inside
        · omega
        · exact inside
      · exact between m (by omega) high
  have parts : freeBelow first rest r =
      insert id (freeBelow first rest id) := by
    ext m
    rw [Finset.mem_insert, mem_freeBelow, mem_freeBelow]
    constructor
    · rintro ⟨low, above, open_⟩
      by_cases at_ : m = id
      · exact .inl at_
      · refine .inr ⟨low, ?_, open_⟩
        have reached : ¬ m < id := fun high => open_ (skipped m above high)
        omega
    · rintro (rfl | ⟨low, above, open_⟩)
      · exact ⟨below, next.above, next.free⟩
      · exact ⟨low, lt_trans next.above above, open_⟩
  rw [parts, Finset.card_insert_of_notMem]
  simp [mem_freeBelow]

/-- The first reader's id is given again when the id below it is taken and
the free ids are used up. -/
theorem Given.first_mem_iff {first : Nat} {rest given : List Nat}
    (unique : first ∉ rest) :
    ∀ {r : Nat}, Given first rest r given → r < first →
      (r = 0 ∨ r ∉ rest) →
      (first ∈ given ↔ 2 ≤ first ∧ first - 1 ∈ rest ∧
        (freeBelow first rest r).card < given.length) := by
  induction given with
  | nil => simp
  | cons id given induction =>
      rintro r ⟨next, later⟩ below open_
      have sorted := later.bounds.2
      rcases Nat.lt_trichotomy id first with before | same | behind
      · have rest_ := induction later before (.inr next.free)
        have other : first ≠ id := by omega
        rw [List.mem_cons, or_iff_right other, rest_,
          freeBelow_next next before, List.length_cons,
          Nat.succ_lt_succ_iff]
      · -- the id is tried after the one below it has been rejected
        refine iff_of_true (by simp [same]) ?_
        rcases next with ⟨fresh, equal⟩ | ⟨taken, above, _, between⟩
        · exact absurd (by simp; omega) fresh
        · have low : r + 1 ∈ rest := by
            rcases List.mem_cons.mp taken with self | inside
            · omega
            · exact inside
          have empty : freeBelow first rest r = ∅ := by
            rw [Finset.eq_empty_iff_forall_notMem]
            intro m free
            obtain ⟨high, after, missing⟩ := mem_freeBelow.mp free
            by_cases tried : m = r + 1
            · exact missing (tried ▸ low)
            · exact missing (between m (by omega) (by omega))
          refine ⟨by omega, ?_, by simp [empty]⟩
          by_cases direct : first - 1 = r + 1
          · rwa [direct]
          · exact between _ (by omega) (by omega)
      · have skipped : first ∉ id :: given := by
          rw [List.mem_cons, not_or]
          refine ⟨by omega, fun inside => ?_⟩
          have greater := (sorted first inside).1
          omega
        refine iff_of_false skipped ?_
        rintro ⟨two, taken, _⟩
        rcases next with ⟨_, equal⟩ | ⟨_, _, _, between⟩
        · omega
        · by_cases direct : r + 1 = first
          · have last : first - 1 = r := by omega
            rw [last] at taken
            rcases open_ with zero | free
            · omega
            · exact free taken
          · exact unique (between first (by omega) behind)

/-! ## The ids after the loop -/

/-- The first reader has an id, the id below it is taken, and there are more
readers without an id than free ids below it. -/
def FirstGivenAgain : List Nat → Prop
  | [] => False
  | first :: rest =>
      2 ≤ first ∧ first - 1 ∈ rest ∧
        (freeBelow first rest 0).card < rest.count 0

instance : (ids : List Nat) → Decidable (FirstGivenAgain ids)
  | [] => inferInstanceAs (Decidable False)
  | _ :: _ => inferInstanceAs (Decidable (_ ∧ _ ∧ _))

/-- The ids that are there and those that are given meet only in the first
reader's. -/
theorem apart_iff_of_perm {ids : List Nat} {first : Nat}
    {rest given : List Nat} (distinct : Distinct (first :: rest))
    (positive : 0 < first) (sorted : given.Pairwise (· < ·))
    (bounds : ∀ id ∈ given, 0 < id ∧ id ∉ rest)
    (perm : ids.Perm (first :: rest.filter (· ≠ 0) ++ given)) :
    Apart ids ↔ first ∉ given := by
  have nonzero : 0 ∉ ids := by
    rw [perm.mem_iff]
    simp only [List.cons_append, List.mem_cons, List.mem_append,
      List.mem_filter, not_or]
    refine ⟨by omega, by simp, fun inside => ?_⟩
    exact absurd (bounds 0 inside).1 (lt_irrefl 0)
  have old : (first :: rest.filter (· ≠ 0)).Nodup := by
    have same : (first :: rest).filter (· ≠ 0) =
        first :: rest.filter (· ≠ 0) := by
      rw [List.filter_cons_of_pos]
      simpa using Nat.ne_of_gt positive
    rw [← same]
    exact distinct
  have new : given.Nodup := sorted.imp Nat.ne_of_lt
  unfold Apart
  rw [and_iff_right nonzero, perm.nodup_iff, List.nodup_append]
  constructor
  · rintro ⟨_, _, disjoint⟩ inside
    exact disjoint first List.mem_cons_self first inside rfl
  · intro outside
    refine ⟨old, new, ?_⟩
    rintro id inside other given_ rfl
    rcases List.mem_cons.mp inside with rfl | inside
    · exact outside given_
    · exact (bounds id given_).2 (List.mem_of_mem_filter inside)

/-- When the first reader has no id, its id is the first one that is given,
and all later ones are above it. -/
theorem apart_first_unset {rest : List Nat} (distinct : Distinct (0 :: rest)) :
    Apart (updateCardList (0 :: rest)) := by
  have found := scan_spec (0 :: rest) 0 0 1 rfl Nat.one_pos
  rw [List.drop_zero, List.drop_one, List.tail_cons] at found
  have id_ : 1 ≤ scan (0 :: rest) 0 0 1 ∧ scan (0 :: rest) 0 0 1 ∉ rest := by
    by_cases taken : 1 ∈ 0 :: rest
    · obtain ⟨above, open_, _⟩ := found.2 taken
      exact ⟨above.le, open_⟩
    · rw [found.1 taken]
      exact ⟨le_refl 1, fun inside => taken (List.mem_cons_of_mem 0 inside)⟩
  have unfolded : updateCardList (0 :: rest) =
      assign [scan (0 :: rest) 0 0 1] (scan (0 :: rest) 0 0 1) rest := by
    rw [updateCardList, assign, if_pos rfl]
    rfl
  rw [unfolded]
  generalize scan (0 :: rest) 0 0 1 = id at id_ ⊢
  obtain ⟨positive, open_⟩ := id_
  obtain ⟨given, later, _, perm⟩ := assign_given id rest rest [] id
    (by simp)
  obtain ⟨sorted, above⟩ := later.bounds
  have apart : Distinct (id :: rest) := by
    unfold Distinct at distinct ⊢
    rw [List.filter_cons_of_neg (by simp)] at distinct
    rw [List.filter_cons_of_pos (by simpa using Nat.ne_of_gt positive)]
    exact List.nodup_cons.mpr
      ⟨fun inside => open_ (List.mem_of_mem_filter inside), distinct⟩
  refine (apart_iff_of_perm apart positive sorted ?_ perm).mpr ?_
  · exact fun other inside =>
      ⟨lt_trans positive (above other inside).1, (above other inside).2⟩
  · exact fun inside => lt_irrefl id (above id inside).1

/-- A reader's id can be read off the remote id as long as both fit into
their 16 bits. -/
theorem remoteId_toNat {ccId j : Nat} (idFits : ccId < 2 ^ 16)
    (jFits : j < 2 ^ 16) :
    (remoteId (BitVec.ofNat 32 ccId) (BitVec.ofNat 32 j)).toNat / 2 ^ 16 =
      ccId := by
  have shifted : ccId <<< 16 % 2 ^ 32 = ccId <<< 16 := by
    apply Nat.mod_eq_of_lt
    rw [Nat.shiftLeft_eq]
    omega
  have idSmall : ccId % 2 ^ 32 = ccId := Nat.mod_eq_of_lt (by omega)
  have jSmall : j % 2 ^ 32 = j := Nat.mod_eq_of_lt (by omega)
  rw [remoteId, BitVec.toNat_or, BitVec.toNat_shiftLeft, BitVec.toNat_ofNat,
    BitVec.toNat_ofNat, idSmall, jSmall, shifted,
    ← Nat.shiftLeft_add_eq_or_of_lt jFits, Nat.shiftLeft_eq]
  omega

/-- The cards of different readers have different remote ids. -/
def RemoteIdsApart (ids : List Nat) : Prop :=
  ids.Pairwise fun left right => ∀ j k, j < 2 ^ 16 → k < 2 ^ 16 →
    remoteId (BitVec.ofNat 32 left) (BitVec.ofNat 32 j) ≠
      remoteId (BitVec.ofNat 32 right) (BitVec.ofNat 32 k)

theorem Apart.remoteIdsApart {ids : List Nat} (apart : Apart ids)
    (fits : ∀ id ∈ ids, id < 2 ^ 16) : RemoteIdsApart ids := by
  refine List.Pairwise.imp_of_mem ?_ apart.2
  intro left right leftInside rightInside other j k jFits kFits same
  refine other ?_
  rw [← remoteId_toNat (fits left leftInside) jFits, same,
    remoteId_toNat (fits right rightInside) kFits]

/-- The readers have ids of their own after the loop, unless the first
reader's id is given again. -/
theorem apart_updateCardList_iff {ids : List Nat} (distinct : Distinct ids) :
    (Apart (updateCardList ids) ↔ ¬ FirstGivenAgain ids) ∧
      (Apart (updateCardList ids) →
        (∀ id ∈ updateCardList ids, id < 2 ^ 16) →
        RemoteIdsApart (updateCardList ids)) := by
  refine ⟨?_, fun apart fits => apart.remoteIdsApart fits⟩
  cases ids with
  | nil => simp [updateCardList, assign, Apart, FirstGivenAgain]
  | cons first rest =>
      by_cases unset : first = 0
      · subst unset
        exact iff_of_true (apart_first_unset distinct) (by
          simp [FirstGivenAgain])
      · have positive : 0 < first := Nat.pos_of_ne_zero unset
        have unfolded : updateCardList (first :: rest) =
            assign [first] 0 rest := by
          rw [updateCardList, assign, if_neg unset]
          rfl
        have unique : first ∉ rest := by
          have nodup := distinct
          unfold Distinct at nodup
          rw [List.filter_cons_of_pos (by simpa using unset)] at nodup
          intro inside
          exact (List.nodup_cons.mp nodup).1
            (List.mem_filter.mpr ⟨inside, by simpa using unset⟩)
        obtain ⟨given, later, count, perm⟩ := assign_given first rest rest []
          0 (by simp)
        obtain ⟨sorted, above⟩ := later.bounds
        rw [unfolded, apart_iff_of_perm distinct positive sorted above perm,
          later.first_mem_iff unique positive (.inl rfl), FirstGivenAgain,
          count]

/-- Two readers with ids, and two new ones. -/
theorem apart_updateCardList_iff_four :
    (Apart (updateCardList [3, 1, 0, 0]) ↔
      ¬ FirstGivenAgain [3, 1, 0, 0]) ∧
      (Apart (updateCardList [3, 1, 0, 0]) →
        (∀ id ∈ updateCardList [3, 1, 0, 0], id < 2 ^ 16) →
        RemoteIdsApart (updateCardList [3, 1, 0, 0])) :=
  apart_updateCardList_iff (by decide)

/-- Two readers get their ids, the first one is restarted and a third one is
added: it gets the id of the reader that is now the first one. -/
theorem updateCardList_again :
    addReader (restart (updateCardList [0, 0]) 0) = [2, 1, 0] ∧
      Distinct [2, 1, 0] ∧ updateCardList [2, 1, 0] = [2, 1, 2] ∧
      ¬ Apart (updateCardList [2, 1, 0]) := by
  have first : updateCardList [0, 0] = [1, 2] := by
    simp [updateCardList, assign, scan]
  have second : updateCardList [2, 1, 0] = [2, 1, 2] := by
    simp [updateCardList, assign, scan]
  rw [first, second]
  decide

end ReaderIds

end Oscam
