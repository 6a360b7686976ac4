import Mathlib.Data.List.Induction
import Mathlib.Data.List.Nodup
import Mathlib.Data.List.TakeWhile

/-!
# Stacks that are cut by repeated keys

A key that is on the stack cuts off what lies above it, another one is put on
top.  A table whose entries are cut the same way holds the values that were
recorded at a place from which on their key stays on the stack.
-/

namespace CutStack

variable {κ β : Type}

/-- The table has an entry with this value. -/
def Holds (entries : List (κ × List β)) (key : κ) (value : β) : Prop :=
  ∃ entry ∈ entries, entry.1 = key ∧ value ∈ entry.2

theorem holds_cons (entry : κ × List β) (entries : List (κ × List β))
    (key : κ) (value : β) :
    Holds (entry :: entries) key value ↔
      (entry.1 = key ∧ value ∈ entry.2) ∨ Holds entries key value := by
  simp [Holds]

theorem mem_keys_of_holds {entries : List (κ × List β)} {key : κ} {value : β}
    (held : Holds entries key value) : key ∈ entries.map Prod.fst := by
  obtain ⟨entry, member, rfl, _value⟩ := held
  exact List.mem_map_of_mem member

variable [DecidableEq κ] [DecidableEq β]

/-- The stack with the bottom in front. -/
def push (stack : List κ) (key : κ) : List κ :=
  stack.takeWhile (· ≠ key) ++ [key]

def stackOf (keys : List κ) : List κ := keys.foldl push []

/-- The keys that lie under a key that comes behind these. -/
def below (keys : List κ) (key : κ) : List κ :=
  (stackOf keys).takeWhile (· ≠ key)

/-- A value goes to the entry of its key, which becomes the last one. -/
def record : List (κ × List β) → κ → β → List (κ × List β)
  | [], key, value => [(key, [value])]
  | entry :: entries, key, value =>
      if entry.1 = key then
        [(key, if value ∈ entry.2 then entry.2 else entry.2 ++ [value])]
      else entry :: record entries key value

def recordAll (history : List (κ × β)) : List (κ × List β) :=
  history.foldl (fun entries x => record entries x.1 x.2) []

/-- The value is recorded at a place behind which no key comes that lies under
its key. -/
def Stays (history : List (κ × β)) (key : κ) (value : β) : Prop :=
  ∃ front rest, history = front ++ (key, value) :: rest ∧
    ∀ x ∈ rest, x.1 ∉ below (front.map Prod.fst) key

/-! ## The stack -/

theorem push_cons_self (key : κ) (stack : List κ) :
    push (key :: stack) key = [key] := by
  simp [push]

theorem push_cons_of_ne {first key : κ} (other : first ≠ key)
    (stack : List κ) : push (first :: stack) key = first :: push stack key := by
  simp [push, other]

theorem stackOf_append (keys : List κ) (key : κ) :
    stackOf (keys ++ [key]) = push (stackOf keys) key := by
  simp [stackOf]

/-- What lies under a key is left alone by the keys that do not lie there. -/
theorem push_below {stack : List κ} {key other : κ} (there : key ∈ stack)
    (above : other ∉ stack.takeWhile (· ≠ key)) :
    key ∈ push stack other ∧
      (push stack other).takeWhile (· ≠ key) =
        stack.takeWhile (· ≠ key) := by
  induction stack with
  | nil => cases there
  | cons first stack induction =>
      by_cases same : first = key
      · subst same
        by_cases again : first = other
        · subst again
          rw [push_cons_self]
          simp
        · rw [push_cons_of_ne again]
          simp
      · have rest : key ∈ stack := by
          rcases List.mem_cons.mp there with rfl | member
          · exact absurd rfl same
          · exact member
        rw [List.takeWhile_cons_of_pos (by simpa using same)] at above
        have different : first ≠ other := by
          rintro rfl
          exact above List.mem_cons_self
        obtain ⟨member, kept⟩ := induction rest fun inside =>
          above (List.mem_cons_of_mem _ inside)
        rw [push_cons_of_ne different]
        refine ⟨List.mem_cons_of_mem _ member, ?_⟩
        rw [List.takeWhile_cons_of_pos (by simpa using same),
          List.takeWhile_cons_of_pos (by simpa using same), kept]

/-- As long as none of the keys under it is repeated, a key lies where it was
put. -/
theorem stackOf_below (front rest : List κ) (key : κ)
    (above : ∀ x ∈ rest, x ∉ below front key) :
    key ∈ stackOf (front ++ key :: rest) ∧
      (stackOf (front ++ key :: rest)).takeWhile (· ≠ key) =
        below front key := by
  induction rest using List.reverseRecOn with
  | nil =>
      have free : ∀ x ∈ below front key, decide (x ≠ key) = true := by
        intro x member
        unfold below at member
        simpa using List.mem_takeWhile_imp member
      rw [stackOf_append]
      refine ⟨by simp [push], ?_⟩
      show (below front key ++ [key]).takeWhile _ = _
      rw [List.takeWhile_append_of_pos free]
      simp
  | append_singleton rest x induction =>
      obtain ⟨member, kept⟩ := induction fun y inside =>
        above y (List.mem_append_left _ inside)
      have last : x ∉ (stackOf (front ++ key :: rest)).takeWhile
          (· ≠ key) := by
        rw [kept]
        exact above x (by simp)
      have split : front ++ key :: (rest ++ [x]) =
          (front ++ key :: rest) ++ [x] := by simp
      obtain ⟨still, same⟩ := push_below member last
      rw [split, stackOf_append]
      exact ⟨still, same.trans kept⟩

/-! ## The table -/

variable {entries : List (κ × List β)} {history : List (κ × β)}

/-- The keys of the table are the stack. -/
theorem keys_record (entries : List (κ × List β)) (key : κ) (value : β) :
    (record entries key value).map Prod.fst =
      push (entries.map Prod.fst) key := by
  induction entries with
  | nil => rfl
  | cons entry entries induction =>
      unfold record
      by_cases same : entry.1 = key
      · rw [if_pos same]
        show [key] = push (entry.1 :: entries.map Prod.fst) key
        rw [same, push_cons_self]
      · rw [if_neg same, List.map_cons, List.map_cons, induction,
          push_cons_of_ne same]

theorem record_of_forall {key : κ} (other : ∀ entry ∈ entries, entry.1 ≠ key)
    (value : β) : record entries key value = entries ++ [(key, [value])] := by
  induction entries with
  | nil => rfl
  | cons entry entries induction =>
      unfold record
      rw [if_neg (other entry List.mem_cons_self),
        induction fun entry member =>
          other entry (List.mem_cons_of_mem _ member)]
      rfl

theorem record_of_found {front rest : List (κ × List β)} {key : κ}
    {values : List β} (other : ∀ entry ∈ front, entry.1 ≠ key) (value : β) :
    record (front ++ (key, values) :: rest) key value =
      front ++ [(key, if value ∈ values then values else values ++ [value])] := by
  induction front with
  | nil => exact if_pos rfl
  | cons entry front induction =>
      show record (entry :: (front ++ (key, values) :: rest)) key value = _
      unfold record
      rw [if_neg (other entry List.mem_cons_self),
        induction fun entry member =>
          other entry (List.mem_cons_of_mem _ member)]
      rfl

theorem recordAll_append (history : List (κ × β)) (x : κ × β) :
    recordAll (history ++ [x]) = record (recordAll history) x.1 x.2 := by
  simp [recordAll]

theorem keys_recordAll (history : List (κ × β)) :
    (recordAll history).map Prod.fst = stackOf (history.map Prod.fst) := by
  induction history using List.reverseRecOn with
  | nil => rfl
  | append_singleton history x induction =>
      rw [recordAll_append, keys_record, induction, List.map_append,
        List.map_singleton, stackOf_append]

theorem nodup_push {stack : List κ} (distinct : stack.Nodup) (key : κ) :
    (push stack key).Nodup := by
  have front : (stack.takeWhile (· ≠ key)).Nodup :=
    distinct.sublist (List.takeWhile_sublist _)
  have free : key ∉ stack.takeWhile (· ≠ key) := by
    intro member
    simpa using List.mem_takeWhile_imp member
  exact front.append (List.nodup_singleton key) (by simpa using free)

theorem nodup_stackOf (keys : List κ) : (stackOf keys).Nodup := by
  induction keys using List.reverseRecOn with
  | nil => exact List.nodup_nil
  | append_singleton keys key induction =>
      rw [stackOf_append]
      exact nodup_push induction key

/-- After a record the table holds the new value and what was not cut off. -/
theorem holds_record_iff (distinct : (entries.map Prod.fst).Nodup)
    (newKey : κ) (newValue : β) (key : κ) (value : β) :
    Holds (record entries newKey newValue) key value ↔
      (key = newKey ∧ value = newValue) ∨
        (Holds entries key value ∧
          newKey ∉ (entries.map Prod.fst).takeWhile (· ≠ key)) := by
  induction entries with
  | nil =>
      simp [record, Holds, eq_comm]
  | cons entry entries induction =>
      obtain ⟨fresh, rest⟩ := List.nodup_cons.mp distinct
      unfold record
      by_cases same : entry.1 = newKey
      · rw [if_pos same]
        by_cases wanted : key = newKey
        · subst wanted
          have only : ¬ Holds entries key value := by
            intro held
            apply fresh
            rw [same]
            exact mem_keys_of_holds held
          rw [holds_cons, holds_cons]
          simp only [same, true_and, only, or_false, List.map_cons]
          have empty : ¬ Holds ([] : List (κ × List β)) key value := by
            simp [Holds]
          rw [or_iff_left empty]
          by_cases known : newValue ∈ entry.2
          · rw [if_pos known]
            constructor
            · intro member
              exact .inr ⟨member, by simp⟩
            · rintro (rfl | ⟨member, _above⟩)
              · exact known
              · exact member
          · rw [if_neg known]
            simp [or_comm]
        · have cut : newKey ∈ ((entry :: entries).map Prod.fst).takeWhile
              (· ≠ key) := by
            rw [List.map_cons, same,
              List.takeWhile_cons_of_pos (by simpa using Ne.symm wanted)]
            exact List.mem_cons_self
          simp only [cut, not_true_eq_false, and_false, or_false, wanted,
            false_and]
          simp [Holds, Ne.symm wanted]
      · rw [if_neg same, holds_cons, holds_cons, induction rest]
        by_cases wanted : entry.1 = key
        · have only : ¬ Holds entries key value := by
            intro held
            apply fresh
            rw [wanted]
            exact mem_keys_of_holds held
          have other : key ≠ newKey := by
            rintro rfl
            exact same wanted
          simp only [wanted, only, other, false_and, or_false, false_or,
            true_and, List.map_cons]
          simp
        · simp only [wanted, false_and, false_or, List.map_cons]
          rw [List.takeWhile_cons_of_pos (by simpa using wanted)]
          simp [Ne.symm same]

/-- The table holds a value if and only if it was recorded at a place from
which on its key stays on the stack. -/
theorem holds_recordAll_iff (key : κ) (value : β) :
    Holds (recordAll history) key value ↔ Stays history key value := by
  induction history using List.reverseRecOn with
  | nil =>
      constructor
      · rintro ⟨entry, member, _same⟩
        cases member
      · rintro ⟨front, rest, split, _above⟩
        simp at split
  | append_singleton history x induction =>
      have distinct : ((recordAll history).map Prod.fst).Nodup := by
        rw [keys_recordAll]
        exact nodup_stackOf _
      rw [recordAll_append, holds_record_iff distinct, induction,
        keys_recordAll]
      constructor
      · rintro (⟨rfl, rfl⟩ | ⟨⟨front, rest, rfl, above⟩, uncut⟩)
        · exact ⟨history, [], rfl, by simp⟩
        · refine ⟨front, rest ++ [x], by simp, ?_⟩
          intro y member
          rcases List.mem_append.mp member with old | new
          · exact above y old
          · rw [List.mem_singleton] at new
            subst new
            have kept := (stackOf_below (front.map Prod.fst)
              (rest.map Prod.fst) key fun z inside => by
                obtain ⟨w, there, rfl⟩ := List.mem_map.mp inside
                exact above w there).2
            rw [List.map_append, List.map_cons, kept] at uncut
            exact uncut
      · rintro ⟨front, rest, split, above⟩
        rcases List.eq_nil_or_concat rest with rfl | ⟨rest, last, rfl⟩
        · have same := List.append_inj' split rfl
          obtain ⟨rfl, new⟩ := same
          cases List.cons.inj new with
          | intro new _ =>
              subst new
              exact .inl ⟨rfl, rfl⟩
        · rw [List.concat_eq_append] at split above
          have longer : front ++ (key, value) :: (rest ++ [last]) =
              (front ++ (key, value) :: rest) ++ [last] := by simp
          rw [longer] at split
          obtain ⟨old, new⟩ := List.append_inj' split rfl
          cases List.cons.inj new with
          | intro new _ =>
              subst new
              right
              refine ⟨⟨front, rest, old, fun y member =>
                above y (List.mem_append_left _ member)⟩, ?_⟩
              have kept := (stackOf_below (front.map Prod.fst)
                (rest.map Prod.fst) key fun z inside => by
                  obtain ⟨w, there, rfl⟩ := List.mem_map.mp inside
                  exact above w (List.mem_append_left _ there)).2
              rw [old, List.map_append, List.map_cons, kept]
              exact above x (by simp)

/-! ## Histories that cut nothing off -/

omit [DecidableEq β] in
/-- What comes behind a value has its key or one that did not come before. -/
theorem stays_of_apart {front rest : List (κ × β)} {key : κ} {value : β}
    (apart : ∀ x ∈ rest, x.1 = key ∨ x.1 ∉ front.map Prod.fst) :
    Stays (front ++ (key, value) :: rest) key value := by
  have known (keys : List κ) : ∀ x ∈ stackOf keys, x ∈ keys := by
    induction keys using List.reverseRecOn with
    | nil => exact fun x member => member
    | append_singleton keys last induction =>
        intro x member
        rw [stackOf_append, push] at member
        rcases List.mem_append.mp member with before | here
        · exact List.mem_append_left _
            (induction x ((List.takeWhile_sublist _).subset before))
        · exact List.mem_append_right _ here
  refine ⟨front, rest, rfl, fun x member under => ?_⟩
  rcases apart x member with same | new
  · simpa [same] using List.mem_takeWhile_imp under
  · exact new (known _ _ ((List.takeWhile_sublist _).subset under))

theorem stays_iff_mem_of_forall {key : κ} (same : ∀ x ∈ history, x.1 = key)
    (value : β) : Stays history key value ↔ (key, value) ∈ history := by
  constructor
  · rintro ⟨front, rest, rfl, _⟩
    simp
  · intro member
    obtain ⟨front, rest, rfl⟩ := List.append_of_mem member
    exact stays_of_apart fun x behind => .inl (same x (by simp [behind]))

/-- The values of a table, each with its key. -/
def listed (groups : List (κ × List β)) : List (κ × β) :=
  groups.flatMap fun group => group.2.map fun value => (group.1, value)

omit [DecidableEq κ] [DecidableEq β] in
theorem mem_listed_iff {groups : List (κ × List β)} (key : κ) (value : β) :
    (key, value) ∈ listed groups ↔ Holds groups key value := by
  constructor
  · intro member
    obtain ⟨group, there, inside⟩ := List.mem_flatMap.mp member
    obtain ⟨other, found, same⟩ := List.mem_map.mp inside
    cases same
    exact ⟨group, there, rfl, found⟩
  · rintro ⟨group, there, rfl, found⟩
    exact List.mem_flatMap.mpr ⟨group, there, List.mem_map.mpr
      ⟨value, found, rfl⟩⟩

/-- A table with distinct keys is recorded as a whole. -/
theorem stays_listed_iff {groups : List (κ × List β)}
    (distinct : (groups.map Prod.fst).Nodup) (key : κ) (value : β) :
    Stays (listed groups) key value ↔ Holds groups key value := by
  rw [← mem_listed_iff]
  constructor
  · rintro ⟨front, rest, split, _⟩
    rw [split]
    simp
  · intro member
    obtain ⟨group, there, inside⟩ := List.mem_flatMap.mp member
    obtain ⟨other, found, same⟩ := List.mem_map.mp inside
    cases same
    obtain ⟨before, behind, rfl⟩ := List.append_of_mem there
    obtain ⟨first, last, values⟩ := List.append_of_mem found
    have split : listed (before ++ group :: behind) =
        (listed before ++ first.map fun value => (group.1, value)) ++
          (group.1, value) ::
            ((last.map fun value => (group.1, value)) ++ listed behind) := by
      simp [listed, values]
    rw [split]
    apply stays_of_apart
    intro x later
    rw [List.map_append, List.map_cons, List.nodup_append] at distinct
    rcases List.mem_append.mp later with sameGroup | others
    · obtain ⟨other, _, rfl⟩ := List.mem_map.mp sameGroup
      exact .inl rfl
    · obtain ⟨next, placed, listing⟩ := List.mem_flatMap.mp others
      obtain ⟨other, _, rfl⟩ := List.mem_map.mp listing
      have fresh : next.1 ≠ group.1 := by
        rintro same
        apply (List.nodup_cons.mp distinct.2.1).1
        rw [← same]
        exact List.mem_map_of_mem placed
      refine .inr fun earlier => ?_
      rw [List.map_append] at earlier
      rcases List.mem_append.mp earlier with old | mine
      · obtain ⟨y, placedBefore, same⟩ := List.mem_map.mp old
        obtain ⟨prior, member, listing⟩ := List.mem_flatMap.mp placedBefore
        obtain ⟨other, _, rfl⟩ := List.mem_map.mp listing
        exact distinct.2.2 prior.1 (List.mem_map_of_mem member) next.1
          (List.mem_cons_of_mem _ (List.mem_map_of_mem placed)) same
      · obtain ⟨y, placedBefore, same⟩ := List.mem_map.mp mine
        obtain ⟨other, _, rfl⟩ := List.mem_map.mp placedBefore
        exact fresh same.symm

end CutStack
