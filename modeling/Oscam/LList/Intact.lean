import Oscam.LList.Runs
import Mathlib.Data.List.Perm.Basic

/-!
# Intact lists

The chain of nodes, the pointer to the last one and the counter of a list agree
after every run whose iterators are used at nodes of the list.  Iterating then
visits each node once, and sorting permutes the objects.
-/

namespace Oscam.LList

open StepSystem

variable {l : LList} {cells front back : List Nat} {cell obj : Nat}
  {it : LlIter}

/-! ## Counted lists of objects -/

structure WellFormed (l : LList) (cells : List Nat) : Prop
    extends Chained l cells where
  counted : l.count = cells.length
  objects : ∀ cell ∈ cells, l.obj cell ≠ 0

namespace WellFormed

theorem create : WellFormed LList.create [] :=
  { Chained.create with
    counted := rfl
    objects := fun _ none => by cases none }

theorem setFlag (formed : WellFormed l cells) (cell : Nat) (flag : UInt8) :
    WellFormed (l.setFlag cell flag) cells :=
  { formed.toChained.setFlag cell flag with
    counted := formed.counted
    objects := by
      rw [obj_setFlag]
      exact formed.objects }

/-- A new object is one object more. -/
theorem add {after : List Nat} {added : LList} (formed : WellFormed l cells)
    (chained : Chained added after) (some : obj ≠ 0)
    (members : ∀ cell, cell ∈ after ↔ cell = l.fresh ∨ cell ∈ cells)
    (length : after.length = cells.length + 1)
    (count : added.count = l.count + 1)
    (objects : added.obj = Function.update l.obj l.fresh obj) :
    WellFormed added after := by
  constructor
  · exact chained
  · rw [count, length, formed.counted]
    push_cast
    rfl
  · intro cell member
    rw [objects]
    exact formed.objects_add formed.objects some ((members cell).mp member)

theorem append (formed : WellFormed l cells) (some : obj ≠ 0) :
    WellFormed (l.append obj) (cells ++ [l.fresh]) := by
  apply formed.add (formed.toChained.append some) some
  · intro cell
    rw [List.mem_append, List.mem_singleton, or_comm]
  · simp
  · cases last : l.last with
    | none => rw [append_of_empty some last]
    | some cell => rw [append_of_last some last]
  · exact obj_append some

theorem prepend (formed : WellFormed l cells) (some : obj ≠ 0) :
    WellFormed (l.prepend obj) (l.fresh :: cells) := by
  apply formed.add (formed.toChained.prepend some) some
  · intro cell
    rw [List.mem_cons]
  · simp
  · rw [prepend_eq some]
  · exact obj_prepend some

theorem insertBehind {nxt : Nat}
    (formed : WellFormed l (front ++ cell :: back)) (some : obj ≠ 0)
    (succ : l.next cell = .some nxt) :
    WellFormed (l.iterInsert { cur := .some cell, prv := it.prv } obj)
      (front ++ cell :: l.fresh :: back) := by
  apply formed.add (formed.toChained.insertBehind some succ) some
  · intro other
    simp only [List.mem_append, List.mem_cons]
    tauto
  · simp only [List.length_append, List.length_cons]
    omega
  · rw [iterInsert_eq some succ]
  · exact obj_iterInsert some succ it.prv

theorem remove (formed : WellFormed l (front ++ cell :: back))
    (free : l.flag cell = 0) :
    WellFormed (l.iterRemove { cur := some cell, prv := front.getLast? }).1
      (front ++ back) := by
  constructor
  · exact chained_iterRemove formed.toChained (Or.inr rfl) free
  · have counted := formed.counted
    rw [count_iterRemove free]
    simp only [List.length_append, List.length_cons] at counted ⊢
    push_cast at counted ⊢
    omega
  · intro other member
    rw [obj_iterRemove]
    apply formed.objects
    rcases List.mem_append.mp member with early | late
    · exact List.mem_append_left _ early
    · exact List.mem_append_right _ (List.mem_cons_of_mem _ late)

theorem toFront (formed : WellFormed l (front ++ cell :: back)) :
    WellFormed (l.toFront front.getLast? cell) (cell :: (front ++ back)) := by
  constructor
  · exact formed.toChained.toFront (Or.inr rfl)
  · have counted := formed.counted
    have same : (l.toFront front.getLast? cell).count = l.count :=
      count_relink l _ _
    rw [same, counted]
    simp only [List.length_append, List.length_cons]
    omega
  · rw [obj_toFront]
    intro other member
    apply formed.objects
    simp only [List.mem_append, List.mem_cons] at member ⊢
    tauto

theorem clear (l : LList) : WellFormed l.clear [] :=
  { Chained.clear l with
    counted := rfl
    objects := fun _ none => by cases none }

theorem removeLoop (formed : WellFormed l cells) (wanted : Nat → Bool) :
    WellFormed (LList.removeLoop wanted (l.fresh + 1) l iterCreate 0).1
      (swept l.obj l.flag wanted cells).1 := by
  have size := formed.linked.length_le formed.allocated
  have done := @removeLoop_swept l [] cells wanted (l.fresh + 1)
    formed.toChained (fun cell none => by cases none) (by omega) 0
  constructor
  · exact done.chained
  · have counted := done.size
    rw [formed.counted] at counted
    exact Int.sub_eq_zero.mp (counted.trans (Int.sub_self _))
  · intro cell member
    have objects := formed.objects cell (mem_of_swept member)
    rw [← done.still] at objects
    exact objects

end WellFormed

/-! ## Sorting -/

/-- The array is written back object by object. -/
theorem obj_assign {p : List Nat} (nodup : cells.Nodup)
    (length : p.length = cells.length) (l : LList) :
    let assigned := (cells.zip p).foldl (fun l (cell, obj) => l.setObj cell obj)
      l
    cells.map assigned.obj = p ∧
      ∀ cell ∉ cells, assigned.obj cell = l.obj cell := by
  induction cells generalizing l p with
  | nil =>
      rw [List.length_nil, List.length_eq_zero_iff] at length
      subst length
      exact ⟨rfl, fun _ _ => rfl⟩
  | cons cell cells induction =>
      cases p with
      | nil => cases length
      | cons obj p =>
          obtain ⟨outside, distinct⟩ := List.nodup_cons.mp nodup
          obtain ⟨inside, others⟩ := induction distinct
            (Nat.succ.inj length) (l.setObj cell obj)
          have first := others cell outside
          rw [obj_setObj, Function.update_self] at first
          constructor
          · rw [List.zip_cons_cons, List.foldl_cons, List.map_cons, inside,
              first]
          · intro other notIn
            rw [List.mem_cons, not_or] at notIn
            rw [List.zip_cons_cons, List.foldl_cons, others other notIn.2,
              obj_setObj, Function.update_of_ne notIn.1]

theorem sort_perm {qsort : List Nat → List Nat}
    (permutes : ∀ p, (qsort p).Perm p) (formed : WellFormed l cells) :
    (cells.map (l.sort qsort).obj).Perm (cells.map l.obj) := by
  have same := formed.cells_eq
  have counted := formed.counted
  have array : l.flatten = cells.map l.obj := by
    rw [flatten, same, counted, Int.toNat_natCast, Nat.sub_self]
    exact List.append_nil _
  have whole : (cells.map l.obj).length = l.count.toNat := by
    rw [counted, List.length_map, Int.toNat_natCast]
  have size := (permutes (cells.map l.obj)).length_eq
  rw [List.length_map] at size
  obtain ⟨inside, _⟩ := obj_assign formed.nodup size l
  have sorted : (l.sort qsort).obj =
      ((cells.zip (qsort (cells.map l.obj))).foldl
        (fun l (cell, obj) => l.setObj cell obj) l).obj := by
    rw [sort, same, array, ← whole, List.take_length, List.drop_length,
      List.append_nil]
  rw [sorted, inside]
  exact permutes _

theorem WellFormed.sort {qsort : List Nat → List Nat}
    (permutes : ∀ p, (qsort p).Perm p) (formed : WellFormed l cells) :
    WellFormed (l.sort qsort) cells := by
  have count : ∀ (pairs : List (Nat × Nat)) (l : LList),
      (pairs.foldl (fun l (cell, obj) => l.setObj cell obj) l).count =
        l.count := by
    intro pairs
    induction pairs with
    | nil => exact fun l => rfl
    | cons pair pairs induction => exact fun l => induction _
  constructor
  · exact formed.toChained.sort qsort
  · exact (count _ l).trans formed.counted
  · intro cell member
    have object : (l.sort qsort).obj cell ∈ cells.map l.obj :=
      (sort_perm permutes formed).subset (List.mem_map_of_mem member)
    obtain ⟨other, inside, same⟩ := List.mem_map.mp object
    rw [← same]
    exact formed.objects other inside

/-! ## Iterating -/

/-- The nodes at which an iterator stops until it finds the null pointer. -/
def visited (l : LList) : Nat → LlIter → List Nat
  | 0, _ => []
  | fuel + 1, it =>
      let (it, data) := l.iterNext it
      if data = 0 then [] else it.cur.toList ++ l.visited fuel it

theorem visited_passed {fuel : Nat} (chained : Chained l (front ++ back))
    (objects : ∀ cell ∈ back, l.obj cell ≠ 0) (enough : back.length < fuel) :
    l.visited fuel (passed front) = back := by
  induction back generalizing front fuel with
  | nil =>
      cases fuel with
      | zero => cases enough
      | succ fuel =>
          rw [List.append_nil] at chained
          rw [visited]
          simp only [iterNext_passed_end chained, if_true]
  | cons cell back induction =>
      cases fuel with
      | zero => cases enough
      | succ fuel =>
          have split : front ++ cell :: back = front ++ [cell] ++ back := by
            simp
          have here : (passed (front ++ [cell])).cur = some cell := by
            rw [passed_concat]
          rw [visited, iterNext_passed chained]
          simp only [objects cell (by simp), if_false, here]
          rw [split] at chained
          rw [induction chained
            (fun inside member => objects inside (by simp [member]))
            (Nat.lt_of_succ_lt_succ enough)]
          rfl

/-! ## Runs -/

/-- `ll_iter_insert` is steady for an iterator if its node is in the list, or
has no successor, so that the object goes to the end. -/
def InsertSteady (l : LList) (it : LlIter) : Prop :=
  ∀ cell ∈ it.cur, l.next cell = none ∨ cell ∈ l.cells

instance (l : LList) (it : LlIter) : Decidable (InsertSteady l it) :=
  inferInstanceAs (Decidable (∀ cell ∈ it.cur, _))

/-- The operations that keep a list intact. -/
def Steady (s : Shared) : Op → Prop
  | .insert i _ => InsertSteady s.list (s.iters i)
  | .remove i | .moveFirst i => MoveSound s.list (s.iters i)
  | _ => True

instance (s : Shared) : ∀ op, Decidable (Steady s op)
  | .insert i _ => inferInstanceAs (Decidable (InsertSteady s.list (s.iters i)))
  | .remove i => inferInstanceAs (Decidable (MoveSound s.list (s.iters i)))
  | .moveFirst i => inferInstanceAs (Decidable (MoveSound s.list (s.iters i)))
  | .append _ | .prepend _ | .next _ | .reset _ | .removeObj _ | .removeAll _
  | .sort | .clear => .isTrue trivial

theorem formed_append (formed : WellFormed l cells) (obj : Nat) :
    ∃ after, WellFormed (l.append obj) after := by
  by_cases some : obj = 0
  · subst some
    exact ⟨cells, formed⟩
  · exact ⟨_, formed.append some⟩

theorem formed_iterInsert (formed : WellFormed l cells)
    (steady : InsertSteady l it) (obj : Nat) :
    ∃ after, WellFormed (l.iterInsert it obj) after := by
  obtain ⟨cur, prv⟩ := it
  cases cur with
  | none => exact formed_append formed obj
  | some cell =>
      cases succ : l.next cell with
      | none =>
          rw [iterInsert_of_end succ]
          exact formed_append formed obj
      | some nxt =>
          by_cases some : obj = 0
          · subst some
            have eq : l.iterInsert { cur := .some cell, prv := prv } 0 = l := by
              simp [iterInsert, succ]
            rw [eq]
            exact ⟨cells, formed⟩
          · rcases steady cell rfl with ends | inside
            · rw [succ] at ends
              cases ends
            · rw [formed.cells_eq] at inside
              obtain ⟨front, back, rfl⟩ := List.append_of_mem inside
              exact ⟨_, @WellFormed.insertBehind l front back cell obj
                { cur := none, prv := prv } nxt formed some succ⟩

theorem formed_remove (formed : WellFormed l cells) (sound : MoveSound l it) :
    ∃ after, WellFormed (l.iterRemove it).1 after := by
  obtain ⟨cur, prv⟩ := it
  cases cur with
  | none => exact ⟨cells, formed⟩
  | some cell =>
      rcases sound cell rfl with flagged | placed
      · rw [iterRemove_flagged flagged]
        exact ⟨cells, formed.setFlag cell _⟩
      · obtain ⟨front, back, rfl, free, cached⟩ :=
          placed.split formed.toChained
        have cachedPrv : prv = front.getLast? := cached
        subst cachedPrv
        exact ⟨_, formed.remove free⟩

theorem formed_moveFirst (formed : WellFormed l cells)
    (sound : MoveSound l it) :
    ∃ after, WellFormed (l.iterMoveFirst it).1 after := by
  obtain ⟨cur, prv⟩ := it
  cases cur with
  | none => exact ⟨cells, formed⟩
  | some cell =>
      by_cases free : l.flag cell = 0
      · rcases sound cell rfl with flagged | placed
        · exact absurd free flagged
        · obtain ⟨front, back, rfl, _, cached⟩ :=
            placed.split formed.toChained
          have cachedPrv : prv = front.getLast? := cached
          subst cachedPrv
          simp only [iterMoveFirst, free, ne_eq, not_true_eq_false, if_false]
          exact ⟨_, (formed.setFlag cell _).toFront⟩
      · simp only [iterMoveFirst, ne_eq, free, not_false_eq_true, if_true]
        exact ⟨cells, formed.setFlag cell _⟩

/-- Every steady operation leaves a well-formed list. -/
theorem formed_step {qsort : List Nat → List Nat}
    (permutes : ∀ p, (qsort p).Perm p) {s : Shared} {op : Op}
    (formed : ∃ cells, WellFormed s.list cells) (steady : Steady s op) :
    ∃ cells, WellFormed (step qsort s op).list cells := by
  obtain ⟨cells, formed⟩ := formed
  cases op with
  | append obj => exact formed_append formed obj
  | prepend obj =>
      by_cases some : obj = 0
      · subst some
        exact ⟨cells, formed⟩
      · exact ⟨_, formed.prepend some⟩
  | next i => exact ⟨cells, formed⟩
  | reset i => exact ⟨cells, formed⟩
  | insert i obj => exact formed_iterInsert formed steady obj
  | remove i => exact formed_remove formed steady
  | moveFirst i => exact formed_moveFirst formed steady
  | removeObj obj => exact ⟨_, formed.removeLoop _⟩
  | removeAll elements => exact ⟨_, formed.removeLoop _⟩
  | sort => exact ⟨cells, formed.sort permutes⟩
  | clear => exact ⟨[], WellFormed.clear s.list⟩

/-- What the users of a list rely on. -/
structure Intact (qsort : List Nat → List Nat) (l : LList) : Prop where
  linked : Leads l.next l.initial l.cells none
  acyclic : l.cells.Nodup
  counted : l.count = l.cells.length
  last : l.last = l.cells.getLast?
  initial_none : l.initial = none ↔ l.count = 0
  last_none : l.last = none ↔ l.count = 0
  visited : l.visited (l.fresh + 1) iterCreate = l.cells
  sortedCells : (l.sort qsort).cells = l.cells
  sorted : (l.cells.map (l.sort qsort).obj).Perm (l.cells.map l.obj)

theorem WellFormed.intact {qsort : List Nat → List Nat}
    (permutes : ∀ p, (qsort p).Perm p) (formed : WellFormed l cells) :
    Intact qsort l := by
  have same := formed.cells_eq
  have empty : l.count = 0 ↔ cells = [] := by
    rw [formed.counted, Int.natCast_eq_zero, List.length_eq_zero_iff]
  constructor
  · rw [same]
    exact formed.linked
  · rw [same]
    exact formed.nodup
  · rw [same]
    exact formed.counted
  · rw [same]
    exact formed.last
  · rw [formed.linked.head, empty, List.head?_eq_none_iff]
  · rw [formed.last, empty, List.getLast?_eq_none_iff]
  · have size := formed.linked.length_le formed.allocated
    rw [same]
    exact @visited_passed l [] cells (l.fresh + 1) formed.toChained
      formed.objects (by omega)
  · rw [same]
    exact (formed.sort permutes).cells_eq
  · rw [same]
    exact sort_perm permutes formed

/-- Every list reached by steady operations is intact. -/
theorem intact_of_steady {qsort : List Nat → List Nat}
    (permutes : ∀ p, (qsort p).Perm p) {s : Shared}
    (reached : Reach (step qsort) Steady (· = Shared.start) s) :
    Intact qsort s.list := by
  have formed : ∃ cells, WellFormed s.list cells := by
    apply reached.invariant
    · rintro _ rfl
      exact ⟨[], WellFormed.create⟩
    · exact fun s op => formed_step permutes
  obtain ⟨cells, formed⟩ := formed
  exact formed.intact permutes

/-- An object is moved to the front and the next one removed. -/
theorem intact_of_steady_moved :
    Intact List.reverse ([Op.append 1, .append 2, .append 3, .next 0, .next 0,
      .moveFirst 0, .next 0, .next 0, .remove 0, .insert 0 4, .sort].foldl
        (step List.reverse) Shared.start).list :=
  intact_of_steady List.reverse_perm (Reach.ofRun (by decide))

/-- An object is put in front of the one that the iterator is at, and the
latter is removed: the counter is wrong. -/
theorem list_broken :
    ¬ Intact List.reverse ([Op.append 1, .next 0, .prepend 2, .remove 0].foldl
      (step List.reverse) Shared.start).list := by
  intro intact
  exact absurd intact.counted (by decide)

end Oscam.LList
