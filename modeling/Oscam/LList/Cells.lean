import Oscam.LList.Ops

/-!
# The nodes of a list

What each operation does to the chain of nodes behind `initial`, and to the
pointer to the last of them.
-/

namespace Oscam.LList

variable {l : LList} {cells front back kept : List Nat} {cell obj : Nat}
  {it : LlIter}

/-! ## Fields of a changed list -/

section Fields

variable (l : LList) (cell obj : Nat) (nxt : Option Nat) (flag : UInt8)
  (node : LlNode)

@[simp] theorem fresh_setNode : (l.setNode cell node).fresh = l.fresh := rfl
@[simp] theorem initial_setNode :
    (l.setNode cell node).initial = l.initial := rfl
@[simp] theorem last_setNode : (l.setNode cell node).last = l.last := rfl
@[simp] theorem count_setNode : (l.setNode cell node).count = l.count := rfl

@[simp] theorem fresh_setNxt : (l.setNxt cell nxt).fresh = l.fresh := rfl
@[simp] theorem initial_setNxt : (l.setNxt cell nxt).initial = l.initial := rfl
@[simp] theorem last_setNxt : (l.setNxt cell nxt).last = l.last := rfl
@[simp] theorem count_setNxt : (l.setNxt cell nxt).count = l.count := rfl

@[simp] theorem fresh_setFlag : (l.setFlag cell flag).fresh = l.fresh := rfl
@[simp] theorem initial_setFlag :
    (l.setFlag cell flag).initial = l.initial := rfl
@[simp] theorem last_setFlag : (l.setFlag cell flag).last = l.last := rfl
@[simp] theorem count_setFlag : (l.setFlag cell flag).count = l.count := rfl

theorem next_setNode :
    (l.setNode cell node).next = Function.update l.next cell node.nxt := by
  funext other
  by_cases same : other = cell
  · subst same
    simp [next, setNode]
  · simp [next, setNode, same]

@[simp] theorem next_setNxt :
    (l.setNxt cell nxt).next = Function.update l.next cell nxt :=
  next_setNode l cell _

theorem next_setNode_same (same : node.nxt = l.next cell) :
    (l.setNode cell node).next = l.next := by
  rw [next_setNode, same, Function.update_eq_self]

@[simp] theorem next_setFlag : (l.setFlag cell flag).next = l.next :=
  next_setNode_same l cell _ rfl

@[simp] theorem next_setObj : (l.setObj cell obj).next = l.next :=
  next_setNode_same l cell _ rfl

@[simp] theorem next_alloc :
    (l.alloc obj nxt).next = Function.update l.next l.fresh nxt :=
  next_setNode l l.fresh _

theorem obj_setNode :
    (l.setNode cell node).obj = Function.update l.obj cell node.obj := by
  funext other
  by_cases same : other = cell
  · subst same
    simp [LList.obj, setNode]
  · simp [LList.obj, setNode, same]

theorem flag_setNode :
    (l.setNode cell node).flag = Function.update l.flag cell node.flag := by
  funext other
  by_cases same : other = cell
  · subst same
    simp [LList.flag, setNode]
  · simp [LList.flag, setNode, same]

@[simp] theorem obj_setNxt : (l.setNxt cell nxt).obj = l.obj :=
  (obj_setNode l cell _).trans (Function.update_eq_self _ _)

@[simp] theorem flag_setNxt : (l.setNxt cell nxt).flag = l.flag :=
  (flag_setNode l cell _).trans (Function.update_eq_self _ _)

@[simp] theorem obj_setFlag : (l.setFlag cell flag).obj = l.obj :=
  (obj_setNode l cell _).trans (Function.update_eq_self _ _)

@[simp] theorem flag_setFlag :
    (l.setFlag cell flag).flag = Function.update l.flag cell flag :=
  flag_setNode l cell _

@[simp] theorem obj_setObj :
    (l.setObj cell obj).obj = Function.update l.obj cell obj :=
  obj_setNode l cell _

@[simp] theorem obj_alloc :
    (l.alloc obj nxt).obj = Function.update l.obj l.fresh obj :=
  obj_setNode l l.fresh _

@[simp] theorem fresh_alloc : (l.alloc obj nxt).fresh = l.fresh + 1 := rfl
@[simp] theorem initial_alloc : (l.alloc obj nxt).initial = l.initial := rfl
@[simp] theorem last_alloc : (l.alloc obj nxt).last = l.last := rfl
@[simp] theorem count_alloc : (l.alloc obj nxt).count = l.count := rfl

end Fields

section Relink

variable (l : LList) (prv nxt : Option Nat)

@[simp] theorem fresh_relink : (l.relink prv nxt).fresh = l.fresh := by
  cases prv <;> rfl

@[simp] theorem last_relink : (l.relink prv nxt).last = l.last := by
  cases prv <;> rfl

@[simp] theorem count_relink : (l.relink prv nxt).count = l.count := by
  cases prv <;> rfl

@[simp] theorem obj_relink : (l.relink prv nxt).obj = l.obj := by
  cases prv with
  | none => rfl
  | some prv => exact obj_setNxt l prv nxt

@[simp] theorem flag_relink : (l.relink prv nxt).flag = l.flag := by
  cases prv with
  | none => rfl
  | some prv => exact flag_setNxt l prv nxt

end Relink

theorem append_of_empty (some : obj ≠ 0) (empty : l.last = none) :
    l.append obj = { l.alloc obj none with
      initial := .some l.fresh, last := .some l.fresh
      count := l.count + 1 } := by
  simp only [append, some, if_false, last_alloc, empty]
  rfl

theorem append_of_last (some : obj ≠ 0) (last : l.last = .some cell) :
    l.append obj =
      { (l.alloc obj none).setNxt cell (.some l.fresh) with
        last := .some l.fresh, count := l.count + 1 } := by
  simp only [append, some, if_false, last_alloc, last]
  rfl

theorem prepend_eq (some : obj ≠ 0) :
    l.prepend obj = { l.alloc obj l.initial with
      initial := .some l.fresh
      last := if l.last = none then .some l.fresh else l.last
      count := l.count + 1 } := by
  simp only [prepend, some, if_false, last_alloc, count_alloc]
  rfl

theorem iterInsert_eq {nxt : Nat} (some : obj ≠ 0)
    (succ : l.next cell = .some nxt) (prv : Option Nat) :
    l.iterInsert { cur := .some cell, prv := prv } obj =
      { (l.alloc obj (.some nxt)).setNxt cell (.some l.fresh) with
        count := l.count + 1 } := by
  simp only [iterInsert, succ, some, if_false]
  rfl

theorem iterInsert_of_end (ends : l.next cell = none) (prv : Option Nat) :
    l.iterInsert { cur := some cell, prv := prv } obj = l.append obj := by
  simp only [iterInsert, ends]

theorem obj_append (some : obj ≠ 0) :
    (l.append obj).obj = Function.update l.obj l.fresh obj := by
  cases last : l.last with
  | none =>
      rw [append_of_empty some last]
      exact obj_alloc l obj none
  | some cell =>
      rw [append_of_last some last]
      exact (obj_setNxt _ _ _).trans (obj_alloc l obj none)

theorem obj_prepend (some : obj ≠ 0) :
    (l.prepend obj).obj = Function.update l.obj l.fresh obj := by
  rw [prepend_eq some]
  exact obj_alloc l obj l.initial

theorem obj_iterInsert {nxt : Nat} (some : obj ≠ 0)
    (succ : l.next cell = .some nxt) (prv : Option Nat) :
    (l.iterInsert { cur := .some cell, prv := prv } obj).obj =
      Function.update l.obj l.fresh obj := by
  rw [iterInsert_eq some succ]
  exact (obj_setNxt _ _ _).trans (obj_alloc l obj _)

theorem obj_toFront (l : LList) (prv : Option Nat) (move : Nat) :
    (l.toFront prv move).obj = l.obj :=
  (obj_setNxt _ _ _).trans (obj_relink l _ _)

/-! ## Chained lists -/

/-- The nodes from `initial` on are `cells`, and `last` points to the last
one. -/
structure Chained (l : LList) (cells : List Nat) : Prop where
  linked : Leads l.next l.initial cells none
  last : l.last = cells.getLast?
  allocated : ∀ cell ∈ cells, cell < l.fresh

namespace Chained

theorem create : Chained LList.create [] :=
  { linked := rfl, last := rfl, allocated := fun _ none => by cases none }

theorem nodup (chained : Chained l cells) : cells.Nodup :=
  chained.linked.nodup

theorem cells_eq (chained : Chained l cells) : l.cells = cells :=
  chained.linked.follow_eq (chained.linked.length_le chained.allocated)

theorem unique {other : List Nat} (chained : Chained l cells)
    (again : Chained l other) : other = cells :=
  again.linked.unique chained.linked

theorem fresh_notMem (chained : Chained l cells) : l.fresh ∉ cells := by
  intro member
  exact Nat.lt_irrefl _ (chained.allocated _ member)

/-- The parts of a list around one of its nodes have nothing in common. -/
theorem apart (chained : Chained l (front ++ cell :: back)) :
    cell ∉ front ∧ cell ∉ back := by
  have nodup := List.nodup_append.mp chained.nodup
  constructor
  · intro member
    exact nodup.2.2 cell member cell (by simp) rfl
  · exact (List.nodup_cons.mp nodup.2.1).1

/-- Nodes may change as long as they point to the same nodes. -/
theorem congr {other : LList} (chained : Chained l cells)
    (next : other.next = l.next) (initial : other.initial = l.initial)
    (last : other.last = l.last) (fresh : other.fresh = l.fresh) :
    Chained other cells := by
  constructor
  · rw [next, initial]
    exact chained.linked
  · rw [last]
    exact chained.last
  · rw [fresh]
    exact chained.allocated

theorem setFlag (chained : Chained l cells) (cell : Nat) (flag : UInt8) :
    Chained (l.setFlag cell flag) cells :=
  chained.congr (by simp) rfl rfl rfl

theorem setObj (chained : Chained l cells) (cell obj : Nat) :
    Chained (l.setObj cell obj) cells :=
  chained.congr (by simp) rfl rfl rfl

/-! ## Adding -/

/-- With a new object the objects of a list are still none of them null. -/
theorem objects_add {other : Nat} (chained : Chained l cells)
    (objects : ∀ cell ∈ cells, l.obj cell ≠ 0) (some : obj ≠ 0)
    (member : other = l.fresh ∨ other ∈ cells) :
    Function.update l.obj l.fresh obj other ≠ 0 := by
  rcases member with rfl | old
  · rw [Function.update_self]
    exact some
  · have apart : other ≠ l.fresh := by
      rintro rfl
      exact chained.fresh_notMem old
    rw [Function.update_of_ne apart]
    exact objects other old

theorem append (chained : Chained l cells) (some : obj ≠ 0) :
    Chained (l.append obj) (cells ++ [l.fresh]) := by
  have new := chained.fresh_notMem
  have way := chained.linked.update new none
  rcases List.eq_nil_or_concat cells with rfl | ⟨front, cell, rfl⟩
  · rw [append_of_empty some chained.last]
    constructor
    · have free : (l.alloc obj none).next l.fresh = none := by
        rw [next_alloc, Function.update_self]
      exact ⟨rfl, free⟩
    · rfl
    · intro other member
      rw [List.mem_singleton.mp member]
      exact Nat.lt_succ_self _
  · rw [List.concat_eq_append] at *
    have last : l.last = .some cell := by
      rw [chained.last]
      simp
    rw [append_of_last some last]
    constructor
    · have attached := way.attach new (Function.update_self _ _ _)
      rw [← next_alloc l obj, ← next_setNxt] at attached
      exact attached
    · simp
    · intro other member
      rcases List.mem_append.mp member with old | new
      · exact Nat.lt_succ_of_lt (chained.allocated other old)
      · rw [List.mem_singleton.mp new]
        exact Nat.lt_succ_self _

theorem prepend (chained : Chained l cells) (some : obj ≠ 0) :
    Chained (l.prepend obj) (l.fresh :: cells) := by
  have way := chained.linked.push chained.fresh_notMem
  rw [← next_alloc l obj] at way
  rw [prepend_eq some]
  constructor
  · exact way
  · rw [chained.last]
    cases cells with
    | nil => rfl
    | cons cell cells => simp
  · intro other member
    rcases List.mem_cons.mp member with rfl | old
    · exact Nat.lt_succ_self _
    · exact Nat.lt_succ_of_lt (chained.allocated other old)

/-- A node is inserted behind one that has a successor. -/
theorem insertBehind {nxt : Nat} (chained : Chained l (front ++ cell :: back))
    (some : obj ≠ 0) (succ : l.next cell = .some nxt) :
    Chained (l.iterInsert { cur := .some cell, prv := it.prv } obj)
      (front ++ cell :: l.fresh :: back) := by
  obtain ⟨head, rest⟩ := Leads.split_iff.mp chained.linked
  obtain ⟨notFront, notBack⟩ := chained.apart
  have new := chained.fresh_notMem
  simp only [List.mem_append, List.mem_cons, not_or] at new
  obtain ⟨newFront, newCell, newBack⟩ := new
  have pushed := rest.push newBack
  rw [succ] at pushed
  have behind := pushed.update
    (show cell ∉ l.fresh :: back by simp [notBack, Ne.symm newCell])
    (.some l.fresh)
  have before := (head.update newFront (.some nxt)).update notFront
    (.some l.fresh)
  have last : back ≠ [] := by
    rintro rfl
    have ends : l.next cell = none := rest
    rw [succ] at ends
    cases ends
  rw [iterInsert_eq some succ]
  constructor
  · have pointers : ((l.alloc obj (.some nxt)).setNxt cell
        (.some l.fresh)).next = Function.update
          (Function.update l.next l.fresh (.some nxt)) cell
          (.some l.fresh) := by
      rw [next_setNxt, next_alloc]
    have way : Leads ((l.alloc obj (.some nxt)).setNxt cell
        (.some l.fresh)).next l.initial (front ++ cell :: l.fresh :: back)
          none := by
      rw [pointers, Leads.split_iff, Function.update_self]
      exact ⟨before, behind⟩
    exact way
  · have kept : l.last = (front ++ cell :: l.fresh :: back).getLast? := by
      rw [chained.last, List.getLast?_append_of_ne_nil _ (by simp),
        List.getLast?_append_of_ne_nil _ (by simp), List.getLast?_cons,
        List.getLast?_cons, List.getLast?_cons,
        List.getLast?_eq_some_getLast last]
      rfl
    exact kept
  · intro other member
    have below : ∀ other ∈ front ++ cell :: back, other < l.fresh :=
      chained.allocated
    simp only [List.mem_append, List.mem_cons] at member below
    rcases member with inFront | rfl | rfl | inBack
    · exact Nat.lt_succ_of_lt (below other (Or.inl inFront))
    · exact Nat.lt_succ_of_lt (below other (Or.inr (Or.inl rfl)))
    · exact Nat.lt_succ_self _
    · exact Nat.lt_succ_of_lt (below other (Or.inr (Or.inr inBack)))

/-- A node that is not in the list may point to a new one. -/
theorem insertOutside {nxt : Nat} (chained : Chained l cells)
    (some : obj ≠ 0) (outside : cell ∉ cells) (succ : l.next cell = .some nxt) :
    Chained (l.iterInsert { cur := .some cell, prv := it.prv } obj) cells := by
  have way := (chained.linked.update chained.fresh_notMem (.some nxt)).update
    outside (.some l.fresh)
  rw [← next_alloc l obj, ← next_setNxt] at way
  rw [iterInsert_eq some succ]
  constructor
  · exact way
  · exact chained.last
  · intro other member
    exact Nat.lt_succ_of_lt (chained.allocated other member)

/-! ## Taking out

`kept` are the nodes in front that stay: all of them, if the iterator knows the
node in front of its own, and none, if it takes its node for the first one. -/

theorem relink (chained : Chained l (front ++ cell :: back))
    (stays : kept = [] ∨ kept = front) :
    Leads (l.relink kept.getLast? (l.next cell)).next
      (l.relink kept.getLast? (l.next cell)).initial (kept ++ back) none := by
  obtain ⟨head, rest⟩ := Leads.split_iff.mp chained.linked
  rcases List.eq_nil_or_concat kept with rfl | ⟨before, prv, rfl⟩
  · exact rest
  · rw [List.concat_eq_append] at *
    have same : front = before ++ [prv] := by
      rcases stays with none | all
      · simp at none
      · exact all.symm
    subst same
    have nodup := List.nodup_append.mp chained.nodup
    have notBefore : prv ∉ before := by
      intro member
      exact (List.nodup_append.mp nodup.1).2.2 prv member prv (by simp) rfl
    have notBack : prv ∉ back := by
      intro member
      exact nodup.2.2 prv (by simp) prv (by simp [member]) rfl
    obtain ⟨first, _⟩ := Leads.concat_iff.mp head
    rw [List.getLast?_concat]
    simp only [LList.relink, next_setNxt, initial_setNxt]
    rw [List.append_assoc, List.singleton_append, Leads.split_iff,
      Function.update_self]
    exact ⟨first.update notBefore _, rest.update notBack _⟩

/-- The last node, when one is taken out. -/
theorem last_unlink (chained : Chained l (front ++ cell :: back))
    (stays : kept = [] ∨ kept = front) :
    (l.unlink kept.getLast? cell).last = (kept ++ back).getLast? := by
  have way := (chained.relink stays).head
  have last := chained.last
  rw [List.getLast?_append_of_ne_nil _ (by simp)] at last
  simp only [unlink, way, last_relink, last]
  cases back with
  | nil =>
      rw [List.append_nil, List.getLast?_singleton, if_pos rfl]
      cases kept with
      | nil => rfl
      | cons first kept => simp
  | cons first back =>
      obtain ⟨_, notBack⟩ := chained.apart
      have other : (cell :: first :: back).getLast? ≠ .some cell := by
        rw [List.getLast?_cons_cons]
        intro same
        exact notBack (List.mem_of_getLast? same)
      rw [if_neg other, List.getLast?_cons_cons,
        List.getLast?_append_of_ne_nil _ (by simp)]
      simp

theorem unlink (chained : Chained l (front ++ cell :: back))
    (stays : kept = [] ∨ kept = front) :
    Chained (l.unlink kept.getLast? cell) (kept ++ back) := by
  constructor
  · exact chained.relink stays
  · exact chained.last_unlink stays
  · intro other member
    have fresh : (l.unlink kept.getLast? cell).fresh = l.fresh :=
      fresh_relink l _ _
    rw [fresh]
    apply chained.allocated
    rcases List.mem_append.mp member with early | late
    · rcases stays with rfl | rfl
      · cases early
      · exact List.mem_append_left _ early
    · exact List.mem_append_right _ (List.mem_cons_of_mem _ late)

/-- What is written to a node outside the list does not touch the list. -/
theorem unlinkOutside {prv : Nat} (chained : Chained l cells)
    (outside : cell ∉ cells) (prvOutside : prv ∉ cells) :
    Chained (l.unlink (.some prv) cell) cells := by
  have way := chained.linked.update prvOutside (l.next cell)
  rw [← next_setNxt] at way
  constructor
  · exact way
  · have first := chained.linked.head
    simp only [LList.unlink, LList.relink, initial_setNxt, last_setNxt, first,
      chained.last]
    cases cells with
    | nil => rfl
    | cons head cells =>
        have other : (head :: cells).getLast? ≠ .some cell := by
          intro same
          exact outside (List.mem_of_getLast? same)
        rw [if_neg other]
        rfl
  · exact chained.allocated

theorem toFront (chained : Chained l (front ++ cell :: back))
    (stays : kept = [] ∨ kept = front) :
    Chained (l.toFront kept.getLast? cell) (cell :: (kept ++ back)) := by
  obtain ⟨notFront, notBack⟩ := chained.apart
  have way := chained.relink stays
  have outside : cell ∉ kept ++ back := by
    intro member
    rcases List.mem_append.mp member with early | late
    · rcases stays with rfl | rfl
      · cases early
      · exact notFront early
    · exact notBack late
  have pushed := way.push outside
  rw [← next_setNxt] at pushed
  constructor
  · exact pushed
  · have last := chained.last
    rw [List.getLast?_append_of_ne_nil _ (by simp)] at last
    simp only [LList.toFront, last_setNxt, last_relink, last]
    cases back with
    | nil =>
        cases kept with
        | nil => simp
        | cons first kept => simp [List.getLast?_cons]
    | cons first back =>
        have other : (cell :: first :: back).getLast? ≠ .some cell := by
          rw [List.getLast?_cons_cons]
          intro same
          exact notBack (List.mem_of_getLast? same)
        rw [if_neg (fun both => other both.2), List.getLast?_cons_cons]
        simp [List.getLast?_cons]
  · intro other member
    have fresh : (l.toFront kept.getLast? cell).fresh = l.fresh :=
      fresh_relink l _ _
    rw [fresh]
    apply chained.allocated
    rcases List.mem_cons.mp member with rfl | inside
    · simp
    · rcases List.mem_append.mp inside with early | late
      · rcases stays with rfl | rfl
        · cases early
        · exact List.mem_append_left _ early
      · exact List.mem_append_right _ (List.mem_cons_of_mem _ late)

/-! ## Whole lists -/

theorem clear (l : LList) : Chained l.clear [] :=
  { linked := rfl, last := rfl, allocated := fun _ none => by cases none }

theorem sort (chained : Chained l cells) (qsort : List Nat → List Nat) :
    Chained (l.sort qsort) cells := by
  have assigned : ∀ (pairs : List (Nat × Nat)) (l : LList),
      Chained l cells →
        Chained (pairs.foldl (fun l pair => l.setObj pair.1 pair.2) l)
          cells := by
    intro pairs
    induction pairs with
    | nil => exact fun l chained => chained
    | cons pair pairs induction =>
        intro l chained
        exact induction _ (chained.setObj pair.1 pair.2)
  exact assigned _ l chained

end Chained

end Oscam.LList
