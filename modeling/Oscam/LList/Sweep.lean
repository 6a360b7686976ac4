import Oscam.LList.Iterators

/-!
# Removing objects

The loops of `ll_remove` and `ll_remove_all` take out every node with a wanted
object that was not moved to the front, and count all of them.
-/

namespace Oscam.LList

variable {l : LList} {front back cells : List Nat} {cell : Nat}
  {wanted : Nat → Bool}

/-- The nodes that stay of the ones still to come, and how many objects are
found among them. -/
def swept (obj : Nat → Nat) (flag : Nat → UInt8) (wanted : Nat → Bool) :
    List Nat → List Nat × Nat
  | [] => ([], 0)
  | cell :: cells =>
      let rest := swept obj flag wanted cells
      if obj cell = 0 then (cell :: cells, 0)
      else if wanted (obj cell) then
        if flag cell = 0 then (rest.1, rest.2 + 1)
        else (cell :: rest.1, rest.2 + 1)
      else (cell :: rest.1, rest.2)

theorem swept_congr {obj : Nat → Nat} {flag other : Nat → UInt8}
    (same : ∀ cell ∈ cells, other cell = flag cell) :
    swept obj other wanted cells = swept obj flag wanted cells := by
  induction cells with
  | nil => rfl
  | cons cell cells induction =>
      rw [swept, swept, same cell (by simp),
        induction fun inside member => same inside (by simp [member])]

theorem count_iterRemove (free : l.flag cell = 0) (prv : Option Nat) :
    (l.iterRemove { cur := some cell, prv := prv }).1.count = l.count - 1 := by
  rw [iterRemove_free free]
  simp only [unlink, count_relink, count_setFlag]

theorem flag_iterRemove (l : LList) (cell : Nat) (prv : Option Nat) :
    (l.iterRemove { cur := some cell, prv := prv }).1.flag =
      Function.update l.flag cell (l.flag cell + 1) := by
  by_cases free : l.flag cell = 0
  · rw [iterRemove_free free, free]
    exact (flag_unlink _ _ _).trans (flag_setFlag _ _ _)
  · rw [iterRemove_flagged free]
    exact flag_setFlag _ _ _

theorem mem_of_swept {obj : Nat → Nat} {flag : Nat → UInt8}
    (member : cell ∈ (swept obj flag wanted cells).1) : cell ∈ cells := by
  induction cells with
  | nil => exact member
  | cons head cells induction =>
      simp only [swept] at member
      split at member
      · exact member
      · split at member
        · split at member
          · exact List.mem_cons_of_mem _ (induction member)
          · rcases List.mem_cons.mp member with rfl | rest
            · exact List.mem_cons_self
            · exact List.mem_cons_of_mem _ (induction rest)
        · rcases List.mem_cons.mp member with rfl | rest
          · exact List.mem_cons_self
          · exact List.mem_cons_of_mem _ (induction rest)

/-- Of a list of objects, the wanted ones go unless their node is flagged. -/
theorem mem_swept_iff {obj : Nat → Nat} {flag : Nat → UInt8}
    (objects : ∀ cell ∈ cells, obj cell ≠ 0) (cell : Nat) :
    cell ∈ (swept obj flag wanted cells).1 ↔
      cell ∈ cells ∧ ¬ (wanted (obj cell) = true ∧ flag cell = 0) := by
  induction cells with
  | nil => simp [swept]
  | cons head cells induction =>
      have rest := induction fun inside member =>
        objects inside (by simp [member])
      have some := objects head (by simp)
      by_cases hit : wanted (obj head)
      · by_cases free : flag head = 0
        · simp only [swept, some, hit, free, if_true, if_false, rest,
            List.mem_cons]
          constructor
          · rintro ⟨member, stays⟩
            exact ⟨Or.inr member, stays⟩
          · rintro ⟨rfl | member, stays⟩
            · exact absurd ⟨hit, free⟩ stays
            · exact ⟨member, stays⟩
        · simp only [swept, some, hit, free, if_true, if_false, rest,
            List.mem_cons]
          constructor
          · rintro (rfl | ⟨member, stays⟩)
            · exact ⟨Or.inl rfl, fun both => free both.2⟩
            · exact ⟨Or.inr member, stays⟩
          · rintro ⟨rfl | member, stays⟩
            · exact Or.inl rfl
            · exact Or.inr ⟨member, stays⟩
      · simp only [swept, some, hit, if_false, Bool.false_eq_true, rest,
          List.mem_cons]
        constructor
        · rintro (rfl | ⟨member, stays⟩)
          · exact ⟨Or.inl rfl, fun both => hit both.1⟩
          · exact ⟨Or.inr member, stays⟩
        · rintro ⟨rfl | member, stays⟩
          · exact Or.inl rfl
          · exact Or.inr ⟨member, stays⟩

/-- What stays of a list none of whose wanted nodes is flagged. -/
theorem swept_filter {obj : Nat → Nat} {flag : Nat → UInt8}
    (objects : ∀ cell ∈ cells, obj cell ≠ 0)
    (free : ∀ cell ∈ cells, flag cell = 0) :
    (swept obj flag wanted cells).1 =
      cells.filter fun cell => !wanted (obj cell) := by
  induction cells with
  | nil => rfl
  | cons head cells induction =>
      have rest := induction
        (fun inside member => objects inside (by simp [member]))
        (fun inside member => free inside (by simp [member]))
      have some := objects head (by simp)
      by_cases hit : wanted (obj head)
      · simp [swept, some, hit, free head (by simp), rest]
      · simp [swept, some, hit, rest]

/-- All wanted objects are counted. -/
theorem found_swept {obj : Nat → Nat} {flag : Nat → UInt8}
    (objects : ∀ cell ∈ cells, obj cell ≠ 0) :
    (swept obj flag wanted cells).2 =
      cells.countP fun cell => wanted (obj cell) := by
  induction cells with
  | nil => rfl
  | cons head cells induction =>
      have rest := induction fun inside member =>
        objects inside (by simp [member])
      have some := objects head (by simp)
      rw [List.countP_cons, ← rest]
      by_cases hit : wanted (obj head)
      · by_cases free : flag head = 0 <;> simp [swept, some, hit, free]
      · simp [swept, some, hit]

theorem fresh_iterRemove (l : LList) (it : LlIter) :
    (l.iterRemove it).1.fresh = l.fresh := by
  obtain ⟨cur, prv⟩ := it
  cases cur with
  | none => rfl
  | some cell =>
      by_cases free : l.flag cell = 0
      · rw [iterRemove_free free]
        exact (fresh_relink _ _ _).trans (fresh_setFlag _ _ _)
      · rw [iterRemove_flagged free]
        exact fresh_setFlag _ _ _

theorem fresh_removeLoop (wanted : Nat → Bool) (fuel : Nat) (l : LList)
    (it : LlIter) (n : Nat) :
    (removeLoop wanted fuel l it n).1.fresh = l.fresh := by
  induction fuel generalizing l it n with
  | zero => rfl
  | succ fuel induction =>
      rw [removeLoop]
      dsimp only
      split
      · rfl
      · split
        · rw [induction, fresh_iterRemove]
        · exact induction l _ n

/-- What one of the loops has done when it ends, from behind `front` on. -/
structure Swept (wanted : Nat → Bool) (obj : Nat → Nat) (flag : Nat → UInt8)
    (count : Int) (front back : List Nat) (n : Nat) (r : LList × Nat) :
    Prop where
  chained : Chained r.1 (front ++ (swept obj flag wanted back).1)
  found : r.2 = n + (swept obj flag wanted back).2
  still : r.1.obj = obj
  size : r.1.count - (swept obj flag wanted back).1.length =
    count - back.length

namespace Swept

variable {obj : Nat → Nat} {flag other : Nat → UInt8} {count : Int}
  {n : Nat} {r : LList × Nat}

theorem congr (rest : Swept wanted obj other count front back n r)
    (same : ∀ cell ∈ back, other cell = flag cell) :
    Swept wanted obj flag count front back n r := by
  obtain ⟨chained, found, still, size⟩ := rest
  rw [swept_congr same] at chained found size
  exact ⟨chained, found, still, size⟩

/-- The loop has passed a node. -/
theorem pass {hit : Nat}
    (rest : Swept wanted obj flag count (front ++ [cell]) back (n + hit) r)
    (eq : swept obj flag wanted (cell :: back) =
      (cell :: (swept obj flag wanted back).1,
        (swept obj flag wanted back).2 + hit)) :
    Swept wanted obj flag count front (cell :: back) n r := by
  obtain ⟨chained, found, still, size⟩ := rest
  rw [List.append_assoc, List.singleton_append] at chained
  constructor
  · rw [eq]
    exact chained
  · rw [eq, found]
    dsimp only
    omega
  · exact still
  · rw [eq, List.length_cons, List.length_cons]
    push_cast
    omega

/-- The loop has taken a node out. -/
theorem take
    (rest : Swept wanted obj flag (count - 1) front back (n + 1) r)
    (eq : swept obj flag wanted (cell :: back) =
      ((swept obj flag wanted back).1, (swept obj flag wanted back).2 + 1)) :
    Swept wanted obj flag count front (cell :: back) n r := by
  obtain ⟨chained, found, still, size⟩ := rest
  constructor
  · rw [eq]
    exact chained
  · rw [eq, found]
    dsimp only
    omega
  · exact still
  · rw [eq, List.length_cons]
    push_cast
    omega

end Swept

/-- The iterator is back in front of the node that it takes out. -/
theorem iterRemove_passed (chained : Chained l (front ++ cell :: back))
    (objects : ∀ cell ∈ front, l.obj cell ≠ 0) (free : l.flag cell = 0) :
    Chained (l.iterRemove { cur := some cell, prv := front.getLast? }).1
        (front ++ back) ∧
      (l.iterRemove { cur := some cell, prv := front.getLast? }).2.1 =
        passed front := by
  have next := chained_iterRemove chained (Or.inr rfl) free
  constructor
  · exact next
  · have still := obj_iterRemove l { cur := some cell, prv := front.getLast? }
    rw [iterRemove_free free] at next still ⊢
    apply walkTo_passed next
    rw [still]
    exact objects

theorem removeLoop_swept {fuel : Nat} (chained : Chained l (front ++ back))
    (objects : ∀ cell ∈ front, l.obj cell ≠ 0) (enough : back.length < fuel)
    (n : Nat) :
    Swept wanted l.obj l.flag l.count front back n
      (removeLoop wanted fuel l (passed front) n) := by
  induction back generalizing l front fuel n with
  | nil =>
      cases fuel with
      | zero => cases enough
      | succ fuel =>
          rw [List.append_nil] at chained
          rw [removeLoop]
          simp only [iterNext_passed_end chained, if_true]
          constructor
          · rw [swept, List.append_nil]
            exact chained
          · rfl
          · rfl
          · rfl
  | cons cell back induction =>
      cases fuel with
      | zero => cases enough
      | succ fuel =>
          have room := Nat.lt_of_succ_lt_succ enough
          have apart : ∀ inside ∈ back, inside ≠ cell := by
            rintro inside member rfl
            exact chained.apart.2 member
          have split : front ++ cell :: back = front ++ [cell] ++ back := by
            simp
          rw [removeLoop, iterNext_passed chained]
          by_cases ends : l.obj cell = 0
          · simp only [ends, if_true]
            constructor
            · simp only [swept, ends, if_true]
              exact chained
            · simp only [swept, ends, if_true]
              rfl
            · rfl
            · simp only [swept, ends, if_true]
          · have further : ∀ inside ∈ front ++ [cell], l.obj inside ≠ 0 := by
              intro inside member
              rcases List.mem_append.mp member with old | new
              · exact objects inside old
              · rw [List.mem_singleton.mp new]
                exact ends
            by_cases hit : wanted (l.obj cell)
            · simp only [ends, hit, passed_concat, if_true, if_false]
              by_cases free : l.flag cell = 0
              · -- the node goes, and the iterator is back in front of it
                obtain ⟨next, it⟩ := iterRemove_passed chained objects free
                have still := obj_iterRemove l
                  { cur := some cell, prv := front.getLast? }
                have rest := induction next (by rw [still]; exact objects)
                  room (n + 1)
                rw [still, count_iterRemove free] at rest
                rw [it]
                refine (rest.congr ?_).take ?_
                · intro inside member
                  rw [flag_iterRemove]
                  exact Function.update_of_ne (apart inside member) _ _
                · simp only [swept, ends, hit, free, if_true, if_false]
              · -- the node stays, and the iterator goes on
                have next := chained.setFlag cell (l.flag cell + 1)
                rw [split] at next
                have rest := induction next (by rw [obj_setFlag]; exact further)
                  room (n + 1)
                rw [obj_setFlag, count_setFlag, passed_concat] at rest
                rw [iterRemove_flagged free]
                refine (rest.congr ?_).pass ?_
                · intro inside member
                  rw [flag_setFlag]
                  exact Function.update_of_ne (apart inside member) _ _
                · simp only [swept, ends, hit, free, if_true, if_false]
            · simp only [ends, hit, if_false, Bool.false_eq_true]
              rw [split] at chained
              have rest := induction chained further room n
              refine @Swept.pass front back cell wanted _ _ _ n _ 0 rest ?_
              simp only [swept, ends, hit, if_false, Bool.false_eq_true,
                Nat.add_zero]

end Oscam.LList
