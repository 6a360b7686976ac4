import Oscam.Lib.Linked

/-!
# Linked lists

The operations of `module-datastruct-llist.c`.  Nodes live at addresses that
are never used again, since the memory of a removed node is only freed later;
objects are addresses as well, with zero for the null pointer.
-/

namespace Oscam

/-- `LL_NODE`. -/
structure LlNode where
  obj : Nat
  nxt : Option Nat
  flag : UInt8
  deriving DecidableEq, Repr

/-- `LLIST`, with the memory of its nodes and the address of the next one. -/
structure LList where
  nodes : Nat → LlNode
  fresh : Nat
  initial : Option Nat
  last : Option Nat
  count : Int

/-- `LL_ITER`. -/
structure LlIter where
  cur : Option Nat
  prv : Option Nat
  deriving DecidableEq, Repr

namespace LList

/-- `ll_create`. -/
def create : LList :=
  { nodes := fun _ => { obj := 0, nxt := none, flag := 0 }, fresh := 0
    initial := none, last := none, count := 0 }

def next (l : LList) (cell : Nat) : Option Nat := (l.nodes cell).nxt

def obj (l : LList) (cell : Nat) : Nat := (l.nodes cell).obj

def flag (l : LList) (cell : Nat) : UInt8 := (l.nodes cell).flag

def setNode (l : LList) (cell : Nat) (node : LlNode) : LList :=
  { l with nodes := Function.update l.nodes cell node }

def setNxt (l : LList) (cell : Nat) (nxt : Option Nat) : LList :=
  l.setNode cell { l.nodes cell with nxt := nxt }

def setFlag (l : LList) (cell : Nat) (flag : UInt8) : LList :=
  l.setNode cell { l.nodes cell with flag := flag }

def setObj (l : LList) (cell : Nat) (obj : Nat) : LList :=
  l.setNode cell { l.nodes cell with obj := obj }

/-- A new node. -/
def alloc (l : LList) (obj : Nat) (nxt : Option Nat) : LList :=
  { l.setNode l.fresh { obj := obj, nxt := nxt, flag := 0 } with
    fresh := l.fresh + 1 }

/-- The nodes from `initial` on. -/
def cells (l : LList) : List Nat := Leads.follow l.next l.fresh l.initial

/-! ## Adding -/

/-- `ll_append`. -/
def append (l : LList) (obj : Nat) : LList :=
  if obj = 0 then l
  else
    let new := l.fresh
    let l := l.alloc obj none
    let l := match l.last with
      | some last => l.setNxt last (some new)
      | none => { l with initial := some new }
    { l with last := some new, count := l.count + 1 }

/-- `ll_prepend`. -/
def prepend (l : LList) (obj : Nat) : LList :=
  if obj = 0 then l
  else
    let new := l.fresh
    let l := l.alloc obj l.initial
    { l with
      initial := some new
      last := if l.last = none then some new else l.last
      count := l.count + 1 }

/-! ## Iterators -/

/-- `ll_iter_create` and `ll_iter_reset`. -/
def iterCreate : LlIter := { cur := none, prv := none }

/-- `ll_iter_next`: the iterator and the object found. -/
def iterNext (l : LList) (it : LlIter) : LlIter × Nat :=
  let it : LlIter := match it.cur with
    | some cur => { cur := l.next cur, prv := some cur }
    | none => if it.prv = none then { it with cur := l.initial } else it
  (it, match it.cur with
    | some cur => l.obj cur
    | none => 0)

/-- `ll_iter_insert`. -/
def iterInsert (l : LList) (it : LlIter) (obj : Nat) : LList :=
  match it.cur with
  | none => l.append obj
  | some cur =>
      match l.next cur with
      | none => l.append obj
      | some nxt =>
          if obj = 0 then l
          else
            let new := l.fresh
            let l := (l.alloc obj (some nxt)).setNxt cur (some new)
            { l with count := l.count + 1 }

/-- The pointer in front of a node that is taken out. -/
def relink (l : LList) (prv nxt : Option Nat) : LList :=
  match prv with
  | some prv => l.setNxt prv nxt
  | none => { l with initial := nxt }

/-- The loop of `ll_iter_remove` that looks for a node. -/
def walk (l : LList) (prv : Nat) : Nat → LlIter → LlIter
  | 0, it => it
  | fuel + 1, it =>
      let (it, data) := l.iterNext it
      if data = 0 ∨ it.cur = some prv then it else l.walk prv fuel it

/-- An iterator behind the node `prv`; the loop passes each node at most
once. -/
def walkTo (l : LList) (prv : Option Nat) : LlIter :=
  match prv with
  | some prv => l.walk prv (l.fresh + 1) iterCreate
  | none => iterCreate

/-- A node is taken out. -/
def unlink (l : LList) (prv : Option Nat) (del : Nat) : LList :=
  let l := l.relink prv (l.next del)
  { l with
    last := if l.initial = none then none
      else if l.last = some del then prv else l.last
    count := l.count - 1 }

/-- `ll_iter_remove`: the list, the iterator and the object removed. -/
def iterRemove (l : LList) (it : LlIter) : LList × LlIter × Nat :=
  match it.cur with
  | none => (l, it, 0)
  | some del =>
      let flagged := l.setFlag del (l.flag del + 1)
      if l.flag del ≠ 0 then (flagged, it, 0)
      else
        let removed := flagged.unlink it.prv del
        (removed, removed.walkTo it.prv, l.obj del)

/-- A node is taken out and put in front. -/
def toFront (l : LList) (prv : Option Nat) (move : Nat) : LList :=
  let l := l.relink prv (l.next move)
  let l := { l with
    last := if prv ≠ none ∧ l.last = some move then prv else l.last }
  { l.setNxt move l.initial with initial := some move }

/-- `ll_iter_move_first`: the list, the iterator and whether it moved. -/
def iterMoveFirst (l : LList) (it : LlIter) : LList × LlIter × Bool :=
  match it.cur with
  | none => (l, it, false)
  | some move =>
      let flagged := l.setFlag move (l.flag move + 1)
      if l.flag move ≠ 0 then (flagged, it, false)
      else (flagged.toFront it.prv move, iterCreate, true)

/-! ## Whole lists -/

/-- The loop of `ll_remove` and `ll_remove_all`: the list and the number of
objects found. -/
def removeLoop (wanted : Nat → Bool) :
    Nat → LList → LlIter → Nat → LList × Nat
  | 0, l, _, n => (l, n)
  | fuel + 1, l, it, n =>
      let (it, data) := l.iterNext it
      if data = 0 then (l, n)
      else if wanted data then
        let (l, it, _) := l.iterRemove it
        removeLoop wanted fuel l it (n + 1)
      else removeLoop wanted fuel l it n

/-- `ll_remove`. -/
def remove (l : LList) (obj : Nat) : LList × Nat :=
  removeLoop (· == obj) (l.fresh + 1) l iterCreate 0

/-- `ll_remove_all`, for the objects of another list. -/
def removeAll (l : LList) (elements : List Nat) : LList × Nat :=
  removeLoop (elements.contains ·) (l.fresh + 1) l iterCreate 0

/-- `ll_clear`. -/
def clear (l : LList) : LList :=
  { l.cells.foldl (fun l cell => l.setFlag cell (l.flag cell + 1)) l with
    initial := none, last := none, count := 0 }

/-- The array of `ll_sort`, with `count` places. -/
def flatten (l : LList) : List Nat :=
  l.cells.map l.obj ++ List.replicate (l.count.toNat - l.cells.length) 0

/-- `ll_sort`; `qsort` sorts an array by the function `compare`. -/
def sort (qsort : List Nat → List Nat) (l : LList) : LList :=
  let size := l.count.toNat
  let p := qsort (l.flatten.take size) ++ l.flatten.drop size
  (l.cells.zip p).foldl (fun l (cell, obj) => l.setObj cell obj) l

end LList

end Oscam
