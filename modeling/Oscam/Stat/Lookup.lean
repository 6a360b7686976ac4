import Oscam.Stat.BestReader

/-!
# Looking for a record again

`get_stat` changes the list in which it looks: the record gets its length and
may be moved to the front.  It is found there again.
-/

namespace Oscam.Stat

variable {cfg : LbCfg} {nodes front behind : List StatNode} {node : StatNode}
  {caid prid srvid : Nat} {ecmlen : Int}

/-- The record that `get_stat` finds in a list. -/
def statIn (cfg : LbCfg) (nodes : List StatNode) (caid prid srvid : Nat)
    (ecmlen : Int) : Option ReaderStat :=
  let (nodes, place) := getStatNodes cfg nodes caid prid srvid ecmlen
  place.bind fun place => nodes[place]?.map (·.stat)

/-- A record that has got its length. -/
def StatNode.withLength (ecmlen : Int) (node : StatNode) : StatNode :=
  { node with stat := { node.stat with ecmlen := ecmlen } }

/-- No record of these is the one looked for. -/
def Others (cfg : LbCfg) (caid prid srvid : Nat) (ecmlen : Int)
    (front : List StatNode) : Prop :=
  ∀ node ∈ front,
    node.stat.isFor caid (getPrid cfg caid prid) srvid ecmlen = false

theorem modify_append_cons (f : StatNode → StatNode) :
    (front ++ node :: behind).modify front.length f =
      front ++ f node :: behind := by
  induction front with
  | nil => rfl
  | cons head front induction =>
      rw [List.cons_append, List.length_cons, List.modify_succ_cons, induction]
      rfl

theorem getElem?_append_cons :
    (front ++ node :: behind)[front.length]? = some node := by
  rw [List.getElem?_append_right (Nat.le_refl _), Nat.sub_self]
  rfl

theorem findIdx?_append_cons {p : StatNode → Bool}
    (others : ∀ other ∈ front, p other = false) (found : p node = true) :
    (front ++ node :: behind).findIdx? p = some front.length := by
  rw [List.findIdx?_append, List.findIdx?_eq_none_iff.mpr others,
    List.findIdx?_cons, if_pos found]
  exact congrArg some (Nat.zero_add _)

theorem moveFirst_append_cons :
    moveFirst (front ++ node :: behind) front.length =
      (let flagged := { node with flag := node.flag + 1 }
        if node.flag = 0 then (flagged :: (front ++ behind), 0)
        else (front ++ flagged :: behind, front.length)) := by
  have erased : (front ++ node :: behind).eraseIdx front.length =
      front ++ behind := by
    rw [List.eraseIdx_append_of_length_le (Nat.le_refl _), Nat.sub_self]
    rfl
  have set (other : StatNode) :
      (front ++ node :: behind).set front.length other =
        front ++ other :: behind := by
    rw [List.set_append_right _ _ (Nat.le_refl _), Nat.sub_self]
    rfl
  unfold moveFirst
  rw [getElem?_append_cons]
  dsimp only
  rw [erased, set]

/-- What `get_stat` makes of a list with its first record of the kind. -/
theorem getStatNodes_found (others : Others cfg caid prid srvid ecmlen front)
    (found : node.stat.isFor caid (getPrid cfg caid prid) srvid ecmlen =
      true) :
    getStatNodes cfg (front ++ node :: behind) caid prid srvid ecmlen =
      (let marked := node.withLength ecmlen
        if 10 < front.length + 1 then
          let flagged := { marked with flag := marked.flag + 1 }
          if marked.flag = 0 then (flagged :: (front ++ behind), some 0)
          else (front ++ flagged :: behind, some front.length)
        else (front ++ marked :: behind, some front.length)) := by
  unfold getStatNodes
  dsimp only
  rw [findIdx?_append_cons others found]
  dsimp only
  rw [modify_append_cons]
  by_cases far : 10 < front.length + 1
  · rw [if_pos far, if_pos far, moveFirst_append_cons]
    dsimp only
    by_cases unflagged : node.flag = 0
    · rw [if_pos unflagged]
      exact (if_pos unflagged).symm
    · rw [if_neg unflagged]
      exact (if_neg unflagged).symm
  · rw [if_neg far, if_neg far]
    rfl

theorem statIn_found (others : Others cfg caid prid srvid ecmlen front)
    (found : node.stat.isFor caid (getPrid cfg caid prid) srvid ecmlen =
      true) :
    statIn cfg (front ++ node :: behind) caid prid srvid ecmlen =
      some (node.withLength ecmlen).stat := by
  unfold statIn
  rw [getStatNodes_found others found]
  dsimp only
  split
  · split
    · rfl
    · rw [Option.bind_some, getElem?_append_cons]
      rfl
  · rw [Option.bind_some, getElem?_append_cons]
    rfl

/-- The record has its length then, and it is still the first of its kind. -/
theorem isFor_withLength (found : node.stat.isFor caid prid srvid ecmlen = true)
    (flag : UInt8) :
    ({ node.withLength ecmlen with flag := flag } :
      StatNode).stat.isFor caid prid srvid ecmlen = true := by
  unfold ReaderStat.isFor at found ⊢
  simp only [Bool.and_eq_true] at found
  simp [StatNode.withLength, found.1.1, found.1.2]

theorem others_nil : Others cfg caid prid srvid ecmlen [] :=
  fun _ none => by cases none

/-- The same record is found in the list that `get_stat` leaves. -/
theorem statIn_getStatNodes (cfg : LbCfg) (nodes : List StatNode)
    (caid prid srvid : Nat) (ecmlen : Int) :
    statIn cfg (getStatNodes cfg nodes caid prid srvid ecmlen).1 caid prid
        srvid ecmlen =
      statIn cfg nodes caid prid srvid ecmlen := by
  cases first : nodes.find? fun node =>
      node.stat.isFor caid (getPrid cfg caid prid) srvid ecmlen with
  | none =>
      have none : nodes.findIdx? (fun node =>
          node.stat.isFor caid (getPrid cfg caid prid) srvid ecmlen) =
            none := by
        rw [List.findIdx?_eq_none_iff]
        intro node member
        simpa using List.find?_eq_none.mp first node member
      have same : (getStatNodes cfg nodes caid prid srvid ecmlen).1 =
          nodes := by
        unfold getStatNodes
        dsimp only
        rw [none]
      rw [same]
  | some node =>
      obtain ⟨found, front, behind, rfl, before⟩ :=
        List.find?_eq_some_iff_append.mp first
      have others : Others cfg caid prid srvid ecmlen front := by
        intro other member
        simpa using before other member
      have still (flag : UInt8) := isFor_withLength found flag
      rw [statIn_found others found, getStatNodes_found others found]
      dsimp only
      split
      · split
        · exact @statIn_found cfg [] (front ++ behind) _ caid prid srvid ecmlen
            others_nil (still _)
        · exact statIn_found others (still _)
      · exact statIn_found others (still node.flag)

end Oscam.Stat
