import Oscam.Lib.CutStack
import Oscam.Protocol.EcmLength
import Oscam.Simples

/-!
# The whitelist of ECM lengths

`chk_reader` builds three levels of linked lists from the setting ecmwhitelist,
and `matching_reader` looks the length of an ECM up in them.  The loop that
searches the place for a length never stops at a caid, so every length adds one
more entry for its caid, and an identification that comes back is not found in
the last of them.
-/

namespace Oscam.EcmWhitelist

open Monitor (splitAt ascii)

/-! ## The lists -/

/-- `struct s_ecmWhitelistIdent` with its list of lengths. -/
structure IdentNode where
  ident : Nat
  lengths : List Int
  deriving DecidableEq, Repr

/-- `struct s_ecmWhitelist` with its list of identifications. -/
structure CaidNode where
  caid : Nat
  idents : List IdentNode
  deriving DecidableEq, Repr

/-- The pointers of the search: the place of an identification is that of its
caid and its own, the place of a length has one number more. -/
structure Cursors where
  tmpIdent : Option (Nat × Nat)
  lastIdent : Option (Nat × Nat)
  tmpLen : Option (Nat × Nat × Nat)
  lastLen : Option (Nat × Nat × Nat)

def Cursors.null : Cursors :=
  { tmpIdent := none, lastIdent := none, tmpLen := none, lastLen := none }

/-- The loop over the lengths. -/
def scanLengths (len : Int) (a p : Nat) :
    Nat → List Int → Cursors → Cursors
  | _, [], cur => { cur with tmpLen := none }
  | q, other :: lengths, cur =>
      let cur :=
        { cur with tmpLen := some (a, p, q), lastLen := some (a, p, q) }
      if other = len then cur else scanLengths len a p (q + 1) lengths cur

/-- The loop over the identifications. -/
def scanIdents (ident : Nat) (len : Int) (a : Nat) :
    Nat → List IdentNode → Cursors → Cursors
  | _, [], cur => { cur with tmpIdent := none }
  | p, node :: idents, cur =>
      let cur :=
        { cur with tmpIdent := some (a, p), lastIdent := some (a, p) }
      if node.ident = ident then scanLengths len a p 0 node.lengths cur
      else scanIdents ident len a (p + 1) idents cur

/-- The loop over the caids; `caid` is an `int16_t` here, in the list it is a
`uint16_t`. -/
def scanCaids (caid : Int) (ident : Nat) (len : Int) :
    Nat → List CaidNode → Cursors → Cursors
  | _, [], cur => cur
  | a, node :: nodes, cur =>
      scanCaids caid ident len (a + 1) nodes
        (if node.caid = caid then scanIdents ident len a 0 node.idents cur
          else cur)

def modifyIdents (whitelist : List CaidNode) (a : Nat)
    (change : List IdentNode → List IdentNode) : List CaidNode :=
  whitelist.modify a fun node => { node with idents := change node.idents }

def modifyLengths (whitelist : List CaidNode) (a p : Nat)
    (change : List Int → List Int) : List CaidNode :=
  modifyIdents whitelist a fun idents =>
    idents.modify p fun node => { node with lengths := change node.lengths }

/-- The new identification, and its place.  Behind `lastIdent` it replaces the
rest of that list. -/
def addIdent (whitelist : List CaidNode) (tmp ident : Nat) (cur : Cursors) :
    List CaidNode × Nat × Nat :=
  match cur.tmpIdent, cur.lastIdent with
  | some place, _ => (whitelist, place)
  | none, none =>
      (modifyIdents whitelist tmp fun _ => [{ ident := ident, lengths := [] }],
        tmp, 0)
  | none, some (a, p) =>
      (modifyIdents whitelist a fun idents =>
        idents.take (p + 1) ++ [{ ident := ident, lengths := [] }],
        a, p + 1)

/-- The new length. -/
def addLen (whitelist : List CaidNode) (place : Nat × Nat) (len : Int)
    (cur : Cursors) : List CaidNode :=
  match cur.tmpLen, cur.lastLen with
  | some _, _ => whitelist
  | none, none =>
      modifyLengths whitelist place.1 place.2 fun _ => [len]
  | none, some (a, p, q) =>
      modifyLengths whitelist a p fun lengths => lengths.take (q + 1) ++ [len]

/-- The body of the loop of `chk_reader` over the lengths of a clause. -/
def addLength (whitelist : List CaidNode) (caid ident : Nat) (len : Int) :
    List CaidNode :=
  let cur := scanCaids (toInt16 caid) ident len 0 whitelist .null
  -- tmp is NULL after the loops in every case
  let tmp := whitelist.length
  let added := addIdent (whitelist ++ [{ caid := caid, idents := [] }]) tmp
    ident cur
  addLen added.1 added.2 len cur

/-! ## The setting -/

/-- A clause `[CAID[@ident]:]len[,len]...`. -/
structure Clause where
  caid : Nat
  ident : Nat
  lens : List Int
  deriving DecidableEq, Repr

def parseLens (txt : List UInt8) : List Int :=
  (strtok 44 txt).map fun ptr => toInt16 (dynWordAtob ptr)

/-- The two bytes of a caid. -/
def parseCaid (txt : List UInt8) : Nat := (dynWordAtob txt % 2 ^ 16).toNat

def parseClause (ptr : List UInt8) : Clause :=
  match splitAt 58 ptr with
  | none => { caid := 0, ident := 0, lens := parseLens ptr }
  | some (front, lens) =>
      match splitAt 64 front with
      | none => { caid := parseCaid front, ident := 0, lens := parseLens lens }
      | some (caid, ident) =>
          { caid := parseCaid caid
            ident := (a2i ident 6).getD a2iError
            lens := parseLens lens }

/-- The part of `chk_reader` for ecmwhitelist. -/
def ecmWhitelist (value : List UInt8) : List CaidNode :=
  (strtok 59 value).foldl
    (fun whitelist ptr =>
      (parseClause ptr).lens.foldl
        (fun whitelist len =>
          addLength whitelist (parseClause ptr).caid (parseClause ptr).ident
            len)
        whitelist)
    []

/-! ## The check -/

/-- The identification of the list applies to the request. -/
def IdentNode.matches (er : EcmRequest) (node : IdentNode) : Bool :=
  node.ident == 0 || node.ident == er.prid

def CaidNode.matches (er : EcmRequest) (node : CaidNode) : Bool :=
  node.caid == 0 || node.caid == er.caid

/-- `foundident` of `matching_reader`. -/
def foundident (whitelist : List CaidNode) (er : EcmRequest) : Bool :=
  whitelist.any fun node =>
    node.matches er && node.idents.any fun ident => ident.matches er

/-- `ok` of `matching_reader`. -/
def ok (whitelist : List CaidNode) (er : EcmRequest) : Bool :=
  whitelist.any fun node =>
    node.matches er && node.idents.any fun ident =>
      ident.matches er && ident.lengths.contains er.l

/-- `matching_reader` refuses the request because of its length. -/
def rejected (whitelist : List CaidNode) (er : EcmRequest) : Bool :=
  foundident whitelist er && !ok whitelist er

/-! ## What the setting says -/

/-- The clauses of a setting, each with at least one length. -/
def clauses (value : List UInt8) : List Clause :=
  ((strtok 59 value).map parseClause).filter (·.lens ≠ [])

def Clause.Applies (er : EcmRequest) (clause : Clause) : Prop :=
  (clause.caid = 0 ∨ clause.caid = er.caid) ∧
    (clause.ident = 0 ∨ clause.ident = er.prid)

/-- The lists hold the length for this caid and identification. -/
def Has (whitelist : List CaidNode) (caid ident : Nat) (len : Int) : Prop :=
  ∃ node ∈ whitelist, node.caid = caid ∧
    ∃ other ∈ node.idents, other.ident = ident ∧ len ∈ other.lengths

/-- The lists do what the setting says, and no clause is lost. -/
structure Right (value : List UInt8) (whitelist : List CaidNode) : Prop where
  rejects : ∀ er, rejected whitelist er = true ↔
    (∃ clause ∈ clauses value, clause.Applies er) ∧
      ∀ clause ∈ clauses value, clause.Applies er → er.l ∉ clause.lens
  kept : ∀ clause ∈ clauses value, ∀ len ∈ clause.lens,
    Has whitelist clause.caid clause.ident len

/-- A length of a clause. -/
structure Listing where
  caid : Nat
  ident : Nat
  len : Int
  deriving DecidableEq, Repr

def listings (value : List UInt8) : List Listing :=
  (clauses value).flatMap fun clause =>
    clause.lens.map fun len =>
      { caid := clause.caid, ident := clause.ident, len := len }

/-- The identifications and lengths that are listed for a caid, in order. -/
def history (caid : Nat) (list : List Listing) : List (Nat × Int) :=
  (list.filter (·.caid = caid)).map fun listing =>
    (listing.ident, listing.len)

/-- Every length for a caid below 8000 is listed at a place behind which no
identification comes back that lies under its own: the identifications of a
caid are put on a stack, and one that is on it cuts off all above it. -/
def Stacked (value : List UInt8) : Prop :=
  ∀ clause ∈ clauses value, clause.caid < 0x8000 → ∀ len ∈ clause.lens,
    CutStack.Stays (history clause.caid (listings value)) clause.ident len

/-! ## The search -/

variable {len : Int} {ident caid : Nat} {cur : Cursors}

theorem scanLengths_of_mem {lengths : List Int} (listed : len ∈ lengths)
    (a p q : Nat) (cur : Cursors) :
    (scanLengths len a p q lengths cur).tmpIdent = cur.tmpIdent ∧
      (scanLengths len a p q lengths cur).lastIdent = cur.lastIdent ∧
      (scanLengths len a p q lengths cur).tmpLen ≠ none := by
  induction lengths generalizing q cur with
  | nil => cases listed
  | cons other lengths induction =>
      unfold scanLengths
      by_cases same : other = len
      · rw [if_pos same]
        exact ⟨rfl, rfl, Option.some_ne_none _⟩
      · rw [if_neg same]
        have rest : len ∈ lengths := by
          rcases List.mem_cons.mp listed with rfl | member
          · exact absurd rfl same
          · exact member
        exact induction rest (q + 1) _

theorem scanLengths_of_not_mem {lengths : List Int} (new : len ∉ lengths)
    (a p q : Nat) (cur : Cursors) :
    scanLengths len a p q lengths cur =
      { cur with
        tmpLen := none
        lastLen :=
          if lengths = [] then cur.lastLen
          else some (a, p, q + lengths.length - 1) } := by
  induction lengths generalizing q cur with
  | nil => rfl
  | cons other lengths induction =>
      have different : other ≠ len := by
        rintro rfl
        exact new List.mem_cons_self
      unfold scanLengths
      rw [if_neg different,
        induction fun member => new (List.mem_cons_of_mem _ member)]
      cases lengths with
      | nil => rfl
      | cons next lengths =>
          have place : q + 1 + (next :: lengths).length - 1 =
              q + (other :: next :: lengths).length - 1 := by
            simp only [List.length_cons]
            omega
          simp only [reduceCtorEq, if_false, place]

theorem scanIdents_of_forall {idents : List IdentNode}
    (other : ∀ node ∈ idents, node.ident ≠ ident) (a p : Nat)
    (cur : Cursors) :
    scanIdents ident len a p idents cur =
      { cur with
        tmpIdent := none
        lastIdent :=
          if idents = [] then cur.lastIdent
          else some (a, p + idents.length - 1) } := by
  induction idents generalizing p cur with
  | nil => rfl
  | cons node idents induction =>
      unfold scanIdents
      rw [if_neg (other node List.mem_cons_self),
        induction fun node member =>
          other node (List.mem_cons_of_mem _ member)]
      cases idents with
      | nil => rfl
      | cons next idents =>
          have place : p + 1 + (next :: idents).length - 1 =
              p + (node :: next :: idents).length - 1 := by
            simp only [List.length_cons]
            omega
          simp only [reduceCtorEq, if_false, place]

theorem scanIdents_of_found {front rest : List IdentNode} {node : IdentNode}
    (other : ∀ node ∈ front, node.ident ≠ ident) (found : node.ident = ident)
    (a p : Nat) (cur : Cursors) :
    scanIdents ident len a p (front ++ node :: rest) cur =
      scanLengths len a (p + front.length) 0 node.lengths
        { cur with
          tmpIdent := some (a, p + front.length)
          lastIdent := some (a, p + front.length) } := by
  induction front generalizing p cur with
  | nil =>
      show scanIdents ident len a p (node :: rest) cur = _
      unfold scanIdents
      rw [if_pos found]
      rfl
  | cons first front induction =>
      show scanIdents ident len a p (first :: (front ++ node :: rest)) cur = _
      unfold scanIdents
      rw [if_neg (other first List.mem_cons_self),
        induction fun node member =>
          other node (List.mem_cons_of_mem _ member)]
      have place : p + 1 + front.length = p + (first :: front).length := by
        rw [List.length_cons]
        omega
      rw [place]

theorem scanCaids_of_forall {caid : Int} {nodes : List CaidNode}
    (other : ∀ node ∈ nodes, (node.caid : Int) ≠ caid) (a : Nat)
    (cur : Cursors) : scanCaids caid ident len a nodes cur = cur := by
  induction nodes generalizing a cur with
  | nil => rfl
  | cons node nodes induction =>
      unfold scanCaids
      rw [if_neg (other node List.mem_cons_self),
        induction fun node member =>
          other node (List.mem_cons_of_mem _ member)]

theorem scanCaids_append (caid : Int) (front rest : List CaidNode) (a : Nat)
    (cur : Cursors) :
    scanCaids caid ident len a (front ++ rest) cur =
      scanCaids caid ident len (a + front.length) rest
        (scanCaids caid ident len a front cur) := by
  induction front generalizing a cur with
  | nil => rfl
  | cons node front induction =>
      show scanCaids caid ident len a (node :: (front ++ rest)) cur = _
      have place : a + 1 + front.length = a + (node :: front).length := by
        rw [List.length_cons]
        omega
      rw [scanCaids, induction, place]
      rfl

/-- Behind the first entry of a caid its other entries are empty: there the
identification is not found again. -/
theorem scanCaids_of_empty {caid : Int} {nodes : List CaidNode}
    (empty : ∀ node ∈ nodes, (node.caid : Int) = caid → node.idents = [])
    (a : Nat) (cur : Cursors) :
    scanCaids caid ident len a nodes cur =
      if nodes.any (fun node => (node.caid : Int) = caid) then
        { cur with tmpIdent := none }
      else cur := by
  induction nodes generalizing a cur with
  | nil => rfl
  | cons node nodes induction =>
      rw [scanCaids, induction fun node member =>
        empty node (List.mem_cons_of_mem _ member)]
      by_cases same : (node.caid : Int) = caid
      · rw [if_pos same, empty node List.mem_cons_self same]
        simp [scanIdents, same]
      · rw [if_neg same]
        simp [same]

/-! ## One more length -/

/-- The length goes to the list of the identification. -/
def IdentNode.withLen (node : IdentNode) (len : Int) : IdentNode :=
  if len ∈ node.lengths then node
  else { node with lengths := node.lengths ++ [len] }

/-- What a length does to the identifications of its caid; `again` says whether
there is more than one entry for the caid. -/
def insertIdent (again : Bool) (ident : Nat) (len : Int) :
    List IdentNode → List IdentNode
  | [] => [{ ident := ident, lengths := [len] }]
  | node :: idents =>
      if node.ident = ident then
        node.withLen len ::
          if again then [{ ident := ident, lengths := [] }] else idents
      else node :: insertIdent again ident len idents

theorem insertIdent_of_forall {idents : List IdentNode}
    (other : ∀ node ∈ idents, node.ident ≠ ident) (again : Bool) :
    insertIdent again ident len idents =
      idents ++ [{ ident := ident, lengths := [len] }] := by
  induction idents with
  | nil => rfl
  | cons node idents induction =>
      unfold insertIdent
      rw [if_neg (other node List.mem_cons_self),
        induction fun node member =>
          other node (List.mem_cons_of_mem _ member)]
      rfl

theorem insertIdent_of_found {front rest : List IdentNode} {node : IdentNode}
    (other : ∀ node ∈ front, node.ident ≠ ident) (found : node.ident = ident)
    (again : Bool) :
    insertIdent again ident len (front ++ node :: rest) =
      front ++ node.withLen len ::
        if again then [{ ident := ident, lengths := [] }] else rest := by
  induction front with
  | nil => exact if_pos found
  | cons first front induction =>
      show insertIdent again ident len (first :: (front ++ node :: rest)) = _
      unfold insertIdent
      rw [if_neg (other first List.mem_cons_self),
        induction fun node member =>
          other node (List.mem_cons_of_mem _ member)]
      rfl

theorem modifyIdents_middle (front back : List CaidNode) (node : CaidNode)
    (change : List IdentNode → List IdentNode) :
    modifyIdents (front ++ node :: back) front.length change =
      front ++ { node with idents := change node.idents } :: back :=
  Separated.modify_middle front back node _

theorem modifyLengths_middle (front back : List CaidNode) (caid : Nat)
    (first rest : List IdentNode) (node : IdentNode)
    (change : List Int → List Int) :
    modifyLengths
        (front ++ { caid := caid, idents := first ++ node :: rest } :: back)
        front.length first.length change =
      front ++ {
        caid := caid
        idents :=
          first ++ { node with lengths := change node.lengths } :: rest } ::
        back := by
  unfold modifyLengths
  rw [modifyIdents_middle, Separated.modify_middle]

/-- A caid that is not in the list gets an entry of its own. -/
theorem addLength_of_forall {whitelist : List CaidNode}
    (other : ∀ node ∈ whitelist, (node.caid : Int) ≠ toInt16 caid) :
    addLength whitelist caid ident len =
      whitelist ++ [{
        caid := caid, idents := [{ ident := ident, lengths := [len] }] }] := by
  have added : addIdent (whitelist ++ [{ caid := caid, idents := [] }])
      whitelist.length ident .null =
        (whitelist ++ [{
          caid := caid, idents := [{ ident := ident, lengths := [] }] }],
          whitelist.length, 0) := by
    show (modifyIdents _ _ _, _, _) = _
    rw [modifyIdents_middle]
  unfold addLength
  rw [scanCaids_of_forall other]
  dsimp only
  rw [added]
  exact modifyLengths_middle whitelist [] caid [] []
    { ident := ident, lengths := [] } fun _ => [len]

/-- The list around the first entry of a caid; the other entries of the caid
have nothing in them. -/
structure Around (caid : Nat) (front : List CaidNode)
    (idents : List IdentNode) (back : List CaidNode) : Prop where
  low : toInt16 caid = caid
  front : ∀ node ∈ front, node.caid ≠ caid
  filled : idents ≠ []
  back : ∀ node ∈ back, node.caid = caid → node.idents = []

def more (caid : Nat) (back : List CaidNode) : Bool :=
  back.any fun node => node.caid = caid

theorem Around.scan {front back : List CaidNode} {idents : List IdentNode}
    (around : Around caid front idents back) :
    scanCaids (toInt16 caid) ident len 0
        (front ++ { caid := caid, idents := idents } :: back) .null =
      if more caid back then
        { scanIdents ident len front.length 0 idents .null with
          tmpIdent := none }
      else scanIdents ident len front.length 0 idents .null := by
  have others : ∀ node ∈ front, (node.caid : Int) ≠ toInt16 caid := by
    intro node member same
    rw [around.low] at same
    exact around.front node member (by exact_mod_cast same)
  have empty : ∀ node ∈ back, (node.caid : Int) = toInt16 caid →
      node.idents = [] := by
    intro node member same
    rw [around.low] at same
    exact around.back node member (by exact_mod_cast same)
  have count : (back.any fun node => (node.caid : Int) = toInt16 caid) =
      more caid back := by
    unfold more
    rw [around.low]
    simp only [Nat.cast_inj]
  rw [scanCaids_append, scanCaids_of_forall others, Nat.zero_add, scanCaids,
    if_pos around.low.symm, scanCaids_of_empty empty, count]

/-- An identification that is not in the list of its caid comes behind the
others. -/
theorem Around.addLength_of_forall {front back : List CaidNode}
    {idents : List IdentNode} (around : Around caid front idents back)
    (other : ∀ node ∈ idents, node.ident ≠ ident) :
    addLength (front ++ { caid := caid, idents := idents } :: back) caid ident
        len =
      front ++ {
          caid := caid
          idents := idents ++ [{ ident := ident, lengths := [len] }] } ::
        (back ++ [{ caid := caid, idents := [] }]) := by
  have last : idents.length - 1 + 1 = idents.length := by
    have some := List.length_pos_iff.mpr around.filled
    omega
  have found : scanCaids (toInt16 caid) ident len 0
      (front ++ { caid := caid, idents := idents } :: back) .null =
        { Cursors.null with
          lastIdent := some (front.length, idents.length - 1) } := by
    rw [around.scan, scanIdents_of_forall other, if_neg around.filled,
      Nat.zero_add]
    split <;> rfl
  have added (tmp : Nat) : addIdent
      (front ++ { caid := caid, idents := idents } ::
        (back ++ [{ caid := caid, idents := [] }])) tmp ident
      { Cursors.null with
        lastIdent := some (front.length, idents.length - 1) } =
        (front ++ {
            caid := caid
            idents := idents ++ [{ ident := ident, lengths := [] }] } ::
          (back ++ [{ caid := caid, idents := [] }]),
          front.length, idents.length) := by
    show (modifyIdents _ _ _, _, _) = _
    rw [modifyIdents_middle, last, List.take_length]
  unfold addLength
  rw [found, List.append_assoc, List.cons_append]
  dsimp only
  rw [added]
  exact modifyLengths_middle front _ caid idents []
    { ident := ident, lengths := [] } fun _ => [len]

/-- In front of the rest of its caid an identification is the last one, if it
was not found again. -/
theorem addIdent_of_found {front back : List CaidNode}
    {first rest : List IdentNode} {node : IdentNode} (again : Bool)
    (tmp : Nat)
    (tmpIdent : cur.tmpIdent =
      if again then none else some (front.length, first.length))
    (lastIdent : cur.lastIdent = some (front.length, first.length)) :
    (addIdent
      (front ++ { caid := caid, idents := first ++ node :: rest } :: back)
      tmp ident cur).1 =
      front ++ {
        caid := caid
        idents := first ++ node ::
          if again then [{ ident := ident, lengths := [] }] else rest } ::
        back := by
  cases again with
  | false =>
      unfold addIdent
      rw [tmpIdent]
      rfl
  | true =>
      have cut : (first ++ node :: rest).take (first.length + 1) =
          first ++ [node] := by
        rw [List.take_append]
        simp
      unfold addIdent
      rw [tmpIdent, lastIdent, if_pos rfl, if_pos rfl]
      dsimp only
      rw [modifyIdents_middle, cut, List.append_assoc]
      rfl

theorem addLen_of_found {front back : List CaidNode}
    {first rest : List IdentNode} {node : IdentNode} (place : Nat × Nat)
    (filled : node.lengths ≠ [])
    (listed : len ∈ node.lengths → cur.tmpLen ≠ none)
    (new : len ∉ node.lengths → cur.tmpLen = none ∧
      cur.lastLen =
        some (front.length, first.length, node.lengths.length - 1)) :
    addLen (front ++ { caid := caid, idents := first ++ node :: rest } :: back)
        place len cur =
      front ++ {
        caid := caid, idents := first ++ node.withLen len :: rest } ::
        back := by
  unfold addLen IdentNode.withLen
  by_cases member : len ∈ node.lengths
  · obtain ⟨there, found⟩ := Option.ne_none_iff_exists'.mp (listed member)
    rw [found, if_pos member]
  · obtain ⟨none, last⟩ := new member
    have whole : node.lengths.take (node.lengths.length - 1 + 1) =
        node.lengths := by
      have some := List.length_pos_iff.mpr filled
      rw [List.take_of_length_le (by omega)]
    rw [none, last, if_neg member]
    show modifyLengths _ _ _ _ = _
    rw [modifyLengths_middle, whole]

/-- An identification that is in the list of its caid gets the length; with
more than one entry for the caid it cuts off the rest of the list. -/
theorem Around.addLength_of_found {front back : List CaidNode}
    {first rest : List IdentNode} {node : IdentNode}
    (around : Around caid front (first ++ node :: rest) back)
    (other : ∀ node ∈ first, node.ident ≠ ident) (found : node.ident = ident)
    (filled : node.lengths ≠ []) :
    addLength
        (front ++ { caid := caid, idents := first ++ node :: rest } :: back)
        caid ident len =
      front ++ {
          caid := caid
          idents := first ++ node.withLen len ::
            if more caid back then [{ ident := ident, lengths := [] }]
            else rest } ::
        (back ++ [{ caid := caid, idents := [] }]) := by
  let inner := scanLengths len front.length first.length 0 node.lengths
    { Cursors.null with
      tmpIdent := some (front.length, first.length)
      lastIdent := some (front.length, first.length) }
  have scanned : scanIdents ident len front.length 0 (first ++ node :: rest)
      .null = inner := by
    rw [scanIdents_of_found other found, Nat.zero_add]
  have places : inner.tmpIdent = some (front.length, first.length) ∧
      inner.lastIdent = some (front.length, first.length) := by
    by_cases member : len ∈ node.lengths
    · obtain ⟨tmp, last, _len⟩ := scanLengths_of_mem member front.length
        first.length 0 { Cursors.null with
          tmpIdent := some (front.length, first.length)
          lastIdent := some (front.length, first.length) }
      exact ⟨tmp, last⟩
    · simp only [inner, scanLengths_of_not_mem member, and_self]
  have listed : len ∈ node.lengths → inner.tmpLen ≠ none := by
    intro member
    exact (scanLengths_of_mem member _ _ _ _).2.2
  have new : len ∉ node.lengths → inner.tmpLen = none ∧
      inner.lastLen =
        some (front.length, first.length, node.lengths.length - 1) := by
    intro member
    simp only [inner, scanLengths_of_not_mem member, if_neg filled,
      Nat.zero_add, and_self]
  let cur : Cursors :=
    { inner with
      tmpIdent :=
        if more caid back then none else some (front.length, first.length) }
  have search : scanCaids (toInt16 caid) ident len 0
      (front ++ { caid := caid, idents := first ++ node :: rest } :: back)
      .null = cur := by
    rw [around.scan, scanned]
    by_cases again : more caid back = true
    · simp only [cur, again, if_true]
    · simp only [cur, again, if_false, Bool.false_eq_true, ← places.1]
  have added (tmp : Nat) : (addIdent
      (front ++ { caid := caid, idents := first ++ node :: rest } ::
        (back ++ [{ caid := caid, idents := [] }])) tmp ident cur).1 = _ :=
    addIdent_of_found (more caid back) tmp rfl places.2
  unfold addLength
  rw [search, List.append_assoc, List.cons_append]
  dsimp only
  rw [added]
  exact addLen_of_found _ filled listed new

/-! ## The identifications of a caid -/

theorem split_ident (ident : Nat) (idents : List IdentNode) :
    (∀ node ∈ idents, node.ident ≠ ident) ∨
      ∃ front node rest, idents = front ++ node :: rest ∧
        (∀ other ∈ front, other.ident ≠ ident) ∧ node.ident = ident := by
  induction idents with
  | nil => exact .inl fun node member => by cases member
  | cons node idents induction =>
      by_cases same : node.ident = ident
      · exact .inr ⟨[], node, idents, rfl, by simp, same⟩
      · rcases induction with none | ⟨front, found, rest, rfl, other, equal⟩
        · left
          intro entry member
          rcases List.mem_cons.mp member with rfl | there
          · exact same
          · exact none entry there
        · refine .inr ⟨node :: front, found, rest, rfl, ?_, equal⟩
          intro entry member
          rcases List.mem_cons.mp member with rfl | there
          · exact same
          · exact other entry there

/-- The first entry of an identification has lengths. -/
def FirstFilled (idents : List IdentNode) : Prop :=
  ∀ (ident : Nat) (node : IdentNode),
    idents.find? (·.ident = ident) = some node → node.lengths ≠ []

theorem find_of_found {first rest : List IdentNode} {node : IdentNode}
    (other : ∀ node ∈ first, node.ident ≠ ident) (found : node.ident = ident) :
    (first ++ node :: rest).find? (·.ident = ident) = some node := by
  have none : first.find? (·.ident = ident) = none := by
    rw [List.find?_eq_none]
    intro node member
    simpa using other node member
  rw [List.find?_append, none, Option.none_or, List.find?_cons_of_pos]
  simpa using found

/-- One more length for a caid that has an entry. -/
theorem Around.addLength {front back : List CaidNode}
    {idents : List IdentNode} (around : Around caid front idents back)
    (filled : FirstFilled idents) :
    addLength (front ++ { caid := caid, idents := idents } :: back) caid ident
        len =
      front ++ {
          caid := caid
          idents := insertIdent (more caid back) ident len idents } ::
        (back ++ [{ caid := caid, idents := [] }]) := by
  rcases split_ident ident idents with none | ⟨first, node, rest, split, other,
    found⟩
  · rw [around.addLength_of_forall none, insertIdent_of_forall none]
  · subst split
    rw [around.addLength_of_found other found
      (filled ident node (find_of_found other found)),
      insertIdent_of_found other found]

theorem IdentNode.ident_withLen (node : IdentNode) (len : Int) :
    (node.withLen len).ident = node.ident := by
  unfold IdentNode.withLen
  split <;> rfl

theorem IdentNode.lengths_withLen (node : IdentNode) (len : Int) :
    (node.withLen len).lengths =
      if len ∈ node.lengths then node.lengths else node.lengths ++ [len] := by
  unfold IdentNode.withLen
  split <;> rfl

theorem IdentNode.withLen_ne_nil (node : IdentNode) (len : Int) :
    (node.withLen len).lengths ≠ [] := by
  rw [IdentNode.lengths_withLen]
  split
  · rename_i member
    exact List.ne_nil_of_mem member
  · simp

/-- The entries with lengths, as pairs. -/
def content (idents : List IdentNode) : List (Nat × List Int) :=
  (idents.filter (·.lengths ≠ [])).map fun node => (node.ident, node.lengths)

theorem content_append (first second : List IdentNode) :
    content (first ++ second) = content first ++ content second := by
  simp [content]

theorem content_cons {node : IdentNode} (filled : node.lengths ≠ [])
    (rest : List IdentNode) :
    content (node :: rest) = (node.ident, node.lengths) :: content rest := by
  simp [content, filled]

theorem key_ne_of_content {idents : List IdentNode}
    (other : ∀ node ∈ idents, node.ident ≠ ident) :
    ∀ entry ∈ content idents, entry.1 ≠ ident := by
  intro entry member
  obtain ⟨node, there, rfl⟩ := List.mem_map.mp member
  exact other node (List.mem_filter.mp there).1

/-- What `chk_reader` keeps of the lengths of a caid, and what the lists hold
besides. -/
structure Sound (idents : List IdentNode) (history : List (Nat × Int)) :
    Prop where
  filled : FirstFilled idents
  content : content idents = CutStack.recordAll history
  known : ∀ node ∈ idents, ∃ x ∈ history, x.1 = node.ident

theorem FirstFilled.insertIdent {idents : List IdentNode}
    (filled : FirstFilled idents) {again : Bool}
    (single : again = false → idents.length ≤ 1) :
    FirstFilled (insertIdent again ident len idents) := by
  intro wanted node
  rcases split_ident ident idents with none | ⟨first, found, rest, rfl, other,
    same⟩
  · rw [insertIdent_of_forall none, List.find?_append]
    cases before : idents.find? (·.ident = wanted) with
    | some entry =>
        rintro ⟨⟩
        exact filled wanted node before
    | none =>
        intro last
        have member := List.mem_of_find?_eq_some last
        rw [List.mem_singleton.mp member]
        simp
  · rw [insertIdent_of_found other same, List.find?_append]
    cases before : first.find? (·.ident = wanted) with
    | some entry =>
        rintro ⟨⟩
        apply filled wanted node
        rw [List.find?_append, before]
        rfl
    | none =>
        rw [Option.none_or]
        by_cases equal : wanted = ident
        · subst equal
          rw [List.find?_cons_of_pos (by
            simpa [IdentNode.ident_withLen] using same)]
          rintro ⟨⟩
          exact IdentNode.withLen_ne_nil found len
        · have different : ¬ (found.withLen len).ident = wanted := by
            rw [IdentNode.ident_withLen, same]
            exact Ne.symm equal
          rw [List.find?_cons_of_neg (by simpa using different)]
          cases again with
          | true =>
              intro last
              rw [if_pos rfl, List.find?_cons_of_neg (by
                simpa using Ne.symm equal)] at last
              cases last
          | false =>
              have empty : rest = [] := by
                have short := single rfl
                rw [List.length_append, List.length_cons] at short
                exact List.length_eq_zero_iff.mp (by omega)
              rw [empty]
              rintro ⟨⟩

theorem content_insertIdent {idents : List IdentNode}
    (filled : FirstFilled idents) {again : Bool}
    (single : again = false → idents.length ≤ 1) :
    content (insertIdent again ident len idents) =
      CutStack.record (content idents) ident len := by
  rcases split_ident ident idents with none | ⟨first, found, rest, rfl, other,
    rfl⟩
  · rw [insertIdent_of_forall none, content_append,
      CutStack.record_of_forall (key_ne_of_content none)]
    rfl
  · have lengths := filled _ found (find_of_found other rfl)
    have nothing : content (if again = true then
        [{ ident := found.ident, lengths := [] }] else rest) = [] := by
      cases again with
      | true => rfl
      | false =>
          have short := single rfl
          rw [List.length_append, List.length_cons] at short
          have empty : rest = [] := List.length_eq_zero_iff.mp (by omega)
          rw [empty]
          rfl
    rw [insertIdent_of_found other rfl, content_append, content_append,
      content_cons (found.withLen_ne_nil len), content_cons lengths,
      CutStack.record_of_found (key_ne_of_content other), nothing,
      IdentNode.ident_withLen, IdentNode.lengths_withLen]

theorem known_insertIdent {idents : List IdentNode} {again : Bool}
    {node : IdentNode} (member : node ∈ insertIdent again ident len idents) :
    node.ident = ident ∨ ∃ other ∈ idents, other.ident = node.ident := by
  rcases split_ident ident idents with none | ⟨first, found, rest, rfl, other,
    rfl⟩
  · rw [insertIdent_of_forall none] at member
    rcases List.mem_append.mp member with old | new
    · exact .inr ⟨node, old, rfl⟩
    · left
      rw [List.mem_singleton.mp new]
  · rw [insertIdent_of_found other rfl] at member
    rcases List.mem_append.mp member with old | new
    · exact .inr ⟨node, List.mem_append_left _ old, rfl⟩
    · rcases List.mem_cons.mp new with rfl | behind
      · exact .inl (IdentNode.ident_withLen found len)
      · cases again with
        | true =>
            left
            rw [List.mem_singleton.mp behind]
        | false =>
            exact .inr ⟨node, List.mem_append_right _
              (List.mem_cons_of_mem _ behind), rfl⟩

theorem Sound.step {idents : List IdentNode} {history : List (Nat × Int)}
    (sound : Sound idents history) {again : Bool}
    (single : again = false → idents.length ≤ 1) :
    Sound (insertIdent again ident len idents)
      (history ++ [(ident, len)]) := by
  constructor
  · exact sound.filled.insertIdent single
  · rw [content_insertIdent sound.filled single, sound.content,
      CutStack.recordAll_append]
  · intro node member
    rcases known_insertIdent member with new | ⟨other, old, same⟩
    · exact ⟨(ident, len), by simp, new.symm⟩
    · obtain ⟨x, there, known⟩ := sound.known other old
      exact ⟨x, List.mem_append_left _ there, known.trans same⟩

/-- The identifications of a caid after its lengths. -/
def identsOf (history : List (Nat × Int)) : List IdentNode :=
  (history.foldl
    (fun state x =>
      (state.1 + 1, insertIdent (2 ≤ state.1) x.1 x.2 state.2))
    (0, [])).2

theorem identsOf_append (history : List (Nat × Int)) (x : Nat × Int) :
    identsOf (history ++ [x]) =
      insertIdent (2 ≤ history.length) x.1 x.2 (identsOf history) := by
  have count (n : Nat) (idents : List IdentNode) :
      (history.foldl
        (fun state x =>
          (state.1 + 1, insertIdent (2 ≤ state.1) x.1 x.2 state.2))
        (n, idents)).1 = n + history.length := by
    induction history generalizing n idents with
    | nil => rfl
    | cons y history induction =>
        rw [List.foldl_cons, induction, List.length_cons]
        omega
  unfold identsOf
  rw [List.foldl_append, List.foldl_cons, List.foldl_nil, count, Nat.zero_add]

theorem length_identsOf_le {history : List (Nat × Int)}
    (few : history.length ≤ 1) : (identsOf history).length ≤ 1 := by
  cases history with
  | nil => exact Nat.zero_le 1
  | cons x history =>
      have none : history = [] := List.length_eq_zero_iff.mp (by
        rw [List.length_cons] at few
        omega)
      rw [none]
      exact Nat.le_refl 1

theorem sound_identsOf (history : List (Nat × Int)) :
    Sound (identsOf history) history := by
  induction history using List.reverseRecOn with
  | nil =>
      constructor
      · intro ident node found
        cases found
      · rfl
      · intro node member
        cases member
  | append_singleton history x induction =>
      rw [identsOf_append]
      apply induction.step
      intro once
      apply length_identsOf_le
      simp only [decide_eq_false_iff_not] at once
      omega

theorem identsOf_ne_nil {history : List (Nat × Int)} (some : history ≠ []) :
    identsOf history ≠ [] := by
  rcases List.eq_nil_or_concat history with none | ⟨front, x, rfl⟩
  · exact absurd none some
  · rw [List.concat_eq_append, identsOf_append]
    cases identsOf front with
    | nil => exact List.cons_ne_nil _ _
    | cons node idents =>
        unfold insertIdent
        split <;> exact List.cons_ne_nil _ _

/-! ## The whole list -/

theorem toInt16_caid (small : caid < 2 ^ 16) :
    (toInt16 caid = caid ↔ caid < 0x8000) ∧
      (0x8000 ≤ caid → toInt16 caid < 0) := by
  unfold toInt16
  omega

/-- The entries of a caid after its lengths: below 8000 all are in the first
entry, from 8000 on each has an entry of its own, as the caid is negative in
the search. -/
def entriesOf (caid : Nat) (history : List (Nat × Int)) : List CaidNode :=
  if caid < 0x8000 then
    match history with
    | [] => []
    | _ :: rest =>
        { caid := caid, idents := identsOf history } ::
          List.replicate rest.length { caid := caid, idents := [] }
  else
    history.map fun x =>
      { caid := caid, idents := [{ ident := x.1, lengths := [x.2] }] }

/-- The list after some lengths. -/
def Built (whitelist : List CaidNode) (list : List Listing) : Prop :=
  (∀ node ∈ whitelist, node.caid < 2 ^ 16) ∧
    ∀ caid, whitelist.filter (·.caid = caid) =
      entriesOf caid (history caid list)

theorem history_append_self (list : List Listing) (x : Listing) :
    history x.caid (list ++ [x]) =
      history x.caid list ++ [(x.ident, x.len)] := by
  simp [history]

theorem history_append_of_ne {list : List Listing} {x : Listing}
    (other : x.caid ≠ caid) :
    history caid (list ++ [x]) = history caid list := by
  simp [history, other]

theorem entriesOf_low (low : caid < 0x8000) (x : Nat × Int)
    (rest : List (Nat × Int)) :
    entriesOf caid (x :: rest) =
      { caid := caid, idents := identsOf (x :: rest) } ::
        List.replicate rest.length { caid := caid, idents := [] } := by
  unfold entriesOf
  rw [if_pos low]

/-- A caid that the search finds is below 8000 and has lengths. -/
theorem low_of_found {node : CaidNode}
    (small : caid < 2 ^ 16) (found : (node.caid : Int) = toInt16 caid) :
    caid < 0x8000 ∧ node.caid = caid := by
  have bounds := toInt16_caid small
  have low : caid < 0x8000 := by
    by_contra high
    have negative := bounds.2 (by omega)
    omega
  have same := bounds.1.mpr low
  exact ⟨low, by omega⟩

/-- The search finds the one entry of the caid that has idents; the empty ones
are behind it. -/
theorem Built.split {whitelist : List CaidNode} {list : List Listing}
    (built : Built whitelist list) {node : CaidNode} (small : caid < 2 ^ 16)
    (member : node ∈ whitelist)
    (found : (node.caid : Int) = toInt16 caid) :
    ∃ y rest front back, history caid list = y :: rest ∧
      whitelist = front ++
        { caid := caid, idents := identsOf (y :: rest) } :: back ∧
      (∀ node ∈ front, node.caid ≠ caid) ∧
      back.filter (·.caid = caid) =
        List.replicate rest.length { caid := caid, idents := [] } := by
  obtain ⟨low, equal⟩ := low_of_found small found
  have mine := built.2 caid
  cases before : history caid list with
  | nil =>
      rw [before] at mine
      have empty : whitelist.filter (·.caid = caid) = [] := by
        rw [mine, entriesOf, if_pos low]
      have nothing := List.filter_eq_nil_iff.mp empty node member
      simp [equal] at nothing
  | cons y rest =>
      rw [before, entriesOf_low low, List.filter_eq_cons_iff] at mine
      obtain ⟨front, back, whole, others, _match, behind⟩ := mine
      refine ⟨y, rest, front, back, rfl, whole, ?_, behind⟩
      intro node member
      simpa using others node member

theorem around_of_split {front back : List CaidNode} {y : Nat × Int}
    {rest : List (Nat × Int)} (small : caid < 2 ^ 16) (low : caid < 0x8000)
    (others : ∀ node ∈ front, node.caid ≠ caid)
    (behind : back.filter (·.caid = caid) =
      List.replicate rest.length { caid := caid, idents := [] }) :
    Around caid front (identsOf (y :: rest)) back := by
  refine ⟨(toInt16_caid small).1.mpr low, others,
    identsOf_ne_nil (List.cons_ne_nil y rest), ?_⟩
  intro node member same
  have listed : node ∈ back.filter (·.caid = caid) :=
    List.mem_filter.mpr ⟨member, by simpa using same⟩
  rw [behind] at listed
  rw [List.eq_of_mem_replicate listed]

/-- There are empty entries from the second length on. -/
theorem more_of_split {back : List CaidNode} {y : Nat × Int}
    {rest : List (Nat × Int)}
    (behind : back.filter (·.caid = caid) =
      List.replicate rest.length { caid := caid, idents := [] }) :
    more caid back = decide (2 ≤ (y :: rest).length) := by
  unfold more
  cases rest with
  | nil =>
      have none := List.filter_eq_nil_iff.mp behind
      simpa using none
  | cons z rest =>
      have there : ({ caid := caid, idents := [] } : CaidNode) ∈
          back.filter (·.caid = caid) := by
        rw [behind]
        exact List.mem_cons_self
      obtain ⟨member, same⟩ := List.mem_filter.mp there
      simp only [List.length_cons]
      rw [List.any_eq_true.mpr ⟨_, member, same⟩]
      exact (decide_eq_true (by omega)).symm

/-- A length whose caid the search finds. -/
theorem Built.step_of_found {whitelist : List CaidNode} {list : List Listing}
    (built : Built whitelist list) {x : Listing} (small : x.caid < 2 ^ 16)
    {node : CaidNode} (member : node ∈ whitelist)
    (found : (node.caid : Int) = toInt16 x.caid) :
    Built (addLength whitelist x.caid x.ident x.len) (list ++ [x]) := by
  obtain ⟨low, _equal⟩ := low_of_found small found
  obtain ⟨y, rest, front, back, before, whole, others, behind⟩ :=
    built.split small member found
  obtain ⟨caids, entries⟩ := built
  subst whole
  have around : Around x.caid front (identsOf (y :: rest)) back :=
    around_of_split small low others behind
  rw [around.addLength (sound_identsOf (y :: rest)).filled,
    more_of_split behind, ← identsOf_append (y :: rest) (x.ident, x.len)]
  constructor
  · intro node member
    simp only [List.mem_append, List.mem_cons, List.not_mem_nil,
      or_false] at member
    rcases member with inFront | rfl | inBack | rfl
    · exact caids node (List.mem_append_left _ inFront)
    · exact small
    · exact caids node (List.mem_append_right _
        (List.mem_cons_of_mem _ inBack))
    · exact small
  · intro caid
    by_cases wanted : x.caid = caid
    · subst wanted
      have none : front.filter (·.caid = x.caid) = [] := by
        rw [List.filter_eq_nil_iff]
        intro node member
        simpa using others node member
      rw [history_append_self, before, List.cons_append,
        entriesOf_low low, List.filter_append, none, List.nil_append,
        List.filter_cons_of_pos (by simp), List.filter_append, behind,
        List.length_append, List.length_singleton, List.replicate_succ']
      simp
    · have rest := entries caid
      rw [history_append_of_ne wanted, ← rest]
      simp [List.filter_append, wanted]

/-- A length whose caid the search does not find: a new entry. -/
theorem Built.step_of_missing {whitelist : List CaidNode}
    {list : List Listing} (built : Built whitelist list) {x : Listing}
    (small : x.caid < 2 ^ 16)
    (none : ∀ node ∈ whitelist, (node.caid : Int) ≠ toInt16 x.caid) :
    Built (addLength whitelist x.caid x.ident x.len) (list ++ [x]) := by
  obtain ⟨caids, entries⟩ := built
  rw [addLength_of_forall none]
  constructor
  · intro node member
    rcases List.mem_append.mp member with old | new
    · exact caids node old
    · rw [List.mem_singleton.mp new]
      exact small
  · intro caid
    by_cases wanted : x.caid = caid
    · subst wanted
      rw [history_append_self, List.filter_append, entries x.caid,
        List.filter_cons_of_pos (by simp), List.filter_nil]
      by_cases low : x.caid < 0x8000
      · have same := (toInt16_caid small).1.mpr low
        cases before : history x.caid list with
        | nil =>
            rw [List.nil_append, entriesOf_low low]
            unfold entriesOf
            rw [if_pos low]
            rfl
        | cons y rest =>
            have listed : ({ caid := x.caid
                             idents := identsOf (y :: rest) } : CaidNode) ∈
                whitelist.filter (·.caid = x.caid) := by
              rw [entries x.caid, before, entriesOf_low low]
              exact List.mem_cons_self
            have member := (List.mem_filter.mp listed).1
            exact absurd same.symm (none _ member)
      · unfold entriesOf
        rw [if_neg low, if_neg low, List.map_append]
        rfl
    · rw [history_append_of_ne wanted, List.filter_append, entries caid]
      simp [wanted]

theorem Built.step {whitelist : List CaidNode} {list : List Listing}
    (built : Built whitelist list) {x : Listing} (small : x.caid < 2 ^ 16) :
    Built (addLength whitelist x.caid x.ident x.len) (list ++ [x]) := by
  by_cases found : ∃ node ∈ whitelist, (node.caid : Int) = toInt16 x.caid
  · obtain ⟨node, member, same⟩ := found
    exact built.step_of_found small member same
  · apply built.step_of_missing small
    intro node member same
    exact found ⟨node, member, same⟩

theorem built_nil : Built [] [] := by
  constructor
  · intro node member
    cases member
  · intro caid
    unfold entriesOf
    split <;> rfl

/-- The list that a setting builds. -/
theorem built_foldl (list : List Listing)
    (small : ∀ x ∈ list, x.caid < 2 ^ 16) :
    Built
      (list.foldl
        (fun whitelist x => addLength whitelist x.caid x.ident x.len) [])
      list := by
  induction list using List.reverseRecOn with
  | nil => exact built_nil
  | append_singleton list x induction =>
      rw [List.foldl_append]
      exact (induction fun y member =>
        small y (List.mem_append_left _ member)).step (small x (by simp))

theorem holds_content (idents : List IdentNode) (ident : Nat) (len : Int) :
    CutStack.Holds (content idents) ident len ↔
      ∃ node ∈ idents, node.ident = ident ∧ len ∈ node.lengths := by
  constructor
  · rintro ⟨entry, member, rfl, listed⟩
    obtain ⟨node, there, rfl⟩ := List.mem_map.mp member
    exact ⟨node, (List.mem_filter.mp there).1, rfl, listed⟩
  · rintro ⟨node, member, rfl, listed⟩
    have filled : node.lengths ≠ [] := List.ne_nil_of_mem listed
    refine ⟨(node.ident, node.lengths), List.mem_map.mpr ⟨node, ?_, rfl⟩, rfl,
      listed⟩
    exact List.mem_filter.mpr ⟨member, by simpa using filled⟩

variable {whitelist : List CaidNode} {list : List Listing}

theorem Built.mem_iff (built : Built whitelist list) (node : CaidNode) :
    node ∈ whitelist ↔
      node ∈ entriesOf node.caid (history node.caid list) := by
  rw [← built.2 node.caid, List.mem_filter]
  simp

/-- Below 8000 the list holds what stays on the stack of its caid. -/
theorem Built.has_low (built : Built whitelist list) (low : caid < 0x8000) :
    Has whitelist caid ident len ↔
      CutStack.Stays (history caid list) ident len := by
  have sound := sound_identsOf (history caid list)
  rw [← CutStack.holds_recordAll_iff, ← sound.content, holds_content]
  constructor
  · rintro ⟨node, member, rfl, other, inside, same, listed⟩
    rw [built.mem_iff] at member
    cases before : history node.caid list with
    | nil =>
        rw [before, entriesOf, if_pos low] at member
        cases member
    | cons x rest =>
        rw [before, entriesOf_low low] at member
        rcases List.mem_cons.mp member with equal | behind
        · rw [equal] at inside
          exact ⟨other, inside, same, listed⟩
        · rw [List.eq_of_mem_replicate behind] at inside
          cases inside
  · rintro ⟨other, inside, same, listed⟩
    cases before : history caid list with
    | nil =>
        rw [before] at inside
        cases inside
    | cons x rest =>
        rw [before] at inside
        refine ⟨{ caid := caid, idents := identsOf (x :: rest) }, ?_, rfl,
          other, inside, same, listed⟩
        rw [built.mem_iff, before, entriesOf_low low]
        exact List.mem_cons_self

theorem Built.has_high (built : Built whitelist list)
    (high : 0x8000 ≤ caid) (listed : (ident, len) ∈ history caid list) :
    Has whitelist caid ident len := by
  refine ⟨{ caid := caid, idents := [{ ident := ident, lengths := [len] }] },
    ?_, rfl, { ident := ident, lengths := [len] }, List.mem_cons_self, rfl,
    List.mem_cons_self⟩
  rw [built.mem_iff]
  unfold entriesOf
  rw [if_neg (by
    show ¬ caid < 0x8000
    omega)]
  exact List.mem_map.mpr ⟨(ident, len), listed, rfl⟩

theorem mem_history {x : Listing} (member : x ∈ list) :
    (x.ident, x.len) ∈ history x.caid list := by
  refine List.mem_map.mpr ⟨x, List.mem_filter.mpr ⟨member, ?_⟩, rfl⟩
  simp

theorem of_mem_history {x : Nat × Int} (member : x ∈ history caid list) :
    { caid := caid, ident := x.1, len := x.2 } ∈ list := by
  obtain ⟨listing, there, rfl⟩ := List.mem_map.mp member
  obtain ⟨inside, same⟩ := List.mem_filter.mp there
  have equal : listing.caid = caid := by simpa using same
  rw [← equal]
  exact inside

/-- There is nothing in the list that was not listed. -/
theorem Built.listed (built : Built whitelist list) {node : CaidNode}
    (member : node ∈ whitelist) {other : IdentNode}
    (inside : other ∈ node.idents) :
    (∃ x ∈ list, x.caid = node.caid ∧ x.ident = other.ident) ∧
      ∀ len ∈ other.lengths,
        { caid := node.caid, ident := other.ident, len := len } ∈ list := by
  rw [built.mem_iff] at member
  by_cases low : node.caid < 0x8000
  · cases before : history node.caid list with
    | nil =>
        rw [before, entriesOf, if_pos low] at member
        cases member
    | cons x rest =>
        have sound := sound_identsOf (x :: rest)
        rw [before, entriesOf_low low] at member
        rcases List.mem_cons.mp member with equal | behind
        · rw [equal] at inside
          constructor
          · obtain ⟨y, there, same⟩ := sound.known other inside
            rw [← before] at there
            exact ⟨_, of_mem_history there, rfl, same⟩
          · intro len member
            have held := (holds_content _ _ _).mpr
              ⟨other, inside, rfl, member⟩
            rw [sound.content, CutStack.holds_recordAll_iff, ← before] at held
            obtain ⟨front, after, split, _above⟩ := held
            have there : (other.ident, len) ∈ history node.caid list := by
              rw [split]
              simp
            exact of_mem_history there
        · rw [List.eq_of_mem_replicate behind] at inside
          cases inside
  · unfold entriesOf at member
    rw [if_neg low] at member
    obtain ⟨x, there, equal⟩ := List.mem_map.mp member
    have idents : node.idents = [{ ident := x.1, lengths := [x.2] }] := by
      rw [← equal]
    rw [idents] at inside
    have only := List.mem_singleton.mp inside
    subst only
    constructor
    · exact ⟨_, of_mem_history there, rfl, rfl⟩
    · intro len member
      rw [List.mem_singleton.mp member]
      exact of_mem_history there

/-! ## The setting and the check -/

theorem mem_listings_iff (value : List UInt8) (x : Listing) :
    x ∈ listings value ↔
      ∃ clause ∈ clauses value, clause.caid = x.caid ∧
        clause.ident = x.ident ∧ x.len ∈ clause.lens := by
  constructor
  · intro member
    obtain ⟨clause, there, inside⟩ := List.mem_flatMap.mp member
    obtain ⟨len, listed, rfl⟩ := List.mem_map.mp inside
    exact ⟨clause, there, rfl, rfl, listed⟩
  · rintro ⟨clause, there, caid, ident, listed⟩
    refine List.mem_flatMap.mpr ⟨clause, there, List.mem_map.mpr
      ⟨x.len, listed, ?_⟩⟩
    rw [caid, ident]

theorem parseCaid_lt (txt : List UInt8) : parseCaid txt < 2 ^ 16 := by
  unfold parseCaid
  omega

theorem caid_parseClause_lt (ptr : List UInt8) :
    (parseClause ptr).caid < 2 ^ 16 := by
  unfold parseClause
  split
  · exact Nat.two_pow_pos 16
  · split
    · exact parseCaid_lt _
    · exact parseCaid_lt _

theorem caid_listing_lt {value : List UInt8} {x : Listing}
    (member : x ∈ listings value) : x.caid < 2 ^ 16 := by
  obtain ⟨clause, there, caid, _ident, _listed⟩ :=
    (mem_listings_iff value x).mp member
  obtain ⟨ptr, _member, rfl⟩ := List.mem_map.mp (List.mem_filter.mp there).1
  rw [← caid]
  exact caid_parseClause_lt ptr

/-- The loops over the clauses and their lengths in one. -/
theorem ecmWhitelist_eq (value : List UInt8) :
    ecmWhitelist value =
      (listings value).foldl
        (fun whitelist x => addLength whitelist x.caid x.ident x.len) [] := by
  have clause (whitelist : List CaidNode) (clause : Clause) :
      (clause.lens.map fun len => Listing.mk clause.caid clause.ident len).foldl
          (fun whitelist x => addLength whitelist x.caid x.ident x.len)
          whitelist =
        clause.lens.foldl
          (fun whitelist len =>
            addLength whitelist clause.caid clause.ident len) whitelist := by
    rw [List.foldl_map]
  have loop (ptrs : List (List UInt8)) (whitelist : List CaidNode) :
      ptrs.foldl
          (fun whitelist ptr =>
            (parseClause ptr).lens.foldl
              (fun whitelist len =>
                addLength whitelist (parseClause ptr).caid
                  (parseClause ptr).ident len)
              whitelist)
          whitelist =
        (((ptrs.map parseClause).filter (·.lens ≠ [])).flatMap fun clause =>
          clause.lens.map fun len =>
            Listing.mk clause.caid clause.ident len).foldl
          (fun whitelist x => addLength whitelist x.caid x.ident x.len)
          whitelist := by
    induction ptrs generalizing whitelist with
    | nil => rfl
    | cons ptr ptrs induction =>
        rw [List.foldl_cons, induction, List.map_cons]
        by_cases empty : (parseClause ptr).lens = []
        · rw [List.filter_cons_of_neg (by simpa using empty), empty]
          rfl
        · rw [List.filter_cons_of_pos (by simpa using empty),
            List.flatMap_cons, List.foldl_append, clause]
  exact loop (strtok 59 value) []

theorem built_ecmWhitelist (value : List UInt8) :
    Built (ecmWhitelist value) (listings value) := by
  rw [ecmWhitelist_eq]
  exact built_foldl _ fun x member => caid_listing_lt member

theorem matches_iff (er : EcmRequest) (node : CaidNode) :
    node.matches er = true ↔ node.caid = 0 ∨ node.caid = er.caid := by
  simp [CaidNode.matches]

theorem ident_matches_iff (er : EcmRequest) (node : IdentNode) :
    node.matches er = true ↔ node.ident = 0 ∨ node.ident = er.prid := by
  simp [IdentNode.matches]

theorem foundident_iff (whitelist : List CaidNode) (er : EcmRequest) :
    foundident whitelist er = true ↔
      ∃ node ∈ whitelist, node.matches er = true ∧
        ∃ other ∈ node.idents, other.matches er = true := by
  simp [foundident]

theorem ok_iff (whitelist : List CaidNode) (er : EcmRequest) :
    ok whitelist er = true ↔
      ∃ node ∈ whitelist, node.matches er = true ∧
        ∃ other ∈ node.idents, other.matches er = true ∧
          er.l ∈ other.lengths := by
  simp [ok]

/-- If no clause is lost, the check refuses what the setting says. -/
theorem rejects_of_kept {value : List UInt8}
    (kept : ∀ clause ∈ clauses value, ∀ len ∈ clause.lens,
      Has (ecmWhitelist value) clause.caid clause.ident len)
    (er : EcmRequest) :
    rejected (ecmWhitelist value) er = true ↔
      (∃ clause ∈ clauses value, clause.Applies er) ∧
        ∀ clause ∈ clauses value, clause.Applies er → er.l ∉ clause.lens := by
  have built := built_ecmWhitelist value
  have found : foundident (ecmWhitelist value) er = true ↔
      ∃ clause ∈ clauses value, clause.Applies er := by
    rw [foundident_iff]
    constructor
    · rintro ⟨node, member, caids, other, inside, idents⟩
      obtain ⟨x, there, caid, ident⟩ := (built.listed member inside).1
      obtain ⟨clause, listed, sameCaid, sameIdent, _len⟩ :=
        (mem_listings_iff value x).mp there
      refine ⟨clause, listed, ?_, ?_⟩
      · rw [sameCaid, caid]
        exact (matches_iff er node).mp caids
      · rw [sameIdent, ident]
        exact (ident_matches_iff er other).mp idents
    · rintro ⟨clause, listed, caids, idents⟩
      have filled : clause.lens ≠ [] := by
        simpa using (List.mem_filter.mp listed).2
      obtain ⟨len, member⟩ := List.exists_mem_of_ne_nil _ filled
      obtain ⟨node, there, caid, other, inside, ident, _listed⟩ :=
        kept clause listed len member
      refine ⟨node, there, (matches_iff er node).mpr ?_, other, inside,
        (ident_matches_iff er other).mpr ?_⟩
      · rw [caid]
        exact caids
      · rw [ident]
        exact idents
  have good : ok (ecmWhitelist value) er = true ↔
      ∃ clause ∈ clauses value, clause.Applies er ∧ er.l ∈ clause.lens := by
    rw [ok_iff]
    constructor
    · rintro ⟨node, member, caids, other, inside, idents, length⟩
      obtain ⟨clause, listed, caid, ident, lens⟩ := (mem_listings_iff value
        _).mp ((built.listed member inside).2 er.l length)
      refine ⟨clause, listed, ⟨?_, ?_⟩, lens⟩
      · rw [caid]
        exact (matches_iff er node).mp caids
      · rw [ident]
        exact (ident_matches_iff er other).mp idents
    · rintro ⟨clause, listed, ⟨caids, idents⟩, lens⟩
      obtain ⟨node, there, caid, other, inside, ident, length⟩ :=
        kept clause listed er.l lens
      refine ⟨node, there, (matches_iff er node).mpr ?_, other, inside,
        (ident_matches_iff er other).mpr ?_, length⟩
      · rw [caid]
        exact caids
      · rw [ident]
        exact idents
  unfold rejected
  rw [Bool.and_eq_true, Bool.not_eq_true', ← Bool.not_eq_true, found, good]
  constructor
  · rintro ⟨some, none⟩
    refine ⟨some, fun clause listed applies lens => ?_⟩
    exact none ⟨clause, listed, applies, lens⟩
  · rintro ⟨some, none⟩
    refine ⟨some, ?_⟩
    rintro ⟨clause, listed, applies, lens⟩
    exact none clause listed applies lens

/-- The lists do what a setting says if and only if every length stays on the
stack of its caid. -/
theorem right_iff (value : List UInt8) :
    Right value (ecmWhitelist value) ↔ Stacked value := by
  have built := built_ecmWhitelist value
  constructor
  · intro right clause listed low len member
    exact (built.has_low low).mp (right.kept clause listed len member)
  · intro stacked
    have kept : ∀ clause ∈ clauses value, ∀ len ∈ clause.lens,
        Has (ecmWhitelist value) clause.caid clause.ident len := by
      intro clause listed len member
      by_cases low : clause.caid < 0x8000
      · exact (built.has_low low).mpr (stacked clause listed low len member)
      · apply built.has_high (by omega)
        have there := (mem_listings_iff value
          { caid := clause.caid, ident := clause.ident, len := len }).mpr
          ⟨clause, listed, rfl, rfl, member⟩
        exact mem_history there
    exact ⟨rejects_of_kept kept, kept⟩

/-- The provider 2 is lost when provider 1 comes a second time. -/
def lost : List UInt8 := ascii "0100@1:10;0100@2:20;0100@1:30"

/-- A request of caid 0100 for this provider with an ECM of 0x99 bytes. -/
def longEcm (prid : Nat) : EcmRequest :=
  { EcmRequest.zero with caid := 0x0100, prid := prid, l := 0x99 }

/-- The length of the ECM is not listed, but the request is not refused, as it
is for provider 1. -/
theorem not_right_lost :
    ¬ Right lost (ecmWhitelist lost) ∧
      rejected (ecmWhitelist lost) (longEcm 1) = true ∧
      rejected (ecmWhitelist lost) (longEcm 2) = false := by
  refine ⟨?_, by decide +kernel, by decide +kernel⟩
  intro right
  have kept : Has (ecmWhitelist lost) 0x0100 2 0x20 :=
    right.kept { caid := 0x0100, ident := 2, lens := [0x20] }
      (by decide +kernel) 0x20 List.mem_cons_self
  have none : ¬ ∃ node ∈ ecmWhitelist lost, ∃ other ∈ node.idents,
      other.ident = 2 := by decide +kernel
  obtain ⟨node, member, _caid, other, inside, ident, _listed⟩ := kept
  exact none ⟨node, member, other, inside, ident⟩

end Oscam.EcmWhitelist
