import Oscam.Http.Templates
import Oscam.Lib.Acyclic

/-!
# What a template stands for

A text is read as characters and names, from left to right, and expanded with
the values of the names.  `tpl_getTpl` gives this expansion, and ends at all,
if and only if no `##` that it comes to is left open.
-/

namespace Oscam.Http

open Relation (ReflTransGen TransGen)

/-! ## Reading -/

/-- A name that can stand between two `##`. -/
structure WellFormed (name : Text) : Prop where
  filled : name ≠ []
  first : name.head? ≠ some hash
  inside : ¬ [hash, hash] <:+: name ++ [hash]
  short : name.length < 30

/-- `##NAME##` and what follows it. -/
def marker (name behind : Text) : Text :=
  hash :: hash :: (name ++ hash :: hash :: behind)

/-- A text is made of characters and of names.  A `stray` is the character `#`
as well, where a `##` looks like the begin of a name but is not. -/
inductive Piece where
  | char (c : UInt8)
  | name (name : Text)
  | stray
  deriving DecidableEq, Repr

/-- The pieces of a text. -/
inductive Reads : Text → List Piece → Prop where
  | nil : Reads [] []
  | name {name behind : Text} {rest : List Piece} :
      WellFormed name → Reads behind rest →
      Reads (marker name behind) (.name name :: rest)
  | stray {behind : Text} {rest : List Piece} :
      opensMarker (hash :: behind) = true →
      (∀ name other, WellFormed name → hash :: behind ≠ marker name other) →
      Reads behind rest → Reads (hash :: behind) (.stray :: rest)
  | char {c : UInt8} {behind : Text} {rest : List Piece} :
      opensMarker (c :: behind) = false → Reads behind rest →
      Reads (c :: behind) (.char c :: rest)

/-- The pieces behind the first `skip` characters. -/
def piecesFrom : Nat → Text → List Piece
  | _, [] => []
  | skip + 1, _ :: rest => piecesFrom skip rest
  | 0, c :: rest =>
      if opensMarker (c :: rest) then
        let (name, closed) := scanName (rest.drop 1)
        if name.length + 2 < 32 ∧ closed then
          .name name :: piecesFrom (name.length + 3) rest
        else .stray :: piecesFrom 0 rest
      else .char c :: piecesFrom 0 rest

def pieces (txt : Text) : List Piece := piecesFrom 0 txt

theorem piecesFrom_eq (skip : Nat) (txt : Text) :
    piecesFrom skip txt = pieces (txt.drop skip) := by
  induction txt generalizing skip with
  | nil => cases skip <;> rfl
  | cons c txt induction =>
      cases skip with
      | zero => rfl
      | succ skip => exact induction skip

/-! ### The scan for a name -/

theorem infix_cons_cons {c : UInt8} {txt : Text}
    (apart : ¬ [hash, hash] <:+: c :: txt) : ¬ [hash, hash] <:+: txt :=
  fun inside => apart (inside.trans (List.suffix_cons c txt).isInfix)

theorem scanName_append {name behind : Text}
    (apart : ¬ [hash, hash] <:+: name ++ [hash]) :
    scanName (name ++ hash :: hash :: behind) = (name, true) := by
  induction name with
  | nil => simp [scanName]
  | cons c name induction =>
      have rest := induction (infix_cons_cons apart)
      cases name with
      | nil =>
          have other : c ≠ hash := by
            rintro rfl
            exact apart (List.infix_refl _)
          simp only [List.nil_append, List.cons_append] at rest ⊢
          rw [scanName, if_neg (fun both => other both.1), rest]
      | cons next name =>
          have other : ¬ (c = hash ∧ next = hash) := by
            rintro ⟨rfl, rfl⟩
            exact apart ⟨[], name ++ [hash], rfl⟩
          simp only [List.cons_append] at rest ⊢
          rw [scanName, if_neg other, rest]

theorem scanName_closed {txt name : Text}
    (closed : scanName txt = (name, true)) :
    ¬ [hash, hash] <:+: name ++ [hash] ∧
      ∃ behind, txt = name ++ hash :: hash :: behind := by
  induction txt using scanName.induct generalizing name with
  | case1 => cases closed
  | case2 c => cases closed
  | case3 c next rest both =>
      rw [scanName, if_pos both] at closed
      obtain ⟨rfl, -⟩ := Prod.mk.inj closed
      obtain ⟨rfl, rfl⟩ := both
      refine ⟨?_, rest, rfl⟩
      intro inside
      have short := inside.length_le
      simp at short
  | case4 c next rest other induction =>
      cases found : scanName (next :: rest) with
      | mk inner ended =>
      rw [scanName, if_neg other, found] at closed
      obtain ⟨rfl, rfl⟩ := Prod.mk.inj closed
      obtain ⟨apart, behind, split⟩ := induction found
      refine ⟨?_, behind, congrArg (c :: ·) split⟩
      intro inside
      rw [List.cons_append, List.infix_cons_iff] at inside
      rcases inside with front | later
      · -- the second character of the two is the one behind `c`
        obtain ⟨same, second⟩ := List.cons_prefix_cons.mp front
        have next_eq : next = hash := by
          cases inner with
          | nil => exact (List.cons.inj split).1
          | cons head tail =>
              rw [(List.cons.inj split).1]
              exact (List.cons_prefix_cons.mp second).1.symm
        exact other ⟨same.symm, next_eq⟩
      · exact apart later

/-! ### Reading with the scan -/

theorem opensMarker_marker {name : Text} (formed : WellFormed name)
    (behind : Text) : opensMarker (marker name behind) = true := by
  have first := formed.first
  cases name with
  | nil => exact absurd rfl formed.filled
  | cons c name => simpa [opensMarker, marker] using first

theorem drop_marker (name behind : Text) :
    (hash :: (name ++ hash :: hash :: behind)).drop (name.length + 3) =
      behind := by
  have place : name.length + 3 = (hash :: name).length + 2 := by simp
  have split : hash :: (name ++ hash :: hash :: behind) =
      (hash :: name) ++ (hash :: hash :: behind) := rfl
  rw [place, split, List.drop_append]
  simp

/-- What the scan finds behind a `##` that opens a name. -/
theorem wellFormed_scanName {c : UInt8} {rest name : Text}
    (opens : opensMarker (c :: rest) = true)
    (closed : scanName (rest.drop 1) = (name, true))
    (short : name.length + 2 < 32) :
    WellFormed name ∧
      c :: rest = marker name (rest.drop (name.length + 3)) := by
  cases rest with
  | nil => simp [opensMarker] at opens
  | cons second rest =>
      simp only [opensMarker, Bool.and_eq_true, beq_iff_eq, bne_iff_ne]
        at opens
      obtain ⟨⟨rfl, rfl⟩, third⟩ := opens
      rw [List.drop_one, List.tail_cons] at closed
      obtain ⟨apart, behind, rfl⟩ := scanName_closed closed
      have first : name ≠ [] ∧ name.head? ≠ some hash := by
        cases name with
        | nil => exact absurd rfl third
        | cons c name => exact ⟨by simp, third⟩
      refine ⟨⟨first.1, first.2, apart, by omega⟩, ?_⟩
      rw [drop_marker]
      rfl

theorem scanName_marker {name : Text} (formed : WellFormed name)
    (behind : Text) :
    scanName ((hash :: (name ++ hash :: hash :: behind)).drop 1) =
      (name, true) := by
  rw [List.drop_one, List.tail_cons]
  exact scanName_append formed.inside

/-- What stands at some place of a text. -/
theorem text_cases (c : UInt8) (rest : Text) :
    opensMarker (c :: rest) = false ∨
    (∃ name behind, WellFormed name ∧ c :: rest = marker name behind) ∨
    (opensMarker (c :: rest) = true ∧
      (∀ name behind, WellFormed name → c :: rest ≠ marker name behind) ∧
      ¬ ((scanName (rest.drop 1)).1.length + 2 < 32 ∧
        (scanName (rest.drop 1)).2 = true)) := by
  by_cases opens : opensMarker (c :: rest) = true
  · by_cases found : (scanName (rest.drop 1)).1.length + 2 < 32 ∧
        (scanName (rest.drop 1)).2 = true
    · have formed := wellFormed_scanName opens (Prod.ext rfl found.2) found.1
      exact .inr (.inl ⟨_, _, formed⟩)
    · refine .inr (.inr ⟨opens, ?_, found⟩)
      intro name behind formed same
      obtain ⟨rfl, rfl⟩ := List.cons.inj same
      rw [scanName_marker formed] at found
      have short : name.length + 2 < 32 := by
        have bound := formed.short
        omega
      exact found ⟨short, rfl⟩
  · exact .inl (Bool.eq_false_iff.mpr opens)

theorem pieces_char {c : UInt8} {rest : Text}
    (other : opensMarker (c :: rest) = false) :
    pieces (c :: rest) = .char c :: pieces rest := by
  rw [pieces, piecesFrom, other, if_neg Bool.false_ne_true]
  rfl

theorem pieces_marker {name : Text} (formed : WellFormed name)
    (behind : Text) :
    pieces (marker name behind) = .name name :: pieces behind := by
  have opens := opensMarker_marker formed behind
  have short := formed.short
  unfold marker at opens ⊢
  rw [pieces, piecesFrom, opens, if_pos rfl, scanName_marker formed]
  dsimp only
  rw [if_pos ⟨by omega, rfl⟩, piecesFrom_eq, drop_marker]

theorem pieces_stray {c : UInt8} {rest : Text}
    (opens : opensMarker (c :: rest) = true)
    (unclosed : ¬ ((scanName (rest.drop 1)).1.length + 2 < 32 ∧
      (scanName (rest.drop 1)).2 = true)) :
    pieces (c :: rest) = .stray :: pieces rest := by
  rw [pieces, piecesFrom, opens, if_pos rfl]
  dsimp only
  rw [if_neg unclosed]
  rfl

theorem hash_of_opensMarker {c : UInt8} {rest : Text}
    (opens : opensMarker (c :: rest) = true) : c = hash := by
  cases rest with
  | nil => simp [opensMarker] at opens
  | cons second rest =>
      simp only [opensMarker, Bool.and_eq_true, beq_iff_eq] at opens
      exact opens.1.1

theorem length_marker (name behind : Text) :
    (marker name behind).length = name.length + behind.length + 4 := by
  simp [marker]
  omega

theorem reads_pieces (txt : Text) : Reads txt (pieces txt) := by
  induction size : txt.length using Nat.strong_induction_on generalizing txt with
  | _ n induction =>
      cases txt with
      | nil => exact .nil
      | cons c rest =>
          rcases text_cases c rest with other | found | ⟨opens, none, unclosed⟩
          · rw [pieces_char other]
            exact .char other
              (induction rest.length (by rw [← size]; simp) rest rfl)
          · obtain ⟨name, behind, formed, same⟩ := found
            rw [same] at size ⊢
            rw [pieces_marker formed]
            have shorter : behind.length < n := by
              rw [← size, length_marker]
              omega
            exact .name formed (induction behind.length shorter behind rfl)
          · rw [pieces_stray opens unclosed]
            obtain rfl := hash_of_opensMarker opens
            exact .stray opens none
              (induction rest.length (by rw [← size]; simp) rest rfl)

/-- A text can be read in one way only. -/
theorem Reads.eq_pieces {txt : Text} {found : List Piece}
    (reads : Reads txt found) : found = pieces txt := by
  induction reads with
  | nil => rfl
  | name formed _ induction => rw [pieces_marker formed, induction]
  | @stray behind rest opens none _ induction =>
      rcases text_cases hash behind with other | found | ⟨_, _, unclosed⟩
      · rw [opens] at other
        cases other
      · obtain ⟨name, other, formed, same⟩ := found
        exact absurd same (none name other formed)
      · rw [pieces_stray opens unclosed, induction]
  | char other _ induction => rw [pieces_char other, induction]

theorem wellFormed_of_mem {txt name : Text} {found : List Piece}
    (reads : Reads txt found) (member : .name name ∈ found) :
    WellFormed name := by
  induction reads with
  | nil => cases member
  | name formed _ induction =>
      rcases List.mem_cons.mp member with first | later
      · obtain rfl := Piece.name.inj first
        exact formed
      · exact induction later
  | stray _ _ _ induction =>
      rcases List.mem_cons.mp member with first | later
      · cases first
      · exact induction later
  | char _ _ induction =>
      rcases List.mem_cons.mp member with first | later
      · cases first
      · exact induction later

/-! ## Expanding -/

/-- What the pieces of a text stand for: the value of a variable, or what a
template stands for, in the place of each name. -/
inductive Expands (tpls : Templates) :
    List TemplateVar → List Piece → Text → List TemplateVar → Prop where
  | nil {vars : List TemplateVar} : Expands tpls vars [] [] vars
  | char {vars after : List TemplateVar} {rest : List Piece} {out : Text}
      {c : UInt8} :
      Expands tpls vars rest out after →
      Expands tpls vars (.char c :: rest) (c :: out) after
  | stray {vars after : List TemplateVar} {rest : List Piece} {out : Text} :
      Expands tpls vars rest out after →
      Expands tpls vars (.stray :: rest) (hash :: out) after
  | var {vars after : List TemplateVar} {rest : List Piece} {name out : Text} :
      name.take 3 ≠ tplPrefix →
      Expands tpls (getVar vars name).2 rest out after →
      Expands tpls vars (.name name :: rest) ((getVar vars name).1 ++ out)
        after
  | tpl {vars between after : List TemplateVar} {inside rest : List Piece}
      {name value out : Text} :
      name.take 3 = tplPrefix → Reads (text tpls (name.drop 3)) inside →
      Expands tpls vars inside value between →
      Expands tpls between rest out after →
      Expands tpls vars (.name name :: rest) (value ++ out) after

/-- A text stands for one text only. -/
theorem Expands.unique {tpls : Templates} {vars after after' : List TemplateVar}
    {found : List Piece} {out out' : Text}
    (expands : Expands tpls vars found out after)
    (other : Expands tpls vars found out' after') :
    out' = out ∧ after' = after := by
  induction expands generalizing out' after' with
  | nil =>
      cases other
      exact ⟨rfl, rfl⟩
  | char _ induction =>
      cases other with
      | char rest =>
          obtain ⟨rfl, rfl⟩ := induction rest
          exact ⟨rfl, rfl⟩
  | stray _ induction =>
      cases other with
      | stray rest =>
          obtain ⟨rfl, rfl⟩ := induction rest
          exact ⟨rfl, rfl⟩
  | var plain _ induction =>
      cases other with
      | var _ rest =>
          obtain ⟨rfl, rfl⟩ := induction rest
          exact ⟨rfl, rfl⟩
      | tpl named => exact absurd named plain
  | tpl named reads _ _ first second =>
      cases other with
      | var plain => exact absurd named plain
      | tpl _ again value rest =>
          rw [again.eq_pieces, ← reads.eq_pieces] at value
          obtain ⟨rfl, rfl⟩ := first value
          obtain ⟨rfl, rfl⟩ := second rest
          exact ⟨rfl, rfl⟩

/-! ## The loop -/

variable {tpls : Templates} {vars : List TemplateVar} {result : Text}
  {fuel : Nat}

theorem getTplLoop_char {c : UInt8} {rest : Text}
    (other : opensMarker (c :: rest) = false) :
    getTplLoop tpls (fuel + 1) vars (c :: rest) result =
      getTplLoop tpls fuel vars rest (result ++ [c]) := by
  rw [getTplLoop, other, if_neg Bool.false_ne_true]

/-- A name is replaced, and the loop goes on behind it. -/
theorem getTplLoop_marker {name : Text} (formed : WellFormed name)
    (behind : Text) :
    getTplLoop tpls (fuel + 1) vars (marker name behind) result =
      if name.take 3 = tplPrefix then
        match getTpl tpls fuel vars (name.drop 3) with
        | none => none
        | some (value, vars) =>
            getTplLoop tpls fuel vars behind (result ++ value)
      else
        getTplLoop tpls fuel (getVar vars name).2 behind
          (result ++ (getVar vars name).1) := by
  have opens := opensMarker_marker formed behind
  have short := formed.short
  have place : 1 + name.length + 2 = name.length + 3 := by omega
  unfold marker at opens ⊢
  rw [getTplLoop, opens, if_pos rfl, scanName_marker formed]
  dsimp only
  rw [if_pos ⟨by omega, rfl⟩, place, drop_marker]
  rfl

/-- Where a `##` is left open the loop does not go on. -/
theorem getTplLoop_stray {behind : Text}
    (opens : opensMarker (hash :: behind) = true)
    (none : ∀ name other, WellFormed name →
      hash :: behind ≠ marker name other) :
    getTplLoop tpls (fuel + 1) vars (hash :: behind) result =
      getTplLoop tpls fuel vars (hash :: behind) result := by
  rcases text_cases hash behind with other | found | ⟨_, _, unclosed⟩
  · rw [opens] at other
    cases other
  · obtain ⟨name, other, formed, same⟩ := found
    exact absurd same (none name other formed)
  · conv_lhs => rw [getTplLoop, opens, if_pos rfl]
    dsimp only
    rw [if_neg unclosed]

/-- A loop that has ended ends in the same way with more turns. -/
theorem getTplLoop_succ {txt : Text} {ended : Text × List TemplateVar}
    (done : getTplLoop tpls fuel vars txt result = some ended) :
    getTplLoop tpls (fuel + 1) vars txt result = some ended := by
  induction fuel generalizing vars txt result ended with
  | zero => cases done
  | succ fuel induction =>
      obtain ⟨found, reads⟩ : ∃ found, Reads txt found :=
        ⟨pieces txt, reads_pieces txt⟩
      cases reads with
      | nil => exact done
      | char other _ =>
          rw [getTplLoop_char other] at done ⊢
          exact induction done
      | stray opens none _ =>
          rw [getTplLoop_stray opens none] at done ⊢
          exact induction done
      | @name name behind _ formed _ =>
          rw [getTplLoop_marker formed] at done ⊢
          split at done
          · rename_i named
            split at done
            · cases done
            rename_i inside
            have later : getTpl tpls (fuel + 1) vars (name.drop 3) =
                some _ := induction inside
            rw [if_pos named, later]
            exact induction done
          · rename_i plain
            rw [if_neg plain]
            exact induction done

theorem getTplLoop_le {txt : Text} {ended : Text × List TemplateVar}
    {more : Nat} (le : fuel ≤ more)
    (done : getTplLoop tpls fuel vars txt result = some ended) :
    getTplLoop tpls more vars txt result = some ended := by
  induction le with
  | refl => exact done
  | step _ induction => exact getTplLoop_succ induction

/-- A template includes another one. -/
def Includes (tpls : Templates) (outer inner : Text) : Prop :=
  ∃ name, .name name ∈ pieces (text tpls outer) ∧ name.take 3 = tplPrefix ∧
    name.drop 3 = inner

/-- `tpl_getTpl` comes to an end. -/
def Ends (tpls : Templates) (name : Text) : Prop :=
  ∃ fuel vars ended, getTpl tpls fuel vars name = some ended

/-- When the loop has ended, it has added what the pieces stand for, no `##`
was left open, and the templates that are included have ended. -/
theorem getTplLoop_ended {txt out : Text} {found : List Piece}
    {after : List TemplateVar} (reads : Reads txt found)
    (done : getTplLoop tpls fuel vars txt result = some (out, after)) :
    .stray ∉ found ∧
    (∃ added, out = result ++ added ∧ Expands tpls vars found added after) ∧
    ∀ name, .name name ∈ found → name.take 3 = tplPrefix →
      Ends tpls (name.drop 3) := by
  induction fuel generalizing vars txt result out found after with
  | zero => cases done
  | succ fuel induction =>
      cases reads with
      | nil =>
          rw [getTplLoop] at done
          obtain ⟨rfl, rfl⟩ := Prod.mk.inj (Option.some.inj done)
          exact ⟨List.not_mem_nil, ⟨[], by simp, .nil⟩, by simp⟩
      | char other rest =>
          rw [getTplLoop_char other] at done
          obtain ⟨closed, ⟨added, rfl, expands⟩, inner⟩ := induction rest done
          refine ⟨by simpa using closed,
            ⟨_ :: added, by simp, .char expands⟩, ?_⟩
          intro name member
          exact inner name (by simpa using member)
      | stray opens none rest =>
          rw [getTplLoop_stray opens none] at done
          obtain ⟨closed, -⟩ := induction (.stray opens none rest) done
          exact absurd List.mem_cons_self closed
      | @name name behind rest formed reads =>
          rw [getTplLoop_marker formed] at done
          split at done
          · rename_i named
            split at done
            · cases done
            rename_i value between inside
            obtain ⟨closed, ⟨added, rfl, expands⟩, inner⟩ :=
              induction reads done
            obtain ⟨-, ⟨value', same, insides⟩, -⟩ :=
              induction (reads_pieces (text tpls (name.drop 3))) inside
            rw [List.nil_append] at same
            subst same
            refine ⟨by simpa using closed, ⟨value ++ added, by simp,
              .tpl named (reads_pieces _) insides expands⟩, ?_⟩
            intro other member
            rcases List.mem_cons.mp member with first | later
            · obtain rfl := Piece.name.inj first
              exact fun _ => ⟨fuel, vars, _, inside⟩
            · exact inner other later
          · rename_i plain
            obtain ⟨closed, ⟨added, rfl, expands⟩, inner⟩ :=
              induction reads done
            refine ⟨by simpa using closed,
              ⟨(getVar vars name).1 ++ added, by simp, .var plain expands⟩, ?_⟩
            intro other member
            rcases List.mem_cons.mp member with first | later
            · obtain rfl := Piece.name.inj first
              exact fun named => absurd named plain
            · exact inner other later

/-- Without an open `##` the loop ends if the included templates do. -/
theorem getTplLoop_ends {txt : Text} {found : List Piece}
    (reads : Reads txt found) (closed : .stray ∉ found)
    (inner : ∀ name, .name name ∈ found → name.take 3 = tplPrefix →
      ∀ vars, ∃ fuel ended, getTpl tpls fuel vars (name.drop 3) = some ended)
    (vars : List TemplateVar) (result : Text) :
    ∃ fuel ended, getTplLoop tpls fuel vars txt result = some ended := by
  induction reads generalizing vars result with
  | nil => exact ⟨1, _, rfl⟩
  | @char c behind rest other _ induction =>
      obtain ⟨fuel, ended, done⟩ := induction
        (fun member => closed (List.mem_cons_of_mem _ member))
        (fun name member => inner name (List.mem_cons_of_mem _ member))
        vars (result ++ [c])
      refine ⟨fuel + 1, ended, ?_⟩
      rw [getTplLoop_char other, done]
  | stray => exact absurd List.mem_cons_self closed
  | @name name behind rest formed _ induction =>
      have later := induction
        (fun member => closed (List.mem_cons_of_mem _ member))
        (fun name member => inner name (List.mem_cons_of_mem _ member))
      by_cases named : name.take 3 = tplPrefix
      · obtain ⟨first, ⟨value, between⟩, inside⟩ :=
          inner name List.mem_cons_self named vars
        obtain ⟨second, ended, done⟩ := later between (result ++ value)
        have enough : getTpl tpls (first + second) vars (name.drop 3) =
            some (value, between) :=
          getTplLoop_le (Nat.le_add_right first second) inside
        refine ⟨first + second + 1, ended, ?_⟩
        rw [getTplLoop_marker formed, if_pos named, enough]
        exact getTplLoop_le (Nat.le_add_left second first) done
      · obtain ⟨fuel, ended, done⟩ := later (getVar vars name).2
          (result ++ (getVar vars name).1)
        refine ⟨fuel + 1, ended, ?_⟩
        rw [getTplLoop_marker formed, if_neg named, done]

/-! ## Templates -/

/-- Only finitely many names are short enough to be included. -/
theorem wellFounded_includes
    (acyclic : ∀ name, ¬ TransGen (Includes tpls) name name) :
    WellFounded fun inner outer => Includes tpls outer inner := by
  have bytes : Finite UInt8 :=
    Finite.of_injective UInt8.toFin fun _ _ => UInt8.toFin_inj.mp
  refine Relation.wellFounded_of_acyclic acyclic
    (List.finite_length_lt UInt8 30) ?_
  rintro outer inner ⟨name, member, _named, rfl⟩
  have short := (wellFormed_of_mem (reads_pieces _) member).short
  show (name.drop 3).length < 30
  rw [List.length_drop]
  omega

/-- The templates below an ended one have ended, and leave no `##` open. -/
theorem Ends.below {name other : Text} (ends : Ends tpls name)
    (path : ReflTransGen (Includes tpls) name other) :
    Ends tpls other ∧ .stray ∉ pieces (text tpls other) := by
  have closed {name : Text} (ends : Ends tpls name) :
      .stray ∉ pieces (text tpls name) := by
    obtain ⟨fuel, vars, ⟨out, after⟩, done⟩ := ends
    exact (getTplLoop_ended (reads_pieces _) done).1
  induction path with
  | refl => exact ⟨ends, closed ends⟩
  | tail _ step induction =>
      obtain ⟨fuel, vars, ⟨out, after⟩, done⟩ := induction.1
      obtain ⟨inner, member, named, rfl⟩ := step
      have below := (getTplLoop_ended (reads_pieces _) done).2.2 inner member
        named
      exact ⟨below, closed below⟩

/-- Templates without cycles and without an open `##` come to an end. -/
theorem getTpl_ends
    (acyclic : ∀ name, ¬ TransGen (Includes tpls) name name) {name : Text}
    (closed : ∀ other, ReflTransGen (Includes tpls) name other →
      .stray ∉ pieces (text tpls other)) (vars : List TemplateVar) :
    ∃ fuel ended, getTpl tpls fuel vars name = some ended := by
  induction name using (wellFounded_includes acyclic).induction
    generalizing vars with
  | _ name induction =>
      refine getTplLoop_ends (reads_pieces _) (closed name .refl) ?_ vars []
      intro inner member named vars
      have step : Includes tpls name (inner.drop 3) :=
        ⟨inner, member, named, rfl⟩
      exact induction _ step
        (fun other path => closed other (.head step path)) vars

/-- `tpl_getTpl` ends with the text that a template stands for if and only if
neither this template nor one below it leaves a `##` open. -/
theorem getTpl_iff (tpls : Templates)
    (acyclic : ∀ name, ¬ TransGen (Includes tpls) name name)
    (vars : List TemplateVar) (name : Text) :
    (∃ fuel out after, getTpl tpls fuel vars name = some (out, after) ∧
      ∃ found, Reads (text tpls name) found ∧
        Expands tpls vars found out after) ↔
      ∀ other, ReflTransGen (Includes tpls) name other →
        .stray ∉ pieces (text tpls other) := by
  constructor
  · rintro ⟨fuel, out, after, done, -⟩ other path
    exact (Ends.below ⟨fuel, vars, _, done⟩ path).2
  · intro closed
    obtain ⟨fuel, ⟨out, after⟩, done⟩ := getTpl_ends acyclic closed vars
    obtain ⟨-, ⟨added, rfl, expands⟩, -⟩ :=
      getTplLoop_ended (reads_pieces _) done
    exact ⟨fuel, _, after, done, _, reads_pieces _, expands⟩

/-! ## Two sets of templates -/

/-- The internal templates `A` and `B`: `##TPLB##-##X##` and `b`. -/
def twoTemplates : Templates where
  tplmap :=
    [([0x41], [0x23, 0x23, 0x54, 0x50, 0x4c, 0x42, 0x23, 0x23, 0x2d, 0x23,
        0x23, 0x58, 0x23, 0x23]),
      ([0x42], [0x62])]
  httpTpl := []
  files := fun _ => none

example :
    getTpl twoTemplates 9
        [{ name := [0x58], value := [0x78], vartype := .addOnce }] [0x41] =
      some ([0x62, 0x2d, 0x78],
        [{ name := [0x58], value := [], vartype := .addOnce }]) := by
  decide

theorem twoTemplates_text (name : Text) :
    name = [0x41] ∨ name = [0x42] ∨ text twoTemplates name = [] := by
  by_cases first : name = [0x41]
  · exact .inl first
  by_cases second : name = [0x42]
  · exact .inr (.inl second)
  refine .inr (.inr ?_)
  have firstKey : ¬ [0x41] = name := fun same => first same.symm
  have secondKey : ¬ [0x42] = name := fun same => second same.symm
  simp [text, getUnparsedTpl, twoTemplates, firstKey, secondKey, Monitor.cstr]

theorem twoTemplates_acyclic (name : Text) :
    ¬ TransGen (Includes twoTemplates) name name := by
  refine Relation.acyclic_of_rank
    (fun name => if name = [0x41] then 1 else 0) ?_ name
  rintro outer inner ⟨name, member, named, rfl⟩
  rcases twoTemplates_text outer with rfl | rfl | empty
  · have first : pieces (text twoTemplates [0x41]) =
        [.name [0x54, 0x50, 0x4c, 0x42], .char 0x2d, .name [0x58]] := by decide
    rw [first] at member
    simp only [List.mem_cons, Piece.name.injEq, reduceCtorEq,
      List.not_mem_nil, or_false, false_or] at member
    rcases member with rfl | rfl
    · decide
    · exact absurd named (by decide)
  · have second : pieces (text twoTemplates [0x42]) = [.char 0x62] := by
      decide
    rw [second] at member
    simp at member
  · rw [empty] at member
    cases member

theorem getTpl_iff_two :
    (∃ fuel out after, getTpl twoTemplates fuel [] [0x41] =
        some (out, after) ∧
      ∃ found, Reads (text twoTemplates [0x41]) found ∧
        Expands twoTemplates [] found out after) ↔
      ∀ other, ReflTransGen (Includes twoTemplates) [0x41] other →
        .stray ∉ pieces (text twoTemplates other) :=
  getTpl_iff twoTemplates twoTemplates_acyclic [] [0x41]

/-- The file `/A.tpl` with the text `5 ##`. -/
def openTemplate : Templates where
  tplmap := []
  httpTpl := [0x2f]
  files := fun path =>
    if path = [0x2f, 0x41, 0x2e, 0x74, 0x70, 0x6c] then
      some [0x35, 0x20, 0x23, 0x23]
    else none

theorem openTemplate_text (name : Text) :
    text openTemplate name = [0x35, 0x20, 0x23, 0x23] ∨
      text openTemplate name = [] := by
  unfold text getUnparsedTpl openTemplate
  dsimp only
  split_ifs
  · exact .inl rfl
  · exact .inr rfl
  · exact .inr rfl

/-- No template is included, and `tpl_getTpl` does not end. -/
theorem not_getTpl_open :
    (∀ name, ¬ TransGen (Includes openTemplate) name name) ∧
      ¬ ∃ fuel out after, getTpl openTemplate fuel [] [0x41] =
          some (out, after) ∧
        ∃ found, Reads (text openTemplate [0x41]) found ∧
          Expands openTemplate [] found out after := by
  constructor
  · refine Relation.acyclic_of_rank (fun _ => 0) ?_
    rintro outer inner ⟨name, member, _named, rfl⟩
    rcases openTemplate_text outer with same | empty
    · have read : pieces [0x35, 0x20, 0x23, 0x23] =
          [.char 0x35, .char 0x20, .stray, .char 0x23] := by decide
      rw [same, read] at member
      simp at member
    · rw [empty] at member
      cases member
  · rintro ⟨fuel, out, after, done, -⟩
    have closed := (Ends.below ⟨fuel, [], _, done⟩ .refl).2
    exact closed (by decide)

end Oscam.Http
