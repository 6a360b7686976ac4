import Oscam.Simples

/-!
# Templates of the web interface

`tpl_getTpl` reads a template from a file or from the internal table and copies
it, with the value of a variable or another template in the place of each
`##NAME##`.  A text is the list of its bytes.
-/

namespace Oscam.Http

open Monitor (cstr)

abbrev Text : Type := List UInt8

/-- The character `#`. -/
abbrev hash : UInt8 := 0x23

/-! ## Variables -/

/-- `TPLADD`, `TPLAPPEND`, `TPLADDONCE` and `TPLAPPENDONCE`. -/
inductive AddMode where
  | add
  | append
  | addOnce
  | appendOnce
  deriving DecidableEq, Repr

/-- An entry of `struct templatevars`. -/
structure TemplateVar where
  name : Text
  value : Text
  vartype : AddMode
  deriving DecidableEq, Repr

/-- One-time variables are emptied when they are read. -/
def AddMode.once (mode : AddMode) : Bool :=
  mode == .addOnce || mode == .appendOnce

/-- The search for a name from the last variable on. -/
def getVarFrom (name : Text) : List TemplateVar → Text × List TemplateVar
  | [] => ([], [])
  | entry :: older =>
      if entry.name = name then
        (entry.value,
          if entry.vartype.once then { entry with value := [] } :: older
          else entry :: older)
      else
        let found := getVarFrom name older
        (found.1, entry :: found.2)

/-- `tpl_getVar`: the value, and the variables behind it. -/
def getVar (vars : List TemplateVar) (name : Text) :
    Text × List TemplateVar :=
  let found := getVarFrom name vars.reverse
  (found.1, found.2.reverse)

/-- The variable of a name is a one-time variable. -/
def isOnce (vars : List TemplateVar) (name : Text) : Bool :=
  (vars.reverse.find? fun entry => entry.name = name).any fun entry =>
    entry.vartype.once

theorem getVarFrom_again (name : Text) (vars : List TemplateVar) :
    (getVarFrom name (getVarFrom name vars).2).1 =
      if (vars.find? fun entry => entry.name = name).any
          (fun entry => entry.vartype.once) then []
      else (getVarFrom name vars).1 := by
  induction vars with
  | nil => rfl
  | cons entry older induction =>
      by_cases same : entry.name = name
      · cases once : entry.vartype.once <;> simp [getVarFrom, same, once]
      · simpa [getVarFrom, same] using induction

theorem getVarFrom_other {name other : Text} (different : other ≠ name)
    (vars : List TemplateVar) :
    (getVarFrom other (getVarFrom name vars).2).1 =
      (getVarFrom other vars).1 := by
  induction vars with
  | nil => rfl
  | cons entry older induction =>
      by_cases same : entry.name = name
      · have notOther : ¬ name = other := fun equal => different equal.symm
        cases once : entry.vartype.once <;>
          simp [getVarFrom, same, once, notOther]
      · by_cases found : entry.name = other
        · simp [getVarFrom, found, different]
        · simpa [getVarFrom, same, found] using induction

/-- A one-time variable has its value only once. -/
theorem getVar_again (vars : List TemplateVar) (name : Text) :
    (getVar (getVar vars name).2 name).1 =
      if isOnce vars name then [] else (getVar vars name).1 := by
  unfold getVar isOnce
  dsimp only
  rw [List.reverse_reverse]
  exact getVarFrom_again name vars.reverse

/-- The other variables keep their values. -/
theorem getVar_other {name other : Text} (different : other ≠ name)
    (vars : List TemplateVar) :
    (getVar (getVar vars name).2 other).1 = (getVar vars other).1 := by
  simpa [getVar] using getVarFrom_other different vars.reverse

/-! ## The texts -/

/-- The internal templates (`tpl` and `tplmap`), `cfg.http_tpl`, and the files
that can be opened. -/
structure Templates where
  tplmap : List (Text × Text)
  httpTpl : Text
  files : Text → Option Text

/-- `tpl_getTplPath`; the end of the name is `.tpl`. -/
def getTplPath (name path : Text) (resultsize : Nat) : Text :=
  if path.length + name.length + 6 ≤ resultsize then
    path ++ (name ++ [0x2e, 0x74, 0x70, 0x6c]).map fun c =>
      if c = 0x2f ∨ c = 0x5c then 0x20 else c
  else []

/-- `tpl_getUnparsedTpl`. -/
def getUnparsedTpl (tpls : Templates) (name : Text) : Text :=
  let internal :=
    match tpls.tplmap.find? fun entry => entry.1 = name with
    | some entry => entry.2
    | none => []
  let path := getTplPath name tpls.httpTpl 255
  if tpls.httpTpl ≠ [] ∧ path ≠ [] then (tpls.files path).getD internal
  else internal

/-- The text of a template up to its NUL. -/
def text (tpls : Templates) (name : Text) : Text :=
  cstr (getUnparsedTpl tpls name)

/-! ## Replacing -/

/-- `##`, and then another character. -/
def opensMarker : Text → Bool
  | first :: second :: rest =>
      first == hash && second == hash && rest.head? != some hash
  | _ => false

/-- The characters up to the next `##`, and whether there is one. -/
def scanName : Text → Text × Bool
  | [] => ([], false)
  | [c] => ([c], false)
  | c :: next :: rest =>
      if c = hash ∧ next = hash then ([], true)
      else
        let found := scanName (next :: rest)
        (c :: found.1, found.2)

/-- `"TPL"`. -/
abbrev tplPrefix : Text := [0x54, 0x50, 0x4c]

/-- The loop of `tpl_getTpl` from some place of the template on: the result and
the variables, or `none` when it has not ended after `fuel` turns. -/
def getTplLoop (tpls : Templates) : Nat → List TemplateVar → Text → Text →
    Option (Text × List TemplateVar)
  | 0, _, _, _ => none
  | _ + 1, vars, [], result => some (result, vars)
  | fuel + 1, vars, c :: rest, result =>
      if opensMarker (c :: rest) then
        let (varname, closed) := scanName (rest.drop 1)
        if varname.length + 2 < 32 ∧ closed then
          let behind := rest.drop (1 + varname.length + 2)
          if varname.take 3 = tplPrefix then
            match getTplLoop tpls fuel vars (text tpls (varname.drop 3)) [] with
            | none => none
            | some (value, vars) =>
                getTplLoop tpls fuel vars behind (result ++ value)
          else
            let (value, vars) := getVar vars varname
            getTplLoop tpls fuel vars behind (result ++ value)
        else
          -- the place in the template stays the same
          getTplLoop tpls fuel vars (c :: rest) result
      else getTplLoop tpls fuel vars rest (result ++ [c])

/-- `tpl_getTpl`. -/
def getTpl (tpls : Templates) (fuel : Nat) (vars : List TemplateVar)
    (name : Text) : Option (Text × List TemplateVar) :=
  getTplLoop tpls fuel vars (text tpls name) []

end Oscam.Http
