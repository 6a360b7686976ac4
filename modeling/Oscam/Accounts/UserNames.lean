import Oscam.Config.Services
import Oscam.Lib.Renaming
import Oscam.Numerals

/-!
# The names of accounts

`init_userdb` reads oscam.user.  A name that another account has already is
changed: the list of accounts is gone through once, and every account with the
same name appends `_x` to it.
-/

namespace Oscam.UserNames

open Monitor (trim isBlank splitAt ascii)
open Services (token isHeader maxLineSize sections fileSections)

/-- `s_auth`.  `named` says that a line with a name was read; the program does
not store this. -/
structure Account where
  usr : List UInt8
  named : Bool
  deriving DecidableEq, Repr

/-! ## Reading the file -/

/-- `strncat(value, "_x", sizeof(usr) - strlen(value) - 1)`.  The bound is a
`size_t`, which is huge for a longer text. -/
def addX (value : List UInt8) : List UInt8 :=
  value ++ (ascii "_x").take
    (if value.length ≤ 63 then 63 - value.length
      else 2 ^ 64 + 63 - value.length)

/-- The comparison with one account. -/
def compareName (value : List UInt8) (probe : Account) : List UInt8 :=
  if probe.usr = trim value then addX (trim value) else trim value

/-- The state of the loop: if the section is one of an account, the accounts in
front of the current one, and the current one. -/
structure Loading where
  tag : Bool
  front : List Account
  account : Option Account

def Loading.accounts (s : Loading) : List Account :=
  s.front ++ s.account.toList

/-- A line with a name. -/
def readUser (s : Loading) (value : List UInt8) : Loading :=
  let value := s.accounts.foldl compareName value
  { s with
    account := s.account.map fun _ =>
      { usr := csStrncpy 64 (trim value), named := true } }

/-- A turn of the loop of `init_userdb`. -/
def readLine (s : Loading) (line : List UInt8) : Loading :=
  if (token line).length < 3 then s
  else if isHeader line then
    { tag := strtolower ((token line).dropLast.drop 1) = ascii "account"
      front := s.accounts
      account := some { usr := [], named := false } }
  else if ¬ s.tag then s
  else
    match splitAt 61 (token line) with
    | none => s
    | some (key, value) =>
        if trim (strtolower key) = ascii "user" then readUser s value else s

def startLoading : Loading := { tag := false, front := [], account := none }

/-- `init_userdb`. -/
def initUserdb (file : List UInt8) : List Account :=
  ((fgetsLines maxLineSize file).foldl readLine startLoading).accounts

/-! ## What is asked -/

/-- The names of the accounts that have one. -/
def namesOf (accounts : List Account) : List (List UInt8) :=
  (accounts.filter (·.named)).map (·.usr)

/-- The value of a line with a name. -/
def userValue (line : List UInt8) : Option (List UInt8) :=
  if (token line).length < 3 then none
  else
    match splitAt 61 (token line) with
    | none => none
    | some (key, value) =>
        if trim (strtolower key) = ascii "user" then some (trim value) else none

/-- The section is one of an account. -/
def isAccount (header : List UInt8) : Bool :=
  strtolower ((token header).dropLast.drop 1) = ascii "account"

/-- The names that a section gives its account, one after the other. -/
def valuesOf (part : List UInt8 × List (List UInt8)) : List (List UInt8) :=
  if isAccount part.1 then part.2.filterMap userValue else []

/-- These names for every section of a file. -/
def userValues (file : List UInt8) : List (List (List UInt8)) :=
  (fileSections file).map valuesOf

/-- The account when a name has been read. -/
def applyUser (front : List Account) (account : Account)
    (value : List UInt8) : Account :=
  { usr := csStrncpy 64 (trim ((front ++ [account]).foldl compareName value))
    named := true }

def accountOf (front : List Account) (values : List (List UInt8)) : Account :=
  values.foldl (applyUser front) { usr := [], named := false }

/-- The accounts of sections with these names. -/
def accountsOf (values : List (List (List UInt8))) : List Account :=
  values.foldl (fun front values => front ++ [accountOf front values]) []

/-- With as many `_x` behind it as the names in front of it and its own old name
demand in their order, the name is not one of those in front of it. -/
def Apart (front : List Account) (usr value : List UInt8) : Prop :=
  ∀ k, Renaming.Meets addX (front.map (·.usr) ++ [usr]) value k →
    csStrncpy 64 (addX^[k] value) ∉ namesOf front

/-- This holds for the last name of every account. -/
def AllApart (values : List (List (List UInt8))) : Prop :=
  ∀ before own after, values = before ++ own :: after →
    ∀ earlier value, own = earlier ++ [value] →
      Apart (accountsOf before) (accountOf (accountsOf before) earlier).usr
        value

/-! ## Sections -/

/-- What the lines of a section make of its account. -/
def readSection (front : List Account) (tag : Bool) (lines : List (List UInt8))
    (account : Account) : Account :=
  if tag then (lines.filterMap userValue).foldl (applyUser front) account
  else account

theorem compareName_trim (value : List UInt8) (probe : Account) :
    compareName (trim value) probe = compareName value probe := by
  unfold compareName
  rw [trim_trim]

theorem readUser_eq (s : Loading) (value : List UInt8) :
    readUser s value =
      { s with
        account := s.account.map fun account =>
          applyUser s.front account (trim value) } := by
  unfold readUser
  cases h : s.account with
  | none => rfl
  | some account =>
      have same : (s.front ++ [account]).foldl compareName (trim value) =
          (s.front ++ [account]).foldl compareName value := by
        obtain ⟨probe, probes, split⟩ := List.exists_cons_of_ne_nil
          (List.concat_ne_nil account s.front)
        rw [split, List.foldl_cons, List.foldl_cons, compareName_trim]
      simp only [Loading.accounts, h, Option.toList_some, Option.map_some,
        applyUser, same]

theorem readLine_of_not_header {line : List UInt8}
    (inside : isHeader line = false) (s : Loading) :
    readLine s line =
      { s with
        account := s.account.map (readSection s.front s.tag [line]) } := by
  have none (unset : s.tag = true → userValue line = Option.none) :
      readSection s.front s.tag [line] = id := by
    funext account
    unfold readSection
    by_cases set : s.tag = true
    · simp [set, unset set]
    · simp [set]
  unfold readLine
  by_cases short : (token line).length < 3
  · rw [if_pos short, none fun _ => if_pos short, Option.map_id]
    rfl
  rw [if_neg short, inside, if_neg Bool.false_ne_true]
  by_cases set : s.tag = true
  · rw [if_neg (not_not.mpr set)]
    have value : userValue line =
        match splitAt 61 (token line) with
        | Option.none => Option.none
        | some (key, value) =>
            if trim (strtolower key) = ascii "user" then some (trim value)
            else Option.none := if_neg short
    cases parted : splitAt 61 (token line) with
    | none =>
        rw [parted] at value
        rw [none fun _ => value, Option.map_id]
        rfl
    | some pair =>
        obtain ⟨key, text⟩ := pair
        rw [parted] at value
        dsimp only at value ⊢
        by_cases user : trim (strtolower key) = ascii "user"
        · rw [if_pos user] at value ⊢
          rw [readUser_eq]
          unfold readSection
          simp [set, value]
        · rw [if_neg user] at value ⊢
          rw [none fun _ => value, Option.map_id]
          rfl
  · rw [if_pos set, none fun yes => absurd yes set, Option.map_id]
    rfl

theorem readLine_of_header {line : List UInt8} (header : isHeader line = true)
    (s : Loading) :
    readLine s line =
      { tag := isAccount line, front := s.accounts
        account := some { usr := [], named := false } } := by
  have long := ((Services.isHeader_iff line).mp header).1
  unfold readLine
  rw [if_neg (by omega), if_pos header]
  rfl

theorem readSection_nil (front : List Account) (tag : Bool) :
    readSection front tag [] = id := by
  funext account
  unfold readSection
  split <;> rfl

theorem readSection_cons (front : List Account) (tag : Bool)
    (line : List UInt8) (lines : List (List UInt8)) (account : Account) :
    readSection front tag (line :: lines) account =
      readSection front tag lines (readSection front tag [line] account) := by
  unfold readSection
  cases tag with
  | false => rfl
  | true =>
      have split : line :: lines = [line] ++ lines := rfl
      rw [if_pos rfl, if_pos rfl, if_pos rfl, split, List.filterMap_append,
        List.foldl_append]

/-- What the loop over the lines reads, section by section. -/
theorem accounts_foldl (lines : List (List UInt8)) (s : Loading) :
    (lines.foldl readLine s).accounts =
      ((sections lines).2.map valuesOf).foldl
        (fun front values => front ++ [accountOf front values])
        (s.front ++
          (s.account.map
            (readSection s.front s.tag (sections lines).1)).toList) := by
  induction lines generalizing s with
  | nil =>
      show s.accounts = s.front ++ (s.account.map _).toList
      rw [sections, readSection_nil, Option.map_id]
      rfl
  | cons line lines induction =>
      rw [List.foldl_cons, induction]
      by_cases header : isHeader line = true
      · simp only [sections, header, if_true, List.map_cons, List.foldl_cons]
        rw [readLine_of_header header, readSection_nil, Option.map_id]
        unfold valuesOf accountOf readSection
        dsimp only [Option.map_some, Option.toList_some]
        cases isAccount line <;> rfl
      · have inside := Bool.eq_false_iff.mpr header
        rw [readLine_of_not_header inside]
        simp only [sections, inside, Bool.false_eq_true, if_false,
          Option.map_map]
        congr 4
        funext account
        exact (readSection_cons _ _ _ _ _).symm

/-- The accounts of a file are those of its sections. -/
theorem initUserdb_eq (file : List UInt8) :
    initUserdb file = accountsOf (userValues file) :=
  accounts_foldl (fgetsLines maxLineSize file) startLoading

/-! ## The name of an account -/

variable {value : List UInt8}

/-- There are no blanks to cut off. -/
def Trimmed (value : List UInt8) : Prop := trim value = value

theorem head_of_trimmed (trimmed : Trimmed value) : value.head? ≠ some 32 := by
  have first := head_trim value
  rwa [trimmed] at first

/-- Nothing is cut off that ends with no blank. -/
theorem trimmed_append {back : List UInt8} (trimmed : Trimmed value)
    (plain : ∀ c ∈ back, isBlank c = false) : Trimmed (value ++ back) := by
  by_cases none : back = []
  · rw [none, List.append_nil]
    exact trimmed
  · have first : (value ++ back).head? ≠ some 32 := by
      by_cases empty : value = []
      · rw [empty, List.nil_append]
        intro blank
        have kept := plain 32 (List.mem_of_head? blank)
        cases kept
      · rw [List.head?_append_of_ne_nil _ empty]
        exact head_of_trimmed trimmed
    have last : ∀ c ∈ (value ++ back).getLast?, isBlank c = false := by
      intro c member
      rw [List.getLast?_append_of_ne_nil _ none] at member
      exact plain c (List.mem_of_getLast? member)
    have whole : trim (value ++ back ++ []) = value ++ back :=
      trim_append_of_ends (List.append_ne_nil_of_right_ne_nil _ none) first last
        (by simp)
    rwa [List.append_nil] at whole

theorem trimmed_addX (trimmed : Trimmed value) : Trimmed (addX value) := by
  apply trimmed_append trimmed
  intro c member
  have letters := List.mem_of_mem_take member
  rcases List.mem_cons.mp letters with rfl | rest
  · rfl
  · rw [List.mem_singleton.mp rest]
    rfl

theorem foldl_compareName (trimmed : Trimmed value) (accounts : List Account) :
    accounts.foldl compareName value =
        Renaming.rename addX (accounts.map (·.usr)) value ∧
      Trimmed (accounts.foldl compareName value) := by
  unfold Renaming.rename
  induction accounts generalizing value with
  | nil => exact ⟨rfl, trimmed⟩
  | cons account accounts induction =>
      have turn : compareName value account =
          if account.usr = value then addX value else value := by
        unfold compareName
        rw [trimmed]
      rw [List.foldl_cons, List.map_cons, List.foldl_cons, turn]
      split
      · exact induction (trimmed_addX trimmed)
      · exact induction trimmed

/-- The name that is stored. -/
theorem applyUser_eq (trimmed : Trimmed value) (front : List Account)
    (account : Account) :
    applyUser front account value =
      { usr := csStrncpy 64 (addX^[Renaming.met addX
          (front.map (·.usr) ++ [account.usr]) value] value)
        named := true } := by
  obtain ⟨same, still⟩ := foldl_compareName trimmed (front ++ [account])
  unfold applyUser
  rw [still, same, Renaming.rename_eq, List.map_append, List.map_singleton]

/-- A stored name is not one of those in front of it if and only if its number
of `_x` keeps it apart. -/
theorem apart_iff (trimmed : Trimmed value) (front : List Account)
    (account : Account) :
    Apart front account.usr value ↔
      (applyUser front account value).usr ∉ namesOf front := by
  rw [applyUser_eq trimmed]
  constructor
  · intro apart
    exact apart _ (Renaming.meets_iff.mpr rfl)
  · intro other k meets
    rw [Renaming.meets_iff.mp meets]
    exact other

/-! ## All names -/

theorem accountsOf_append (values : List (List (List UInt8)))
    (own : List (List UInt8)) :
    accountsOf (values ++ [own]) =
      accountsOf values ++ [accountOf (accountsOf values) own] := by
  unfold accountsOf
  rw [List.foldl_append]
  rfl

theorem accountOf_append (front : List Account)
    (earlier : List (List UInt8)) (value : List UInt8) :
    accountOf front (earlier ++ [value]) =
      applyUser front (accountOf front earlier) value := by
  unfold accountOf
  rw [List.foldl_append]
  rfl

theorem nodup_accountsOf_iff {values : List (List (List UInt8))}
    (trimmed : ∀ own ∈ values, ∀ value ∈ own, Trimmed value) :
    (namesOf (accountsOf values)).Nodup ↔ AllApart values := by
  induction values using List.reverseRecOn with
  | nil =>
      refine iff_of_true List.nodup_nil ?_
      intro before own after split
      have length := congrArg List.length split
      simp at length
  | append_singleton values own induction =>
      have rest := induction fun other member =>
        trimmed other (List.mem_append_left _ member)
      have last : AllApart (values ++ [own]) ↔ AllApart values ∧
          ∀ earlier value, own = earlier ++ [value] →
            Apart (accountsOf values)
              (accountOf (accountsOf values) earlier).usr value :=
        Separated.forall_split_append_singleton
      rw [last, ← rest, accountsOf_append]
      rcases List.eq_nil_or_concat own with rfl | ⟨earlier, value, rfl⟩
      · have unnamed : namesOf (accountsOf values ++
            [accountOf (accountsOf values) []]) =
              namesOf (accountsOf values) := by
          simp [namesOf, accountOf]
        rw [unnamed]
        simp
      · rw [List.concat_eq_append] at trimmed ⊢
        have plain := trimmed (earlier ++ [value]) (by simp) value (by simp)
        have named : namesOf (accountsOf values ++
            [accountOf (accountsOf values) (earlier ++ [value])]) =
              namesOf (accountsOf values) ++
                [(applyUser (accountsOf values)
                  (accountOf (accountsOf values) earlier) value).usr] := by
          rw [accountOf_append]
          simp [namesOf, applyUser]
        rw [named, ← List.concat_eq_append, List.nodup_concat,
          ← apart_iff plain]
        constructor
        · rintro ⟨apart, distinct⟩
          refine ⟨distinct, ?_⟩
          intro earlier' value' split
          obtain ⟨rfl, same⟩ := List.append_inj' split rfl
          cases same
          exact apart
        · rintro ⟨distinct, apart⟩
          exact ⟨apart earlier value rfl, distinct⟩

theorem trimmed_userValues {file : List UInt8} :
    ∀ own ∈ userValues file, ∀ value ∈ own, Trimmed value := by
  intro own listed value member
  obtain ⟨part, _, rfl⟩ := List.mem_map.mp listed
  unfold valuesOf at member
  split at member
  · obtain ⟨line, _, given⟩ := List.mem_filterMap.mp member
    unfold userValue at given
    split at given
    · cases given
    · split at given
      · cases given
      · split at given
        · cases given
          exact trim_trim _
        · cases given
  · cases member

/-- The names of the accounts are pairwise distinct if and only if the number of
`_x` keeps the last name of every account apart from those in front of it. -/
theorem userNames_distinct_iff (file : List UInt8) :
    (namesOf (initUserdb file)).Nodup ↔ AllApart (userValues file) := by
  rw [initUserdb_eq]
  exact nodup_accountsOf_iff trimmed_userValues

/-- An account with the name that a later duplicate gets. -/
def duplicates : List UInt8 :=
  ascii "[account]\nuser=a_x\n[account]\nuser=a\n[account]\nuser=a\n"

/-- The third name becomes the first one, which was passed before. -/
theorem duplicates_not_distinct :
    ¬ (namesOf (initUserdb duplicates)).Nodup := by
  decide

end Oscam.UserNames
