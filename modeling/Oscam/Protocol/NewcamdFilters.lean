import Mathlib.Algebra.BigOperators.Ring.List
import Mathlib.Data.List.Dedup
import Mathlib.Data.List.Perm.Subperm
import Oscam.Protocol.NewcamdCard

/-!
# The filters of newcamd users

At the login of a user `mk_user_ftab` makes one filter of the ports', the
user's and the readers' provider lists, and `mk_user_au_ftab` adds the
providers of the AU reader.  Both append to an array of `CS_MAXPROV` places.
-/

namespace Oscam.Newcamd

/-- `FILTER filt` while providers are appended. -/
structure UserFilter where
  caid : UInt16
  prids : List UInt32
  deriving DecidableEq, Repr

/-- The providers of a reader's card, `b2i(3, &prid[i][1])`. -/
def cardProviders (nprov : Nat) (prid : Nat → Memory) : List UInt32 :=
  (List.range nprov).map fun i => UInt32.ofNat ((prid i).number 1 3)

/-- An active reader. -/
structure FilterReader where
  grp : Grp
  isNetwork : Bool
  nprov : Nat
  prid : Nat → Memory
  ftab : List Filter

/-- The client: the caids of its `ctab` with their masks, and its filters. -/
structure FilterClient where
  grp : Grp
  ctab : List (UInt16 × UInt16)
  ftab : List Filter

/-- The search for the caid of the port in the `ctab`: the caid found and the
number of entries with a caid. -/
def searchCtab (target : UInt16) :
    List (UInt16 × UInt16) → Nat → UInt16 × Nat
  | [], c => (0, c)
  | entry :: ctab, c =>
      let caid := entry.1 &&& entry.2
      let c := if caid ≠ 0 then c + 1 else c
      if target = caid then (caid, c) else searchCtab target ctab c

/-- The search for the caid of the port in the filters of the client. -/
def searchFtab (target : UInt16) : List Filter → Nat → UInt16 × Nat
  | [], fcaids => (0, fcaids)
  | filt :: ftab, fcaids =>
      let fcaids := if filt.caid ≠ 0 then fcaids + 1 else fcaids
      if filt.caid ≠ 0 ∧ target = filt.caid then (filt.caid, fcaids)
      else searchFtab target ftab fcaids

/-- The first part of `mk_user_ftab`: the caid, if there is a valid one. -/
def userCaid (cl : FilterClient) (server : Filter) : Option UInt16 :=
  let (caid, c) := searchCtab server.caid cl.ctab 0
  if c ≠ 0 ∧ caid = 0 then none
  else if caid = 0 ∧ cl.ftab ≠ [] then
    let (caid, fcaids) := searchFtab server.caid cl.ftab 0
    if fcaids = cl.ftab.length ∧ caid = 0 then none
    else some (if caid = 0 then server.caid else caid)
  else some (if caid = 0 then server.caid else caid)

/-- The filter is for a caid. -/
def Filter.covers (filt : Filter) (caid : UInt16) : Bool :=
  filt.caid == 0 || filt.caid == caid

/-- The reader serves a provider. -/
def FilterReader.serves (rdr : FilterReader) (caid : UInt16) (prid : UInt32) :
    Bool :=
  if rdr.ftab.isEmpty then
    rdr.isNetwork || (cardProviders rdr.nprov rdr.prid).contains prid
  else
    rdr.ftab.any fun filt => filt.covers caid && filt.prids.contains prid

/-- `add` at the end of the loop through the readers. -/
def served (cl : FilterClient) (readers : List FilterReader) (caid : UInt16)
    (prid : UInt32) : Bool :=
  readers.any fun rdr => rdr.grp &&& cl.grp != 0 && rdr.serves caid prid

/-- What one filter of the client appends for a provider of the port. -/
def Filter.appended (filt : Filter) (prid : UInt32) : List UInt32 :=
  if filt.prids = [] then [prid] else filt.prids.filter (· == prid)

/-- The second part of `mk_user_ftab`. -/
def userPrids (cl : FilterClient) (readers : List FilterReader)
    (server : Filter) (caid : UInt16) : List UInt32 :=
  if cl.ftab = [] then server.prids.filter (served cl readers caid)
  else
    (cl.ftab.filter (·.covers caid)).flatMap fun filt =>
      server.prids.flatMap filt.appended

/-- `mk_user_ftab`; `server` is the filter of the port. -/
def mkUserFtab (cl : FilterClient) (readers : List FilterReader)
    (server : Filter) : UserFilter :=
  match userCaid cl server with
  | none => { caid := 0, prids := [] }
  | some caid => { caid := caid, prids := userPrids cl readers server caid }

/-- A provider is appended unless it is there. -/
def addNew (prids : List UInt32) (prid : UInt32) : List UInt32 :=
  if prid ∈ prids then prids else prids ++ [prid]

def AuReader.providers (aureader : AuReader) : List UInt32 :=
  cardProviders aureader.nprov aureader.prid

/-- `mk_user_au_ftab`; `pufilt` is the first filter of the client. -/
def mkUserAuFtab (aureader : AuReader) (pufilt : UserFilter) : UserFilter where
  caid := if aureader.caid = 0 then pufilt.caid else aureader.caid
  prids := pufilt.prids.foldl addNew aureader.providers

/-! ## What is asked of the filters -/

/-- There is room for all providers, and none is there twice. -/
structure UserFilter.Sound (filt : UserFilter) : Prop where
  nprids_le : filt.prids.length ≤ csMaxprov
  nodup : filt.prids.Nodup

/-- The filter of the user is sound, and its providers are from the port and
from a filter of the user. -/
structure UserRight (cl : FilterClient) (server : Filter)
    (filt : UserFilter) : Prop extends filt.Sound where
  ofServer : ∀ prid ∈ filt.prids, prid ∈ server.prids
  ofUser : ∀ prid ∈ filt.prids, cl.ftab ≠ [] →
    ∃ user ∈ cl.ftab, user.prids = [] ∨ prid ∈ user.prids

/-- The filter with the AU reader is sound, and its providers are from the
reader or from the filter of the user. -/
structure AuRight (aureader : AuReader) (pufilt filt : UserFilter) : Prop
    extends filt.Sound where
  contained : ∀ prid ∈ filt.prids,
    prid ∈ aureader.providers ∨ prid ∈ pufilt.prids

/-- Both filters that the login of a user builds. -/
def LoginRight (cl : FilterClient) (readers : List FilterReader)
    (server : Filter) (aureader : Option AuReader) : Prop :=
  let pufilt := mkUserFtab cl readers server
  UserRight cl server pufilt ∧
    ∀ au ∈ aureader, AuRight au pufilt (mkUserAuFtab au pufilt)

/-- How often the lists name a provider: once for each pair of its places in
the list of the port and in the filters of the user for the caid of the port,
of which an empty one names every provider once; without filters, once if a
reader of the user's groups serves it. -/
def admissions (cl : FilterClient) (readers : List FilterReader)
    (server : Filter) (prid : UInt32) : Nat :=
  if userCaid cl server = none then 0
  else
    server.prids.count prid *
      if cl.ftab = [] then
        if served cl readers server.caid prid then 1 else 0
      else
        ((cl.ftab.filter (·.covers server.caid)).map fun filt =>
          if filt.prids = [] then 1 else filt.prids.count prid).sum

/-! ## The caid -/

variable {cl : FilterClient} {readers : List FilterReader} {server : Filter}
  {prid : UInt32} {caid : UInt16}

/-- The search ends with the caid that it looks for, or with none. -/
theorem searchCtab_caid (target : UInt16) (ctab : List (UInt16 × UInt16))
    (c : Nat) :
    (searchCtab target ctab c).1 = target ∨ (searchCtab target ctab c).1 = 0 := by
  induction ctab generalizing c with
  | nil => exact .inr rfl
  | cons entry ctab induction =>
      rw [searchCtab]
      split
      · rename_i same
        exact .inl same.symm
      · exact induction _

theorem searchFtab_caid (target : UInt16) (ftab : List Filter) (c : Nat) :
    (searchFtab target ftab c).1 = target ∨ (searchFtab target ftab c).1 = 0 := by
  induction ftab generalizing c with
  | nil => exact .inr rfl
  | cons filt ftab induction =>
      rw [searchFtab]
      split
      · rename_i same
        exact .inl same.2.symm
      · exact induction _

/-- A valid caid is the one of the port. -/
theorem userCaid_eq (found : userCaid cl server = some caid) :
    caid = server.caid := by
  have ctab := searchCtab_caid server.caid cl.ctab 0
  have ftab := searchFtab_caid server.caid cl.ftab 0
  unfold userCaid at found
  dsimp only at found
  split at found
  · cases found
  · split at found
    · split at found
      · cases found
      · cases found
        split
        · rfl
        · exact ftab.resolve_right (by assumption)
    · cases found
      split
      · rfl
      · exact ctab.resolve_right (by assumption)

/-! ## The filter of the user -/

theorem count_appended (filt : Filter) (prids : List UInt32) (prid : UInt32) :
    (prids.flatMap filt.appended).count prid =
      prids.count prid *
        if filt.prids = [] then 1 else filt.prids.count prid := by
  induction prids with
  | nil => simp
  | cons other prids induction =>
      have here : (filt.appended other).count prid =
          if other = prid then
            if filt.prids = [] then 1 else filt.prids.count prid
          else 0 := by
        unfold Filter.appended
        by_cases same : other = prid
        · subst same
          rw [if_pos rfl]
          split
          · simp
          · rw [List.count_filter (by simp)]
        · rw [if_neg same]
          split
          · simp [same]
          · apply List.count_eq_zero_of_not_mem
            intro member
            have equal := (List.mem_filter.mp member).2
            exact same (beq_iff_eq.mp equal).symm
      rw [List.flatMap_cons, List.count_append, induction, here,
        List.count_cons]
      by_cases same : other = prid
      · simp only [same, if_true, beq_self_eq_true]
        ring
      · simp [same]

theorem count_userPrids (cl : FilterClient) (readers : List FilterReader)
    (server : Filter) (caid : UInt16) (prid : UInt32) :
    (userPrids cl readers server caid).count prid =
      server.prids.count prid *
        if cl.ftab = [] then if served cl readers caid prid then 1 else 0
        else
          ((cl.ftab.filter (·.covers caid)).map fun filt =>
            if filt.prids = [] then 1 else filt.prids.count prid).sum := by
  unfold userPrids
  split
  · by_cases add : served cl readers caid prid = true
    · rw [List.count_filter add, if_pos add, Nat.mul_one]
    · rw [if_neg add, Nat.mul_zero]
      apply List.count_eq_zero_of_not_mem
      intro member
      exact add (List.mem_filter.mp member).2
  · rw [List.count_flatMap, ← List.sum_map_mul_left]
    congr 1
    apply List.map_congr_left
    intro filt _
    exact count_appended filt server.prids prid

/-- A provider stands in the filter of the user as often as it is admitted. -/
theorem count_mkUserFtab (cl : FilterClient) (readers : List FilterReader)
    (server : Filter) (prid : UInt32) :
    (mkUserFtab cl readers server).prids.count prid =
      admissions cl readers server prid := by
  unfold mkUserFtab admissions
  cases found : userCaid cl server with
  | none => rfl
  | some caid =>
      rw [if_neg (Option.some_ne_none caid), userCaid_eq found]
      exact count_userPrids cl readers server server.caid prid

theorem mem_mkUserFtab_iff :
    prid ∈ (mkUserFtab cl readers server).prids ↔
      0 < admissions cl readers server prid := by
  rw [← count_mkUserFtab, List.count_pos_iff]

theorem mem_server_of_admitted
    (admitted : 0 < admissions cl readers server prid) :
    prid ∈ server.prids := by
  unfold admissions at admitted
  split at admitted
  · exact absurd admitted (Nat.lt_irrefl 0)
  · exact List.count_pos_iff.mp (Nat.pos_of_mul_pos_right admitted)

/-- The providers are from the filters of the user, if there are any. -/
theorem mem_user_of_member (named : cl.ftab ≠ [])
    (member : prid ∈ (mkUserFtab cl readers server).prids) :
    ∃ user ∈ cl.ftab, user.prids = [] ∨ prid ∈ user.prids := by
  unfold mkUserFtab at member
  cases found : userCaid cl server with
  | none =>
      rw [found] at member
      exact absurd member List.not_mem_nil
  | some caid =>
      rw [found] at member
      dsimp only at member
      rw [userPrids, if_neg named] at member
      obtain ⟨filt, listed, appended⟩ := List.mem_flatMap.mp member
      obtain ⟨other, _, there⟩ := List.mem_flatMap.mp appended
      refine ⟨filt, (List.mem_filter.mp listed).1, ?_⟩
      unfold Filter.appended at there
      split at there
      · exact .inl (by assumption)
      · exact .inr (List.mem_filter.mp there).1

/-- A list without doubles that is drawn from a filter fits into one. -/
theorem length_le_of_subset {prids : List UInt32} (nodup : prids.Nodup)
    (drawn : ∀ prid ∈ prids, prid ∈ server.prids) :
    prids.length ≤ csMaxprov :=
  (nodup.subperm drawn).length_le.trans server.nprids_le

theorem userRight_iff (cl : FilterClient) (readers : List FilterReader)
    (server : Filter) :
    UserRight cl server (mkUserFtab cl readers server) ↔
      ∀ prid ∈ server.prids, admissions cl readers server prid ≤ 1 := by
  have drawn : ∀ prid ∈ (mkUserFtab cl readers server).prids,
      prid ∈ server.prids := by
    intro prid member
    exact mem_server_of_admitted (mem_mkUserFtab_iff.mp member)
  constructor
  · intro right prid _
    rw [← count_mkUserFtab]
    exact List.nodup_iff_count_le_one.mp right.nodup prid
  · intro once
    have nodup : (mkUserFtab cl readers server).prids.Nodup := by
      rw [List.nodup_iff_count_le_one]
      intro prid
      rw [count_mkUserFtab]
      by_cases listed : prid ∈ server.prids
      · exact once prid listed
      · have never : ¬ 0 < admissions cl readers server prid :=
          fun admitted => listed (mem_server_of_admitted admitted)
        omega
    exact
      { nprids_le := length_le_of_subset nodup drawn
        nodup := nodup
        ofServer := drawn
        ofUser := fun _ member named => mem_user_of_member named member }

/-! ## The filter with the AU reader -/

theorem mem_foldl_addNew (start prids : List UInt32) :
    prid ∈ prids.foldl addNew start ↔ prid ∈ start ∨ prid ∈ prids := by
  induction prids generalizing start with
  | nil => simp
  | cons other prids induction =>
      rw [List.foldl_cons, induction, addNew]
      split
      · rename_i there
        constructor
        · rintro (inStart | later)
          · exact .inl inStart
          · exact .inr (List.mem_cons_of_mem _ later)
        · rintro (inStart | here)
          · exact .inl inStart
          · rcases List.mem_cons.mp here with rfl | later
            · exact .inl there
            · exact .inr later
      · simp only [List.mem_append, List.mem_cons, List.not_mem_nil,
          or_false, or_assoc]

/-- Only the list of the reader can have doubles. -/
theorem nodup_foldl_addNew (start prids : List UInt32) :
    (prids.foldl addNew start).Nodup ↔ start.Nodup := by
  induction prids generalizing start with
  | nil => exact Iff.rfl
  | cons other prids induction =>
      rw [List.foldl_cons, induction, addNew]
      split
      · exact Iff.rfl
      · rename_i new
        rw [List.nodup_append]
        constructor
        · exact fun parts => parts.1
        · intro nodup
          refine ⟨nodup, List.nodup_singleton other, ?_⟩
          rintro entry member last single rfl
          rw [List.mem_singleton.mp single] at member
          exact new member

/-- The providers of the AU reader and those that the user is admitted to,
each one once. -/
def auProviders (cl : FilterClient) (readers : List FilterReader)
    (server : Filter) (au : AuReader) : List UInt32 :=
  (au.providers ++ server.prids.filter fun prid =>
    0 < admissions cl readers server prid).dedup

theorem length_mkUserAuFtab {au : AuReader} (nodup : au.providers.Nodup) :
    (mkUserAuFtab au (mkUserFtab cl readers server)).prids.length =
      (auProviders cl readers server au).length := by
  have whole := (nodup_foldl_addNew au.providers
    (mkUserFtab cl readers server).prids).mpr nodup
  apply List.Perm.length_eq
  apply (List.perm_ext_iff_of_nodup whole (List.nodup_dedup _)).mpr
  intro prid
  have user : prid ∈ (mkUserFtab cl readers server).prids ↔
      prid ∈ server.prids.filter fun prid =>
        0 < admissions cl readers server prid := by
    rw [mem_mkUserFtab_iff, List.mem_filter, decide_eq_true_eq]
    exact ⟨fun admitted => ⟨mem_server_of_admitted admitted, admitted⟩,
      And.right⟩
  rw [mem_foldl_addNew, List.mem_dedup, List.mem_append, user]

theorem auRight_iff (cl : FilterClient) (readers : List FilterReader)
    (server : Filter) (au : AuReader) :
    AuRight au (mkUserFtab cl readers server)
        (mkUserAuFtab au (mkUserFtab cl readers server)) ↔
      au.providers.Nodup ∧
        (auProviders cl readers server au).length ≤ csMaxprov := by
  constructor
  · intro right
    have nodup := (nodup_foldl_addNew au.providers _).mp right.nodup
    refine ⟨nodup, ?_⟩
    rw [← length_mkUserAuFtab nodup]
    exact right.nprids_le
  · rintro ⟨nodup, few⟩
    rw [← length_mkUserAuFtab nodup] at few
    exact
      { nprids_le := few
        nodup := (nodup_foldl_addNew au.providers _).mpr nodup
        contained := fun _ member => (mem_foldl_addNew _ _).mp member }

/-- The filters that a login builds are right if and only if no provider of
the port is admitted twice and the AU reader has no double and not too many
providers beside those that are admitted. -/
theorem loginRight_iff (cl : FilterClient) (readers : List FilterReader)
    (server : Filter) (aureader : Option AuReader) :
    LoginRight cl readers server aureader ↔
      (∀ prid ∈ server.prids, admissions cl readers server prid ≤ 1) ∧
        ∀ au ∈ aureader, au.providers.Nodup ∧
          (auProviders cl readers server au).length ≤ csMaxprov := by
  have au (au : AuReader) := auRight_iff cl readers server au
  simp only [LoginRight, userRight_iff, au]

/-- A filter of the port 0x0500 with some providers. -/
def somePort (prids : List UInt32) (fits : prids.length ≤ csMaxprov) :
    Filter where
  caid := 0x0500
  prids := prids
  nprids_le := fits

/-- A user with twice the same caid without providers. -/
def someUser : FilterClient where
  grp := 1
  ctab := []
  ftab := [⟨0x0500, [], by decide⟩, ⟨0x0500, [], by decide⟩]

/-- With two open filters every provider of the port is appended twice, and 17
of them run over the end of the array. -/
theorem providers_twice :
    let port := somePort ((List.range 17).map fun i => UInt32.ofNat i)
      (by decide)
    ¬ LoginRight someUser [] port none ∧
      (mkUserFtab someUser [] port).prids.length = 34 := by
  constructor
  · intro right
    exact absurd right.1.nprids_le (by decide)
  · decide

end Oscam.Newcamd
