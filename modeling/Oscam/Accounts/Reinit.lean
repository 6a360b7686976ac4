import Mathlib.Tactic.IntervalCases
import Oscam.Lib.Chain

/-!
# Duplicate sessions at an account reload

`cs_fake_client` marks sessions of one user as duplicates, and
`cs_reinit_clients` calls it for every session of the client list when the
accounts are read again.
-/

namespace Oscam

/-! ## Accounts and sessions -/

/-- What a session takes over from its account. -/
structure Settings where
  grp : Nat
  autoau : Bool
  expirationdate : Int
  allowedtimeframe : Int × Int
  ncdKeepalive : Bool
  c35Suppresscmd08 : Bool
  tosleep : Int
  c35Sleepsend : Nat
  monlvl : Int
  disabled : Bool
  fchid : List (Nat × List Nat)
  cltab : List Nat × List Nat
  ftab : List (Nat × List Nat)
  sidtabok : Nat
  sidtabno : Nat
  failban : Nat
  ctab : List (Nat × Nat × Nat)
  ttab : List (Nat × Nat × Nat)
  deriving DecidableEq, Repr

/-- Empty settings. -/
def Settings.zero : Settings :=
  { grp := 0, autoau := false, expirationdate := 0, allowedtimeframe := (0, 0)
    ncdKeepalive := false, c35Suppresscmd08 := false, tosleep := 0
    c35Sleepsend := 0, monlvl := 0, disabled := false, fchid := []
    cltab := ([], []), ftab := [], sidtabok := 0, sidtabno := 0, failban := 0
    ctab := [], ttab := [] }

structure Account where
  usr : String
  pwd : String
  uniq : Int
  aureaderList : Option (List Nat)
  settings : Settings
  deriving DecidableEq, Repr

/-- The `typ` of a client: 'c', 'm', or one of the others. -/
inductive ClientTyp where
  | client
  | monitor
  | reader
  | proxy
  | http
  | master
  deriving DecidableEq, Repr

/-- A record of the client list.  `connNet` says whether its module is a
network module. -/
structure Session where
  addr : Nat
  typ : ClientTyp
  ip : Nat
  connNet : Bool
  ncdServer : Bool
  account : Option Account
  pcrc : Nat
  dup : Bool
  aureaderList : Option (List Nat)
  settings : Settings
  deriving DecidableEq, Repr

/-- The clients behind `first_client`. -/
abbrev ClientList : Type := Chain Session Session.addr

/-- What a reload reads: the new accounts, the account of the first client,
`cfg.dropdups`, the thread that runs it and the checksum of a password. -/
structure Reload where
  newAccounts : List Account
  firstAccount : Option Account
  dropdups : Bool
  self : Option Nat
  pwdCrc : String → Nat

namespace Session

/-- A session of the user. -/
def OfUser (usr : String) (cl : Session) : Prop :=
  cl.typ = .client ∧ ∃ account ∈ cl.account, account.usr = usr

instance (usr : String) (cl : Session) : Decidable (cl.OfUser usr) :=
  inferInstanceAs (Decidable (_ ∧ ∃ account ∈ _, _))

def setFake (cl : Session) : Session :=
  { cl with dup := true, aureaderList := none }

def setAccount (account : Option Account) (cl : Session) : Session :=
  { cl with account := account }

/-- The test of `cs_fake_client` for another session. -/
def Duplicates (usr : String) (uniq : Int) (ip : Nat) (cl : Session) : Prop :=
  cl.OfUser usr ∧ cl.dup = false ∧ uniq < 5 ∧ (uniq.tmod 2 ≠ 0 ∨ cl.ip ≠ ip)

instance (usr : String) (uniq : Int) (ip : Nat) (cl : Session) :
    Decidable (cl.Duplicates usr uniq ip) :=
  inferInstanceAs (Decidable (_ ∧ _ ∧ _ ∧ _))

/-- What a session takes over; newcamd keeps its ident filter, and only
clients take over more than the account. -/
def adopt (account : Account) (cl : Session) : Session :=
  if cl.typ = .client then
    { cl with
      account := some account
      aureaderList := account.aureaderList
      settings :=
        { account.settings with
          tosleep := 60 * account.settings.tosleep
          ftab :=
            if cl.ncdServer then cl.settings.ftab
            else account.settings.ftab } }
  else { cl with account := some account }

theorem addr_setFake (cl : Session) : cl.setFake.addr = cl.addr := rfl

theorem addr_setFake_if (faked : Session → Prop) [DecidablePred faked]
    (cl : Session) : (if faked cl then cl.setFake else cl).addr = cl.addr := by
  split <;> rfl

theorem addr_setAccount (account : Option Account) (cl : Session) :
    (cl.setAccount account).addr = cl.addr := rfl

theorem addr_adopt (account : Account) (cl : Session) :
    (cl.adopt account).addr = cl.addr := by
  unfold adopt
  split <;> rfl

end Session

/-! ## `cs_fake_client` and `cs_reinit_clients` -/

namespace ClientList

/-- `kill_thread`: a thread does not kill itself. -/
def killThread (reload : Reload) (clients : ClientList) (a : Nat) :
    ClientList :=
  if reload.self = some a then clients else clients.remove a

/-- The sessions `cs_fake_client` goes by. -/
def fakes (clients : ClientList) (client : Nat) (usr : String) (uniq : Int)
    (ip : Nat) : List Session :=
  clients.cells.filter fun cl =>
    cl.addr ≠ client ∧ cl.Duplicates usr uniq ip

/-- `cs_fake_client`: with `uniq` 3 or 4 the other sessions are set to fake,
else the session itself.  With `dropdups` the thread of a fake ends. -/
def fakeClient (reload : Reload) (clients : ClientList) (client : Nat)
    (usr : String) (uniq : Int) (ip : Nat) : ClientList :=
  if uniq = 3 ∨ uniq = 4 then
    let marked := clients.mapCells
      (fun cl =>
        if cl.addr ≠ client ∧ cl.Duplicates usr uniq ip then cl.setFake
        else cl)
      (Session.addr_setFake_if _)
    if reload.dropdups then
      (clients.fakes client usr uniq ip).foldl
        (fun clients cl => killThread reload clients cl.addr) marked
    else marked
  else if clients.fakes client usr uniq ip ≠ [] then
    let marked := clients.modify client (·.setFake) Session.addr_setFake
    if reload.dropdups then marked.remove client else marked
  else clients

/-- The test of `cs_reinit_clients` for a session of an account. -/
def accepts (reload : Reload) (account : Account) (cl : Session) : Bool :=
  !account.settings.disabled && cl.pcrc == reload.pwdCrc account.pwd

/-- `uniq` 1 and 2 are taken as 3 and 4. -/
def reloadUniq (uniq : Int) : Int :=
  if uniq = 1 ∨ uniq = 2 then uniq + 2 else uniq

/-- A session whose account is accepted. -/
def renew (reload : Reload) (clients : ClientList) (cl : Session)
    (account : Account) : ClientList :=
  let clients :=
    clients.modify cl.addr (·.adopt account) (Session.addr_adopt account)
  if cl.typ = .client ∧ account.uniq ≠ 0 then
    fakeClient reload clients cl.addr account.usr (reloadUniq account.uniq)
      cl.ip
  else clients

/-- A session whose account is gone, disabled or has another password. -/
def refuse (reload : Reload) (clients : ClientList) (cl : Session) :
    ClientList :=
  if cl.connNet then killThread reload clients cl.addr
  else
    clients.modify cl.addr (·.setAccount reload.firstAccount)
      (Session.addr_setAccount _)

/-- The account of the same name in the new table. -/
def newAccount (reload : Reload) (cl : Session) : Option Account :=
  cl.account.bind fun old => reload.newAccounts.find? (·.usr = old.usr)

/-- The loop body of `cs_reinit_clients`. -/
def reinitClient (reload : Reload) (clients : ClientList) (a : Nat) :
    ClientList :=
  match clients.get? a with
  | none => clients
  | some cl =>
      if (cl.typ = .client ∨ cl.typ = .monitor) ∧ cl.account ≠ none then
        match newAccount reload cl with
        | some account =>
            if accepts reload account cl then renew reload clients cl account
            else refuse reload clients cl
        | none => refuse reload clients cl
      else clients.modify a (·.setAccount none) (Session.addr_setAccount none)

/-- `cs_reinit_clients`: the client list is walked once. -/
def reinitClients (reload : Reload) (clients : ClientList) : ClientList :=
  clients.addresses.foldl (reinitClient reload) clients

/-! ## One session of the walk -/

section Walk

variable {reload : Reload} {clients : ClientList} {a b : Nat}

/-- Whether the visit of session `x` sets `cl` to fake. -/
def fakedBy (reload : Reload) (x cl : Session) : Bool :=
  (newAccount reload x).any fun account =>
    x.typ == .client && accepts reload account x &&
      (reloadUniq account.uniq == 3 || reloadUniq account.uniq == 4) &&
      decide (cl.Duplicates account.usr (reloadUniq account.uniq) x.ip)

theorem get?_killThread_of_ne (other : a ≠ b) :
    (killThread reload clients b).get? a = clients.get? a := by
  unfold killThread
  split
  · rfl
  · exact Chain.get?_remove_of_ne clients other

theorem get?_refuse_of_ne {x : Session} (other : a ≠ x.addr) :
    (refuse reload clients x).get? a = clients.get? a := by
  unfold refuse
  split
  · exact get?_killThread_of_ne other
  · exact Chain.get?_modify_of_ne clients _ _ other

theorem get?_fakeClient_self {usr : String} {uniq : Int} {ip : Nat}
    (staying : reload.dropdups = false) (last : uniq = 3 ∨ uniq = 4) :
    (fakeClient reload clients a usr uniq ip).get? a = clients.get? a := by
  simp only [fakeClient, if_pos last, staying, Bool.false_eq_true, if_false]
  rw [Chain.get?_mapCells]
  cases found : clients.get? a with
  | none => rfl
  | some cl => simp [(Chain.get?_eq_some_iff.mp found).2]

theorem get?_fakeClient_of_ne {usr : String} {uniq : Int} {ip : Nat}
    (staying : reload.dropdups = false) (other : a ≠ b) :
    (fakeClient reload clients b usr uniq ip).get? a =
      (clients.get? a).map fun cl =>
        if (uniq = 3 ∨ uniq = 4) ∧ cl.Duplicates usr uniq ip then cl.setFake
        else cl := by
  by_cases last : uniq = 3 ∨ uniq = 4
  · simp only [fakeClient, if_pos last, staying, Bool.false_eq_true, if_false]
    rw [Chain.get?_mapCells]
    cases found : clients.get? a with
    | none => rfl
    | some cl =>
        have elsewhere : cl.addr ≠ b := by
          rw [(Chain.get?_eq_some_iff.mp found).2]
          exact other
        simp [last, elsewhere]
  · simp only [fakeClient, staying, Bool.false_eq_true, if_false,
      last, false_and, Option.map_id']
    split
    · exact Chain.get?_modify_of_ne clients _ _ other
    · rfl

theorem get?_renew_of_ne {x : Session} {account : Account}
    (staying : reload.dropdups = false) (other : a ≠ x.addr) :
    (renew reload clients x account).get? a =
      (clients.get? a).map fun cl =>
        if x.typ == .client &&
            (reloadUniq account.uniq == 3 || reloadUniq account.uniq == 4) &&
            decide (cl.Duplicates account.usr (reloadUniq account.uniq) x.ip)
          then cl.setFake
        else cl := by
  have adopted := Chain.get?_modify_of_ne clients (·.adopt account)
    (Session.addr_adopt account) other
  unfold renew
  dsimp only
  split
  · rename_i visited
    rw [get?_fakeClient_of_ne staying other, adopted]
    simp [visited.1]
  · rename_i skipped
    rw [adopted]
    by_cases client : x.typ = .client
    · have none : account.uniq = 0 := by
        by_contra some
        exact skipped ⟨client, some⟩
      simp [none, reloadUniq]
    · simp [client]

/-- A visit leaves the other sessions, except that it sets some to fake. -/
theorem get?_reinitClient_of_ne (staying : reload.dropdups = false)
    (other : a ≠ b) :
    (reinitClient reload clients b).get? a =
      (clients.get? a).map fun cl =>
        if (clients.get? b).any (fakedBy reload · cl) then cl.setFake
        else cl := by
  unfold reinitClient
  cases found : clients.get? b with
  | none => simp
  | some x =>
      obtain ⟨_, rfl⟩ := Chain.get?_eq_some_iff.mp found
      rcases Option.eq_none_or_eq_some (newAccount reload x) with
        known | ⟨account, known⟩
      · simp only [Option.any_some, fakedBy, known, Option.any_none,
          Bool.false_eq_true, if_false, Option.map_id']
        split
        · exact get?_refuse_of_ne other
        · exact Chain.get?_modify_of_ne clients _ _ other
      · simp only [Option.any_some, fakedBy, known]
        split
        · by_cases accepted : accepts reload account x
          · rw [if_pos accepted, get?_renew_of_ne staying other]
            simp [accepted]
          · rw [if_neg accepted, get?_refuse_of_ne other]
            simp [accepted]
        · rename_i apart
          have elsewhere : x.typ ≠ .client := by
            intro same
            apply apart
            constructor
            · exact .inl same
            · intro missing
              simp [newAccount, missing] at known
          rw [Chain.get?_modify_of_ne clients _ _ other]
          simp [elsewhere]

end Walk

/-! ## The sessions of one user -/

/-- The user has the account in the new table, it is enabled and has `uniq`
1 to 4, and fakes are not disconnected. -/
structure ReloadsUser (reload : Reload) (usr : String) (account : Account) :
    Prop where
  found : reload.newAccounts.find? (·.usr = usr) = some account
  enabled : account.settings.disabled = false
  uniq : 1 ≤ account.uniq ∧ account.uniq ≤ 4
  staying : reload.dropdups = false

/-- Two sessions of one user may not go together. -/
def Clash (uniq : Int) (ip other : Nat) : Prop := uniq.tmod 2 ≠ 0 ∨ other ≠ ip

instance (uniq : Int) (ip other : Nat) : Decidable (Clash uniq ip other) :=
  inferInstanceAs (Decidable (_ ∨ _))

/-- The password of the user is unchanged for the sessions at these
addresses. -/
def PasswordKept (reload : Reload) (usr : String) (account : Account)
    (clients : ClientList) (order : List Nat) : Prop :=
  ∀ a ∈ order, ∀ cl ∈ clients.get? a, cl.OfUser usr →
    cl.pcrc = reload.pwdCrc account.pwd

section User

variable {reload : Reload} {clients : ClientList} {usr : String}
  {account : Account} {a b : Nat} {x y : Session}

theorem reloadUniq_cases {uniq : Int} (range : 1 ≤ uniq ∧ uniq ≤ 4) :
    (reloadUniq uniq = 3 ∨ reloadUniq uniq = 4) ∧
      (reloadUniq uniq).tmod 2 = uniq.tmod 2 := by
  obtain ⟨low, high⟩ := range
  interval_cases uniq <;> decide

theorem ReloadsUser.named (user : ReloadsUser reload usr account) :
    account.usr = usr := by
  have named := List.find?_some user.found
  simpa using named

theorem ReloadsUser.newAccount (user : ReloadsUser reload usr account)
    (member : y.OfUser usr) : newAccount reload y = some account := by
  obtain ⟨_, old, known, named⟩ := member
  rw [Option.mem_def] at known
  simp only [ClientList.newAccount, known, Option.bind_some, named]
  exact user.found

theorem ReloadsUser.accepts (user : ReloadsUser reload usr account)
    (kept : y.pcrc = reload.pwdCrc account.pwd) :
    accepts reload account y = true := by
  simp [ClientList.accepts, user.enabled, kept]

/-- Exactly the sessions of the user set a session of the user to fake. -/
theorem fakedBy_iff (user : ReloadsUser reload usr account)
    (member : y.OfUser usr)
    (kept : x.OfUser usr → x.pcrc = reload.pwdCrc account.pwd) :
    fakedBy reload x y = true ↔
      x.OfUser usr ∧ y.dup = false ∧ Clash account.uniq x.ip y.ip := by
  obtain ⟨last, parity⟩ := reloadUniq_cases user.uniq
  constructor
  · intro faked
    obtain ⟨next, known, visited⟩ := Option.any_eq_true _ _ |>.mp faked
    simp only [Bool.and_eq_true, decide_eq_true_eq, beq_iff_eq] at visited
    obtain ⟨⟨⟨client, _⟩, _⟩, sameUser, fresh, _, clash⟩ := visited
    -- both sessions are of the user of `next`
    obtain ⟨old, listed, looked⟩ := Option.bind_eq_some_iff.mp known
    have named : next.usr = old.usr := by
      simpa using List.find?_some looked
    obtain ⟨_, current, mine, nextUser⟩ := sameUser
    obtain ⟨_, other, also, userName⟩ := member
    have equal : current = other := Option.some.inj (mine.symm.trans also)
    have ofUser : x.OfUser usr := by
      refine ⟨client, old, listed, ?_⟩
      rw [← named, ← nextUser, equal, userName]
    have same : next = account :=
      Option.some.inj (known.symm.trans (user.newAccount ofUser))
    subst same
    rw [parity] at clash
    exact ⟨ofUser, fresh, clash⟩
  · rintro ⟨ofUser, fresh, clash⟩
    refine (Option.any_eq_true _ _).mpr
      ⟨account, user.newAccount ofUser, ?_⟩
    have small : reloadUniq account.uniq < 5 := by
      rcases last with three | four
      · omega
      · omega
    have duplicates : y.Duplicates account.usr (reloadUniq account.uniq)
        x.ip := by
      refine ⟨?_, fresh, small, ?_⟩
      · rw [user.named]
        exact member
      · rw [parity]
        exact clash
    simp only [Bool.and_eq_true, decide_eq_true_eq, beq_iff_eq,
      Bool.or_eq_true]
    exact ⟨⟨⟨ofUser.1, user.accepts (kept ofUser)⟩, last⟩, duplicates⟩

/-- A session of the user takes its new account when it is visited. -/
theorem get?_reinitClient_self (user : ReloadsUser reload usr account)
    (found : clients.get? a = some y) (member : y.OfUser usr)
    (kept : y.pcrc = reload.pwdCrc account.pwd) :
    (reinitClient reload clients a).get? a = some (y.adopt account) := by
  obtain ⟨_, rfl⟩ := Chain.get?_eq_some_iff.mp found
  have logged : (y.typ = .client ∨ y.typ = .monitor) ∧ y.account ≠ none := by
    obtain ⟨client, old, known, _⟩ := member
    constructor
    · exact .inl client
    · intro missing
      rw [missing] at known
      cases known
  have chosen : account.uniq ≠ 0 := by
    have range := user.uniq
    omega
  have renewed : reinitClient reload clients y.addr =
      renew reload clients y account := by
    simp only [reinitClient, found, if_pos logged, user.newAccount member,
      user.accepts kept, if_true]
  rw [renewed, renew, if_pos ⟨member.1, chosen⟩,
    get?_fakeClient_self user.staying (reloadUniq_cases user.uniq).1,
    Chain.get?_modify_self, found]
  rfl

theorem adopt_frame (named : account.usr = usr) (member : y.OfUser usr) :
    (y.adopt account).OfUser usr ∧ (y.adopt account).dup = y.dup ∧
      (y.adopt account).ip = y.ip ∧ (y.adopt account).pcrc = y.pcrc := by
  have client := member.1
  rw [Session.adopt, if_pos client]
  exact ⟨⟨client, account, rfl, named⟩, rfl, rfl, rfl⟩

/-- What one visit does to a session of the user. -/
theorem get?_reinitClient_user (user : ReloadsUser reload usr account)
    (kept : PasswordKept reload usr account clients [b])
    (found : clients.get? a = some y) (member : y.OfUser usr) :
    ∃ later, (reinitClient reload clients b).get? a = some later ∧
      later.OfUser usr ∧ later.ip = y.ip ∧
      (later.dup = true ↔ y.dup = true ∨ b ≠ a ∧
        ∃ x ∈ clients.get? b, x.OfUser usr ∧ Clash account.uniq x.ip y.ip) := by
  by_cases same : a = b
  · subst same
    have visited := get?_reinitClient_self user found member
      (kept a List.mem_cons_self y found member)
    obtain ⟨ofUser, dup, ip, _⟩ := adopt_frame user.named member
    refine ⟨y.adopt account, visited, ofUser, ip, ?_⟩
    simp [dup]
  · have visited : (reinitClient reload clients b).get? a =
        (clients.get? a).map fun cl =>
          if (clients.get? b).any (fakedBy reload · cl) then cl.setFake
          else cl :=
      get?_reinitClient_of_ne user.staying same
    rw [found, Option.map_some] at visited
    by_cases faked : (clients.get? b).any (fakedBy reload · y)
    · rw [if_pos faked] at visited
      refine ⟨y.setFake, visited, member, rfl, ?_⟩
      obtain ⟨x, listed, by_x⟩ := (Option.any_eq_true _ _).mp faked
      obtain ⟨ofUser, _, clash⟩ := (fakedBy_iff user member
        (kept b List.mem_cons_self x listed)).mp by_x
      constructor
      · intro _
        exact .inr ⟨Ne.symm same, x, listed, ofUser, clash⟩
      · intro _
        rfl
    · rw [if_neg faked] at visited
      refine ⟨y, visited, member, rfl, ?_⟩
      constructor
      · exact .inl
      · rintro (dup | ⟨_, x, listed, ofUser, clash⟩)
        · exact dup
        · by_contra fresh
          apply faked
          refine (Option.any_eq_true _ _).mpr ⟨x, listed, ?_⟩
          exact (fakedBy_iff user member
            (kept b List.mem_cons_self x listed)).mpr
            ⟨ofUser, by simpa using fresh, clash⟩

/-- A visit changes no other session but for setting it to fake. -/
theorem get?_reinitClient_back (user : ReloadsUser reload usr account)
    (other : a ≠ b) (found : (reinitClient reload clients b).get? a = some y) :
    ∃ before, clients.get? a = some before ∧
      (y.OfUser usr ↔ before.OfUser usr) ∧ y.ip = before.ip ∧
      y.pcrc = before.pcrc := by
  rw [get?_reinitClient_of_ne user.staying other] at found
  obtain ⟨before, listed, rfl⟩ := Option.map_eq_some_iff.mp found
  refine ⟨before, listed, ?_⟩
  split <;> exact ⟨Iff.rfl, rfl, rfl⟩

/-- What a walk does to a session of the user: it is fake if it was, or if a
visited session of the user may not go together with it. -/
theorem get?_walk (user : ReloadsUser reload usr account) {order : List Nat}
    (fresh : order.Nodup)
    (kept : PasswordKept reload usr account clients order)
    (found : clients.get? a = some y) (member : y.OfUser usr) :
    ∃ later, (order.foldl (reinitClient reload) clients).get? a = some later ∧
      later.OfUser usr ∧
      (later.dup = true ↔ y.dup = true ∨ ∃ b ∈ order, b ≠ a ∧
        ∃ x ∈ clients.get? b, x.OfUser usr ∧ Clash account.uniq x.ip y.ip) := by
  induction order generalizing clients y with
  | nil =>
      refine ⟨y, found, member, ?_⟩
      simp
  | cons b order induction =>
      obtain ⟨unvisited, rest⟩ := List.nodup_cons.mp fresh
      have head : PasswordKept reload usr account clients [b] := by
        intro c listed
        rw [List.mem_singleton.mp listed]
        exact kept b List.mem_cons_self
      obtain ⟨next, visited, nextUser, nextIp, nextDup⟩ :=
        get?_reinitClient_user user head found member
      have apart : ∀ c ∈ order, c ≠ b := by
        rintro c listed rfl
        exact unvisited listed
      have tail : PasswordKept reload usr account
          (reinitClient reload clients b) order := by
        intro c listed x there ofUser
        obtain ⟨before, was, user', _, pcrc⟩ :=
          get?_reinitClient_back user (apart c listed) there
        rw [pcrc]
        exact kept c (List.mem_cons_of_mem b listed) before was
          (user'.mp ofUser)
      obtain ⟨later, reached, laterUser, laterDup⟩ :=
        induction rest tail visited nextUser
      refine ⟨later, reached, laterUser, laterDup.trans ?_⟩
      rw [nextDup, nextIp]
      constructor
      · rintro ((dup | ⟨other, x, there, ofUser, clash⟩) |
          ⟨c, listed, other, x, there, ofUser, clash⟩)
        · exact .inl dup
        · exact .inr ⟨b, List.mem_cons_self, other, x, there, ofUser, clash⟩
        · obtain ⟨before, was, user', ip, _⟩ :=
            get?_reinitClient_back user (apart c listed) there
          refine .inr ⟨c, List.mem_cons_of_mem b listed, other, before, was,
            user'.mp ofUser, ?_⟩
          rw [← ip]
          exact clash
      · rintro (dup | ⟨c, listed, other, x, there, ofUser, clash⟩)
        · exact .inl (.inl dup)
        · rcases List.mem_cons.mp listed with rfl | listed
          · exact .inl (.inr ⟨other, x, there, ofUser, clash⟩)
          · obtain ⟨now, later, nowUser, ip, _⟩ :=
              get?_reinitClient_user user head there ofUser
            refine .inr ⟨c, listed, other, now, later, nowUser, ?_⟩
            rw [ip]
            exact clash

end User

/-! ## Whether a session stays -/

/-- If a session of the user is no duplicate before the reload, then one of
these sessions is none afterwards. -/
def SomeoneStays (usr : String) (before after : ClientList) : Prop :=
  (∃ cl ∈ before.cells, cl.OfUser usr ∧ cl.dup = false) →
    ∃ cl ∈ after.cells, cl.OfUser usr ∧ cl.dup = false ∧
      ∃ old ∈ before.cells, old.OfUser usr ∧ old.addr = cl.addr

/-- A session of the user that is no duplicate goes together with all other
sessions of the user, whether they are duplicates or not. -/
def SomeoneFits (usr : String) (uniq : Int) (clients : ClientList) : Prop :=
  (∃ cl ∈ clients.cells, cl.OfUser usr ∧ cl.dup = false) →
    ∃ cl ∈ clients.cells, cl.OfUser usr ∧ cl.dup = false ∧
      ∀ other ∈ clients.cells, other.OfUser usr → other.addr ≠ cl.addr →
        ¬ Clash uniq other.ip cl.ip

/-- After a reload with unchanged passwords a session of the user stays if and
only if one of them goes together with all the others. -/
theorem someoneStays_iff {reload : Reload} {usr : String} {account : Account}
    (clients : ClientList) (user : ReloadsUser reload usr account)
    (unchanged : ∀ cl ∈ clients.cells, cl.OfUser usr →
      cl.pcrc = reload.pwdCrc account.pwd) :
    SomeoneStays usr clients (reinitClients reload clients) ↔
      SomeoneFits usr account.uniq clients := by
  have kept : PasswordKept reload usr account clients clients.addresses := by
    intro a _ cl found
    exact unchanged cl (Chain.get?_eq_some_iff.mp found).1
  have walked : ∀ {a y}, clients.get? a = some y → y.OfUser usr → _ :=
    fun found member => get?_walk user clients.distinct kept found member
  apply imp_congr_right
  intro _
  constructor
  · rintro ⟨cl, listed, _, stays, old, was, ofUser, same⟩
    have found : clients.get? cl.addr = some old :=
      Chain.get?_eq_some_iff.mpr ⟨was, same⟩
    obtain ⟨later, reached, _, dup⟩ := walked found ofUser
    have equal : later = cl := by
      have here : (reinitClients reload clients).get? cl.addr = some cl :=
        Chain.get?_eq_some_iff.mpr ⟨listed, rfl⟩
      exact Option.some.inj (reached.symm.trans here)
    rw [equal, stays] at dup
    have clean := not_or.mp (dup.not.mp Bool.false_ne_true)
    refine ⟨old, was, ofUser, by simpa using clean.1, ?_⟩
    intro other there otherUser apart clash
    apply clean.2
    refine ⟨other.addr, List.mem_map_of_mem there, ?_, other, ?_, otherUser,
      clash⟩
    · rw [← same]
      exact apart
    · exact Chain.get?_eq_some_iff.mpr ⟨there, rfl⟩
  · rintro ⟨old, was, ofUser, fresh, fits⟩
    have found : clients.get? old.addr = some old :=
      Chain.get?_eq_some_iff.mpr ⟨was, rfl⟩
    obtain ⟨later, reached, laterUser, dup⟩ := walked found ofUser
    obtain ⟨listed, same⟩ := Chain.get?_eq_some_iff.mp reached
    refine ⟨later, listed, laterUser, ?_, old, was, ofUser, same.symm⟩
    by_contra marked
    rcases dup.mp (by simpa using marked) with already |
      ⟨b, _, apart, x, there, xUser, clash⟩
    · rw [fresh] at already
      exact Bool.false_ne_true already
    · obtain ⟨xListed, rfl⟩ := Chain.get?_eq_some_iff.mp there
      exact fits x xListed xUser apart clash

instance (usr : String) (before after : ClientList) :
    Decidable (SomeoneStays usr before after) :=
  inferInstanceAs (Decidable ((∃ cl ∈ _, _ ∧ _) →
    ∃ cl ∈ _, _ ∧ _ ∧ ∃ old ∈ _, _ ∧ _))

instance (usr : String) (uniq : Int) (clients : ClientList) :
    Decidable (SomeoneFits usr uniq clients) :=
  inferInstanceAs (Decidable ((∃ cl ∈ _, _ ∧ _) →
    ∃ cl ∈ _, _ ∧ _ ∧ ∀ other ∈ _, _ → _ → ¬ _))

/-- A reload of one account. -/
def reloadOf (account : Account) : Reload :=
  { newAccounts := [account], firstAccount := none, dropdups := false
    self := none, pwdCrc := fun _ => 7 }

def accountOf (uniq : Int) : Account :=
  { usr := "user", pwd := "secret", uniq := uniq, aureaderList := none
    settings := Settings.zero }

/-- A duplicate session of the account, and a newer one that is none. -/
def twoSessions (account : Account) (ip newer : Nat) : ClientList where
  cells :=
    [{ addr := 1, typ := .client, ip := ip, connNet := true
       ncdServer := false, account := some account, pcrc := 7, dup := true
       aureaderList := none, settings := Settings.zero },
     { addr := 2, typ := .client, ip := newer, connNet := true
       ncdServer := false, account := some account, pcrc := 7, dup := false
       aureaderList := none, settings := Settings.zero }]
  distinct := by
    simp

theorem reloadsUser_reloadOf {uniq : Int} (range : 1 ≤ uniq ∧ uniq ≤ 4) :
    ReloadsUser (reloadOf (accountOf uniq)) "user" (accountOf uniq) where
  found := by
    simp [reloadOf, accountOf]
  enabled := rfl
  uniq := range
  staying := rfl

/-- From one address both sessions go together. -/
theorem someoneStays_iff_same_ip :
    SomeoneStays "user" (twoSessions (accountOf 4) 5 5)
      (reinitClients (reloadOf (accountOf 4))
        (twoSessions (accountOf 4) 5 5)) := by
  refine (someoneStays_iff (twoSessions (accountOf 4) 5 5)
    (reloadsUser_reloadOf (by decide)) ?_).mpr (by decide)
  decide

/-- The visit of the duplicate sets the newer session to fake. -/
theorem nobody_stays :
    ¬ ∀ (reload : Reload) (usr : String) (account : Account)
        (clients : ClientList), ReloadsUser reload usr account →
      (∀ cl ∈ clients.cells, cl.OfUser usr →
        cl.pcrc = reload.pwdCrc account.pwd) →
      SomeoneStays usr clients (reinitClients reload clients) := by
  intro always
  have stays := always (reloadOf (accountOf 3)) "user" (accountOf 3)
    (twoSessions (accountOf 3) 5 6) (reloadsUser_reloadOf (by decide))
    (by decide)
  revert stays
  decide

end ClientList

end Oscam
