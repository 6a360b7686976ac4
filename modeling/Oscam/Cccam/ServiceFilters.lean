import Oscam.Cccam.ShareLimits
import Oscam.Stat.Records
import Oscam.Lib.Verdict

/-!
# The services of a client

`chk_srvid` decides whether a client may ask for a service, and
`chk_srvid_by_caid_prov` whether it may see a card.  The second one skips every
service of the configuration that has neither a caid nor a provider.
-/

namespace Oscam.Cccam

/-- The loop of `chk_srvid`. -/
def chkSrvidServices (cl : ShareClient) (er : EcmRequest) :
    List (Sidtab × Nat) → Bool → Bool
  | [], rc => rc
  | (sidtab, nr) :: tables, rc =>
      if sidtab.caid.isEmpty && sidtab.provid.isEmpty &&
          sidtab.srvid.isEmpty then
        chkSrvidServices cl er tables rc
      else if cl.sidtabno.testBit nr && Stat.chkSrvidMatch er sidtab then
        false
      else
        chkSrvidServices cl er tables
          (rc || cl.sidtabok.testBit nr && Stat.chkSrvidMatch er sidtab)

/-- `chk_srvid`. -/
def chkSrvid (cfg : ShareCfg) (cl : ShareClient) (er : EcmRequest) : Bool :=
  if cl.sidtabok = 0 ∧ cl.sidtabno = 0 then true
  else chkSrvidServices cl er cfg.sidtab.zipIdx (cl.sidtabok == 0)

/-! ## What the filters look at -/

/-- An entry with a list of caids or of providers, the only kind that
`chk_srvid_by_caid_prov` looks at. -/
def Sidtab.NamesCards (sidtab : Sidtab) : Prop :=
  sidtab.caid ≠ [] ∨ sidtab.provid ≠ []

instance (sidtab : Sidtab) : Decidable sidtab.NamesCards :=
  inferInstanceAs (Decidable (_ ∨ _))

/-- An entry with a list of any kind. -/
def Sidtab.Used (sidtab : Sidtab) : Prop :=
  sidtab.NamesCards ∨ sidtab.srvid ≠ []

instance (sidtab : Sidtab) : Decidable sidtab.Used :=
  inferInstanceAs (Decidable (_ ∨ _))

/-- An entry matches a request when it matches the card and names the service
or no service at all. -/
theorem chkSrvidMatch_eq (er : EcmRequest) (sidtab : Sidtab) :
    Stat.chkSrvidMatch er sidtab =
      (chkSrvidMatchByCaidProv er.caid er.prid sidtab &&
        (sidtab.srvid.isEmpty || sidtab.srvid.contains er.srvid)) :=
  rfl

theorem matches_services {caid provid : Nat} {sidtab : Sidtab}
    (services : ¬sidtab.NamesCards) :
    chkSrvidMatchByCaidProv caid provid sidtab = true := by
  have empty : sidtab.caid = [] ∧ sidtab.provid = [] := by
    simpa [Sidtab.NamesCards] using services
  simp [chkSrvidMatchByCaidProv, empty]

theorem chkSrvidServices_eq (cl : ShareClient) (er : EcmRequest)
    (tables : List (Sidtab × Nat)) (rc : Bool) :
    chkSrvidServices cl er tables rc =
      verdict
        (fun table => decide table.1.Used && cl.sidtabno.testBit table.2 &&
          Stat.chkSrvidMatch er table.1)
        (fun table => decide table.1.Used && cl.sidtabok.testBit table.2 &&
          Stat.chkSrvidMatch er table.1) tables rc := by
  induction tables generalizing rc with
  | nil => rfl
  | cons table tables induction =>
      obtain ⟨sidtab, nr⟩ := table
      rw [chkSrvidServices, verdict]
      by_cases used : sidtab.Used
      · have listed : (sidtab.caid.isEmpty && sidtab.provid.isEmpty &&
            sidtab.srvid.isEmpty) = false := by
          simpa [Sidtab.Used, Sidtab.NamesCards, or_iff_not_imp_left]
            using used
        simp [used, listed, induction]
      · have unlisted : (sidtab.caid.isEmpty && sidtab.provid.isEmpty &&
            sidtab.srvid.isEmpty) = true := by
          simpa [Sidtab.Used, Sidtab.NamesCards, and_assoc] using used
        simp [used, unlisted, induction]

theorem chkSrvidTables_eq (cl : ShareClient) (caid provid : Nat)
    (tables : List (Sidtab × Nat)) (rc : Bool) :
    chkSrvidTables cl caid provid tables rc =
      verdict
        (fun table => decide table.1.NamesCards &&
          cl.sidtabno.testBit table.2 && table.1.srvid.isEmpty &&
            chkSrvidMatchByCaidProv caid provid table.1)
        (fun table => decide table.1.NamesCards &&
          cl.sidtabok.testBit table.2 &&
            chkSrvidMatchByCaidProv caid provid table.1) tables rc := by
  induction tables generalizing rc with
  | nil => rfl
  | cons table tables induction =>
      obtain ⟨sidtab, nr⟩ := table
      rw [chkSrvidTables, verdict]
      by_cases names : sidtab.NamesCards
      · have listed :
            (sidtab.caid.isEmpty && sidtab.provid.isEmpty) = false := by
          simpa [Sidtab.NamesCards, or_iff_not_imp_left] using names
        simp [names, listed, induction]
      · have unlisted :
            (sidtab.caid.isEmpty && sidtab.provid.isEmpty) = true := by
          simpa [Sidtab.NamesCards] using names
        simp [names, unlisted, induction]

/-! ## When the filters accept -/

variable {cfg : ShareCfg} {cl : ShareClient}

/-- A request is accepted when no service denied to the client matches it and
one of the granted services does, if there are any. -/
theorem chkSrvid_iff {er : EcmRequest} :
    chkSrvid cfg cl er = true ↔
      (∀ table ∈ cfg.sidtab.zipIdx, table.1.Used →
        cl.sidtabno.testBit table.2 = true →
          Stat.chkSrvidMatch er table.1 = false) ∧
      (cl.sidtabok = 0 ∨ ∃ table ∈ cfg.sidtab.zipIdx, table.1.Used ∧
        cl.sidtabok.testBit table.2 = true ∧
          Stat.chkSrvidMatch er table.1 = true) := by
  rw [chkSrvid]
  split
  next both =>
    simp [both.1, both.2]
  next some =>
    rw [chkSrvidServices_eq, verdict_iff]
    simp only [Bool.and_eq_true, Bool.and_eq_false_imp, decide_eq_true_eq,
      beq_iff_eq, and_assoc, and_imp]

/-- A card is seen when no denied service without a list of services matches
it and one of the granted services with a caid or a provider does, if there
are any granted ones. -/
theorem chkSrvidByCaidProv_iff {caid provid : Nat} :
    chkSrvidByCaidProv cfg cl caid provid = true ↔
      (∀ table ∈ cfg.sidtab.zipIdx, table.1.NamesCards →
        cl.sidtabno.testBit table.2 = true → table.1.srvid = [] →
          chkSrvidMatchByCaidProv caid provid table.1 = false) ∧
      (cl.sidtabok = 0 ∨ ∃ table ∈ cfg.sidtab.zipIdx, table.1.NamesCards ∧
        cl.sidtabok.testBit table.2 = true ∧
          chkSrvidMatchByCaidProv caid provid table.1 = true) := by
  rw [chkSrvidByCaidProv]
  split
  next both =>
    simp [both.1, both.2]
  next some =>
    rw [chkSrvidTables_eq, verdict_iff]
    simp only [Bool.and_eq_true, Bool.and_eq_false_imp, decide_eq_true_eq,
      List.isEmpty_iff, beq_iff_eq, and_assoc, and_imp]

/-- A denied service that hides a card is one that denies every request for
it. -/
theorem visible_of_accepted {er : EcmRequest}
    (accepted : chkSrvid cfg cl er = true) :
    ∀ table ∈ cfg.sidtab.zipIdx, table.1.NamesCards →
      cl.sidtabno.testBit table.2 = true → table.1.srvid = [] →
        chkSrvidMatchByCaidProv er.caid er.prid table.1 = false := by
  intro table member names denied every
  have unmatched := (chkSrvid_iff.mp accepted).1 table member
    (Or.inl names) denied
  simpa [chkSrvidMatch_eq, every] using unmatched

/-! ## The two filters compared -/

/-- The client may ask for a service with this caid and provider, as
`chk_srvid` sees it. -/
def SomeServiceAccepted (cfg : ShareCfg) (cl : ShareClient)
    (caid provid : Nat) : Prop :=
  ∃ er : EcmRequest, er.caid = caid ∧ er.prid = provid ∧
    chkSrvid cfg cl er = true

/-- No service that only a list of services grants gets through: every one of
them is denied by another entry. -/
def ListedServicesDenied (cfg : ShareCfg) (cl : ShareClient)
    (caid provid : Nat) : Prop :=
  ∀ table ∈ cfg.sidtab.zipIdx, ¬table.1.NamesCards →
    cl.sidtabok.testBit table.2 = true → ∀ srvid ∈ table.1.srvid,
      ∃ denied ∈ cfg.sidtab.zipIdx, denied.1.Used ∧
        cl.sidtabno.testBit denied.2 = true ∧
        chkSrvidMatchByCaidProv caid provid denied.1 = true ∧
        (denied.1.srvid = [] ∨ srvid ∈ denied.1.srvid)

/-- Nothing is granted by name, or a granted entry that
`chk_srvid_by_caid_prov` looks at matches the card, or the entries it skips
grant nothing. -/
def GrantsSeen (cfg : ShareCfg) (cl : ShareClient)
    (caid provid : Nat) : Prop :=
  cl.sidtabok = 0 ∨
    (∃ table ∈ cfg.sidtab.zipIdx, table.1.NamesCards ∧
      cl.sidtabok.testBit table.2 = true ∧
        chkSrvidMatchByCaidProv caid provid table.1 = true) ∨
    ListedServicesDenied cfg cl caid provid

/-- A service that only a list of services grants is accepted unless another
entry denies it. -/
theorem accepted_of_listed {caid provid srvid : Nat} {table : Sidtab × Nat}
    (member : table ∈ cfg.sidtab.zipIdx)
    (services : ¬table.1.NamesCards)
    (granted : cl.sidtabok.testBit table.2 = true)
    (listed : srvid ∈ table.1.srvid)
    (undenied : ∀ denied ∈ cfg.sidtab.zipIdx, denied.1.Used →
      cl.sidtabno.testBit denied.2 = true →
        chkSrvidMatchByCaidProv caid provid denied.1 = true →
          ¬(denied.1.srvid = [] ∨ srvid ∈ denied.1.srvid)) :
    SomeServiceAccepted cfg cl caid provid := by
  refine ⟨{ EcmRequest.zero with
    caid := caid, prid := provid, srvid := srvid }, rfl, rfl, ?_⟩
  rw [chkSrvid_iff]
  constructor
  · intro denied found used refusing
    rw [chkSrvidMatch_eq, Bool.and_eq_false_imp]
    intro same
    simpa using undenied denied found used refusing same
  · right
    refine ⟨table, member, Or.inr (List.ne_nil_of_mem listed), granted, ?_⟩
    rw [chkSrvidMatch_eq, matches_services services]
    simp [listed]

/-- The coarse filter shows every card whose services the client may ask for,
exactly when the grants of the client are all of the kind it looks at, as far
as they matter for the card. -/
theorem card_seen_of_service_accepted_iff {caid provid : Nat} :
    (SomeServiceAccepted cfg cl caid provid →
      chkSrvidByCaidProv cfg cl caid provid = true) ↔
    GrantsSeen cfg cl caid provid := by
  constructor
  · intro agrees
    by_contra unseen
    simp only [GrantsSeen, not_or] at unseen
    obtain ⟨grants, unmatched, undenied⟩ := unseen
    have accepted : SomeServiceAccepted cfg cl caid provid := by
      simp only [ListedServicesDenied, not_forall] at undenied
      obtain ⟨table, member, services, granted, srvid, listed, undenied⟩ :=
        undenied
      apply accepted_of_listed member services granted listed
      intro denied found used refusing same names
      exact undenied ⟨denied, found, used, refusing, same, names⟩
    rcases (chkSrvidByCaidProv_iff.mp (agrees accepted)).2 with none | some
    · exact grants none
    · exact unmatched some
  · intro seen accepted
    obtain ⟨er, rfl, rfl, accepted⟩ := accepted
    rw [chkSrvidByCaidProv_iff]
    refine ⟨visible_of_accepted accepted, ?_⟩
    rcases seen with none | some | denied
    · exact Or.inl none
    · exact Or.inr some
    · obtain ⟨unmatched, granted⟩ := chkSrvid_iff.mp accepted
      rcases granted with none | ⟨table, member, used, granted, same⟩
      · exact Or.inl none
      · right
        simp only [chkSrvidMatch_eq, Bool.and_eq_true] at same
        by_cases names : table.1.NamesCards
        · exact ⟨table, member, names, granted, same.1⟩
        · exfalso
          -- the entry lists services only, so another one denies the request
          have services := used.resolve_left names
          have listed : er.srvid ∈ table.1.srvid := by
            simpa [services] using same.2
          obtain ⟨other, found, inUse, refusing, matched, hidden⟩ :=
            denied table member names granted er.srvid listed
          have refused := unmatched other found inUse refusing
          rw [chkSrvidMatch_eq, matched] at refused
          simp only [Bool.true_and, Bool.or_eq_false_iff,
            List.isEmpty_eq_false_iff, List.contains_eq_mem,
            decide_eq_false_iff_not] at refused
          exact hidden.elim refused.1 refused.2

/-- A client that is granted one service by its number only. -/
def listedClient : ShareClient := { limitClient with sidtabok := 1 }

def listedCfg : ShareCfg :=
  { limitCfg with sidtab := [{ caid := [], provid := [], srvid := [0x1234] }] }

/-- Its request for the service is accepted and the card for it is hidden. -/
theorem card_hidden_from_listed :
    ¬∀ (cfg : ShareCfg) (cl : ShareClient) (caid provid : Nat),
      cfg.sidtab.length ≤ 64 → SomeServiceAccepted cfg cl caid provid →
        chkSrvidByCaidProv cfg cl caid provid = true := by
  intro agrees
  have accepted : SomeServiceAccepted listedCfg listedClient 0x0D05 0 :=
    ⟨{ EcmRequest.zero with caid := 0x0D05, srvid := 0x1234 },
      rfl, rfl, by decide⟩
  have seen := agrees listedCfg listedClient 0x0D05 0 (by decide) accepted
  exact absurd seen (by decide)

end Oscam.Cccam
