import Oscam.Cccam.CardMessage
import Oscam.Lib.Reach

/-!
# The services that a card decodes

Every card has a list of good services and a list of blocked ones.  The
answers of the server to the requests that went to the card change them.
-/

namespace Oscam.Cccam

namespace Card

/-- `is_good_sid`. -/
def isGoodSid (card : Card) (srvid : Srvid) : Bool :=
  card.goodsids.any fun good => sidEq good srvid

/-- `add_sid_block`. -/
def addSidBlock (card : Card) (srvid : Srvid) : Card :=
  if card.isSidBlocked srvid then card
  else { card with badsids := card.badsids ++ [srvid] }

/-- `remove_sid_block`. -/
def removeSidBlock (card : Card) (srvid : Srvid) : Card :=
  { card with badsids := card.badsids.filter fun bad => !sidEq bad srvid }

/-- `remove_good_sid`. -/
def removeGoodSid (card : Card) (srvid : Srvid) : Card :=
  { card with goodsids := card.goodsids.filter fun good => !sidEq good srvid }

/-- `add_good_sid`. -/
def addGoodSid (card : Card) (srvid : Srvid) : Card :=
  if card.isGoodSid srvid then card
  else
    let card := card.removeSidBlock srvid
    { card with goodsids := card.goodsids ++ [srvid] }

end Card

/-- `is_null_dcw`, which leaves out the last byte. -/
def isNullDcw (dcw : List UInt8) : Bool := (dcw.take 15).all (· == 0)

/-- What the server answers to a request for a service that went to the card.
`cmd05NOK` is the flag at that time. -/
inductive Answer where
  | cwEcm (dcw : List UInt8) (srvid : Srvid)
  | cwNok1 (srvid : Srvid)
  | cwNok2 (srvid : Srvid) (cmd05NOK : Bool)
  deriving DecidableEq, Repr

/-- What `cc_parse_msg` makes of the card, which may be gone. -/
def parseAnswer (state : Option Card) (answer : Answer) : Option Card :=
  state.bind fun card =>
    match answer with
    | .cwEcm dcw srvid =>
        if isNullDcw dcw then some (card.addSidBlock srvid)
        else some (card.addGoodSid srvid)
    | .cwNok1 _ => none -- share no more available
    | .cwNok2 srvid cmd05NOK =>
        if cmd05NOK then some (card.addSidBlock srvid)
        else if card.isGoodSid srvid = false then
          some (card.addSidBlock srvid)
        else some (card.removeGoodSid srvid)

/-! ## After a control word -/

variable {card : Card} {srvid other : Srvid} {state : Option Card}
  {answer : Answer}

/-- A control word unblocks its service unless this was good already. -/
theorem isSidBlocked_addGoodSid (card : Card) (srvid : Srvid) :
    (card.addGoodSid srvid).isSidBlocked srvid =
      (card.isGoodSid srvid && card.isSidBlocked srvid) := by
  unfold Card.addGoodSid
  by_cases good : card.isGoodSid srvid = true
  · rw [if_pos good, good, Bool.true_and]
  · rw [if_neg good, Bool.eq_false_iff.mpr good, Bool.false_and]
    unfold Card.isSidBlocked Card.removeSidBlock
    rw [List.any_eq_false]
    intro bad member
    have kept := List.of_mem_filter member
    simpa using kept

/-- A service that was just decoded is not blocked. -/
def Selectable (state : Option Card) (answer : Answer) : Prop :=
  ∀ dcw srvid, answer = .cwEcm dcw srvid → isNullDcw dcw = false →
    ∀ card ∈ parseAnswer state answer, card.isSidBlocked srvid = false

/-- A service for which a control word comes is not both good and blocked
before. -/
def NotBoth (state : Option Card) (answer : Answer) : Prop :=
  ∀ dcw srvid, answer = .cwEcm dcw srvid → isNullDcw dcw = false →
    ∀ card ∈ state, ¬ (card.isGoodSid srvid = true ∧
      card.isSidBlocked srvid = true)

theorem parseAnswer_cw (card : Card) {dcw : List UInt8}
    (valid : isNullDcw dcw = false) (srvid : Srvid) :
    parseAnswer (some card) (.cwEcm dcw srvid) =
      some (card.addGoodSid srvid) := by
  simp [parseAnswer, valid]

theorem selectable_iff : Selectable state answer ↔ NotBoth state answer := by
  unfold Selectable NotBoth
  refine forall₂_congr fun dcw srvid => forall_congr' fun cw =>
    forall_congr' fun valid => ?_
  subst cw
  cases state with
  | none => simp [parseAnswer]
  | some card =>
      rw [parseAnswer_cw card valid]
      simp [isSidBlocked_addGoodSid]

/-- Along a run, every service is selectable right after it was decoded if
and only if none for which a control word comes is both good and blocked. -/
theorem decoded_selectable_iff (card : Card) (answers : List Answer) :
    StepSystem.Along parseAnswer Selectable (some card) answers ↔
      StepSystem.Along parseAnswer NotBoth (some card) answers :=
  StepSystem.Along.congr_under (fun _ _ (_ : True) => selectable_iff)
    (fun _ _ _ _ => trivial) trivial answers

/-! ## Which answers lead there -/

theorem sidEq_comm (left right : Srvid) :
    sidEq left right = sidEq right left := by
  rw [Bool.eq_iff_iff]
  simp only [sidEq, Bool.and_eq_true, Bool.or_eq_true, beq_iff_eq]
  omega

/-- Services of one length, or of every length, agree with each other. -/
theorem sidEq_of_length (length : srvid.ecmlen ≠ 0) {left right : Srvid}
    (first : sidEq left srvid = true) (second : sidEq right srvid = true) :
    sidEq left right = true := by
  simp only [sidEq, Bool.and_eq_true, Bool.or_eq_true, beq_iff_eq] at *
  omega

/-- No good service is blocked. -/
def Card.Apart (card : Card) : Prop :=
  ∀ good ∈ card.goodsids, ∀ bad ∈ card.badsids, sidEq good bad = false

/-- The answer blocks the service, whether or not it is good. -/
def Answer.Blocks (srvid : Srvid) : Answer → Prop
  | .cwEcm dcw other => isNullDcw dcw = true ∧ other = srvid
  | .cwNok1 _ => False
  | .cwNok2 other cmd05NOK => cmd05NOK = true ∧ other = srvid

def BlocksNoGood (state : Option Card) (answer : Answer) : Prop :=
  ∀ card ∈ state, ∀ srvid, answer.Blocks srvid →
    card.isGoodSid srvid = false

/-- A control word is for an ECM of a length that is no wildcard. -/
def HasLength (answer : Answer) : Prop :=
  ∀ dcw srvid, answer = .cwEcm dcw srvid → srvid.ecmlen ≠ 0

theorem Card.Apart.addSidBlock (apart : card.Apart)
    (other : card.isGoodSid srvid = false) :
    (card.addSidBlock srvid).Apart := by
  unfold Card.addSidBlock
  split
  · exact apart
  · intro good here bad there
    rcases List.mem_append.mp there with old | new
    · exact apart good here bad old
    · rw [List.mem_singleton.mp new]
      exact Bool.eq_false_iff.mpr (List.any_eq_false.mp other good here)

theorem Card.Apart.addGoodSid (apart : card.Apart) (srvid : Srvid) :
    (card.addGoodSid srvid).Apart := by
  unfold Card.addGoodSid
  split
  · exact apart
  · intro good here bad there
    rcases List.mem_append.mp here with old | new
    · exact apart good old bad (List.mem_of_mem_filter there)
    · rw [List.mem_singleton.mp new, sidEq_comm]
      simpa using List.of_mem_filter there

theorem Card.Apart.removeGoodSid (apart : card.Apart) (srvid : Srvid) :
    (card.removeGoodSid srvid).Apart := fun good here bad there =>
  apart good (List.mem_of_mem_filter here) bad there

/-- What an answer may do to the card. -/
theorem parseAnswer_cases {after : Card}
    (parsed : parseAnswer (some card) answer = some after) :
    ∃ srvid,
      after = card.addSidBlock srvid ∧
          (answer.Blocks srvid ∨ card.isGoodSid srvid = false) ∨
        after = card.addGoodSid srvid ∨ after = card.removeGoodSid srvid := by
  cases answer with
  | cwEcm dcw srvid =>
      refine ⟨srvid, ?_⟩
      by_cases null : isNullDcw dcw = true
      · left
        refine ⟨?_, .inl ⟨null, rfl⟩⟩
        simpa [parseAnswer, null] using parsed.symm
      · right
        left
        simpa [parseAnswer, null] using parsed.symm
  | cwNok1 srvid => cases parsed
  | cwNok2 srvid cmd05NOK =>
      refine ⟨srvid, ?_⟩
      cases cmd05NOK with
      | true =>
          left
          refine ⟨?_, .inl ⟨rfl, rfl⟩⟩
          simpa [parseAnswer] using parsed.symm
      | false =>
          by_cases other : card.isGoodSid srvid = false
          · left
            refine ⟨?_, .inr other⟩
            simpa [parseAnswer, other] using parsed.symm
          · right
            right
            simpa [parseAnswer, other] using parsed.symm

/-- An answer that blocks no good service keeps the services apart. -/
theorem apart_parseAnswer (apart : ∀ card ∈ state, card.Apart)
    (fair : BlocksNoGood state answer) :
    ∀ card ∈ parseAnswer state answer, card.Apart := by
  intro after parsed
  cases state with
  | none => cases parsed
  | some card =>
      have before := apart card rfl
      obtain ⟨srvid, ⟨rfl, reason⟩ | rfl | rfl⟩ := parseAnswer_cases parsed
      · rcases reason with blocks | other
        · exact before.addSidBlock (fair card rfl srvid blocks)
        · exact before.addSidBlock other
      · exact before.addGoodSid srvid
      · exact before.removeGoodSid srvid

/-- Services that are kept apart are selectable once they were decoded, as
long as only services that are not good are blocked. -/
theorem selectable_of_apart (apart : card.Apart) {answers : List Answer}
    (fair : StepSystem.Along parseAnswer
      (fun state answer => BlocksNoGood state answer ∧ HasLength answer)
      (some card) answers) :
    StepSystem.Along parseAnswer Selectable (some card) answers := by
  refine StepSystem.Along.imp_under ?_
    (fun state answer (before : ∀ card ∈ state, card.Apart) now =>
      apart_parseAnswer before now.1)
    (fun other here => Option.mem_some_iff.mp here ▸ apart) fair
  intro state answer before now
  rw [selectable_iff]
  rintro dcw srvid rfl _valid card here ⟨good, blocked⟩
  obtain ⟨left, member, first⟩ := List.any_eq_true.mp good
  obtain ⟨right, there, second⟩ := List.any_eq_true.mp blocked
  have same := sidEq_of_length (now.2 dcw srvid rfl) first second
  rw [before card here left member right there] at same
  cases same

/-- After an answer that blocks a good service, its next control word leaves
it blocked. -/
theorem not_selectable_of_blocks (good : card.isGoodSid srvid = true)
    (blocks : answer.Blocks srvid) {dcw : List UInt8}
    (valid : isNullDcw dcw = false) :
    ¬ Selectable (parseAnswer (some card) answer) (.cwEcm dcw srvid) := by
  have after : parseAnswer (some card) answer =
      some (card.addSidBlock srvid) := by
    cases answer with
    | cwEcm dcw other =>
        obtain ⟨null, rfl⟩ := blocks
        simp [parseAnswer, null]
    | cwNok1 other => cases blocks
    | cwNok2 other cmd05NOK =>
        obtain ⟨rfl, rfl⟩ := blocks
        simp [parseAnswer]
  rw [selectable_iff, after]
  intro notBoth
  refine notBoth dcw srvid rfl valid _ rfl ⟨?_, ?_⟩
  · unfold Card.addSidBlock
    split
    · exact good
    · exact good
  · unfold Card.addSidBlock
    split
    · assumption
    · simp [Card.isSidBlocked, sidEq]

def someService : Srvid := { sid := 0x1234, ecmlen := 0x70 }

def someDcw : List UInt8 := 1 :: List.replicate 15 0

/-- A control word, a null control word and a control word for one service of
a card that was just read: the service stays blocked. -/
theorem decoded_stays_blocked :
    ¬ StepSystem.Along parseAnswer Selectable
      (some (readCard 1 Memory.zero false))
      [.cwEcm someDcw someService, .cwEcm (List.replicate 16 0) someService,
        .cwEcm someDcw someService] := by
  rintro ⟨_, _, last, _⟩
  have free := last someDcw someService rfl (by decide) _ rfl
  exact absurd free (by decide)

end Oscam.Cccam
