import Oscam.Cccam.Share

/-!
# The limits of sharing

How far a client may share a card is limited by its account, by the reader the
card comes from and by the server that sent it.  A reader without a limit of
its own should use the one of the configuration, but the card keeps the limit
in a byte, where the mark for this does not fit.
-/

namespace Oscam.Cccam

variable {cfg : ShareCfg} {takes : ShareMessage → Bool} {buf : Memory}
  {one : Bool} {cl : ShareClient} {cc : ShareCc} {card : Card}
  {readers : ReaderId → ShareReader} {s : Sending}

/-! ## Who gets a message -/

/-- A client that gets a message about a card. -/
def Receives (cfg : ShareCfg) (one : Bool) (cl : ShareClient)
    (card : Card) : Prop :=
  ∃ cc, offered one cl = some cc ∧ cardValidForClient cfg cl cc card = true ∧
    0 ≤ newReshare cfg cl card

theorem card_withId (s : Sending) :
    ∃ id, s.withId.card = { s.card with id := id } := by
  unfold Sending.withId
  split
  · exact ⟨s.ccShareId, rfl⟩
  · exact ⟨s.card.id, rfl⟩

theorem sent_withId (s : Sending) : s.withId.sent = s.sent := by
  unfold Sending.withId
  split <;> rfl

/-- One turn of the loop. -/
theorem sendCardToClient_cases (s : Sending) (cl : ShareClient) :
    (¬ Receives cfg one cl s.card ∧
      (sendCardToClient cfg takes buf one s cl).card = s.card ∧
      (sendCardToClient cfg takes buf one s cl).sent = s.sent) ∨
    (Receives cfg one cl s.card ∧ ∃ cc id,
      (sendCardToClient cfg takes buf one s cl).card =
        { s.card with id := id } ∧
      (sendCardToClient cfg takes buf one s cl).sent = s.sent ++
        [newCardMessage cfg buf cl cc { s.card with id := id }]) := by
  unfold sendCardToClient
  cases offer : offered one cl with
  | none =>
      left
      constructor
      · rintro ⟨cc, some, _⟩
        rw [offer] at some
        cases some
      · exact ⟨rfl, rfl⟩
  | some cc =>
      dsimp only
      split
      · rename_i valid
        obtain ⟨id, card⟩ := card_withId s
        right
        constructor
        · exact ⟨cc, offer, valid⟩
        · refine ⟨cc, id, card, ?_⟩
          rw [card, sent_withId]
      · rename_i invalid
        left
        constructor
        · rintro ⟨other, some, valid⟩
          rw [offer] at some
          cases some
          exact invalid valid
        · exact ⟨rfl, rfl⟩

/-- What holds of every message, for the clients that get one. -/
theorem forall_sent_iff {P : ShareClient → UInt8 → Prop}
    (clients : List ShareClient) (s : Sending) :
    (∀ message ∈ (clients.foldl (sendCardToClient cfg takes buf one) s).sent,
        P message.client message.reshare) ↔
      (∀ message ∈ s.sent, P message.client message.reshare) ∧
        ∀ cl ∈ clients, Receives cfg one cl s.card →
          P cl (UInt8.ofNat (byteOf (newReshare cfg cl s.card))) := by
  induction clients generalizing s with
  | nil => simp
  | cons cl clients induction =>
      rw [List.foldl_cons, induction, List.forall_mem_cons]
      rcases sendCardToClient_cases s cl with
        ⟨leaves, card, sent⟩ | ⟨receives, cc, id, card, sent⟩
      · rw [card, sent]
        simp only [leaves, false_implies, true_and]
      · have same : ∀ other, Receives cfg one other { s.card with id := id } ↔
            Receives cfg one other s.card := fun _ => Iff.rfl
        have value : ∀ other, newReshare cfg other { s.card with id := id } =
            newReshare cfg other s.card := fun _ => rfl
        rw [card, sent, List.forall_mem_append, List.forall_mem_singleton,
          reshare_newCardMessage]
        simp only [same, value, receives, true_implies, and_assoc]
        rfl

/-! ## The limits -/

/-- `cc_reshare` of a reader, or the setting of the server. -/
def readerLimit (cfg : ShareCfg) (rdr : ShareReader) : Int :=
  if rdr.ccReshare = -1 then cfg.ccReshare else rdr.ccReshare

/-- What a reshare byte may be for a client. -/
structure WithinLimits (cfg : ShareCfg) (readers : ReaderId → ShareReader)
    (card : Card) (cl : ShareClient) (value : UInt8) : Prop where
  user : (value.toNat : Int) ≤ userReshare cfg cl
  reader : ∀ rdr, card.originReader = some rdr →
    (value.toNat : Int) ≤ readerLimit cfg (readers rdr)
  received : card.cardType = .remotecard → value.toNat < card.reshare

/-- What holds of the cards that the program makes. -/
structure Card.Made (readers : ReaderId → ShareReader) (card : Card) :
    Prop where
  reshare : card.reshare < 256
  rdrReshare : ∀ rdr, card.originReader = some rdr →
    card.rdrReshare = byteOf (readers rdr).ccReshare
  user : card.cardType = .cardByServiceUser → card.originReader = none

theorem createCard2_made (readers : ReaderId → ShareReader) (addr : Nat)
    (timeout : Int) (rdr : Option ReaderId) (j caid : Nat) {reshare : Nat}
    (byte : reshare < 256) {cardType : CardType}
    (user : cardType = .cardByServiceUser → rdr = none) :
    Card.Made readers { createCard2 readers addr timeout rdr j caid reshare with
      cardType := cardType } := by
  cases rdr with
  | none =>
      constructor
      · exact byte
      · intro rdr origin
        cases origin
      · intro _
        rfl
  | some rdr =>
      constructor
      · exact byte
      · intro other origin
        cases origin
        rfl
      · intro service
        cases user service

theorem receivedCard_made (readers : ReaderId → ShareReader) (rdr : ReaderId)
    (addr : Nat) (m : Memory) (ext : Bool) :
    (receivedCard readers rdr (readCard addr m ext)).Made readers := by
  constructor
  · exact UInt8.toNat_lt (m 11)
  · intro other origin
    cases origin
    rfl
  · intro service
    cases service

/-- The limit of a reader is kept for a client: it is a number, or the mark
for the setting of the server, which then does not lie below the other two
limits. -/
def LimitKept (cfg : ShareCfg) (rdr : ShareReader) (card : Card)
    (cl : ShareClient) : Prop :=
  0 ≤ rdr.ccReshare ∨ rdr.ccReshare = -1 ∧
    (userReshare cfg cl ≤ cfg.ccReshare ∨ ownReshare card ≤ cfg.ccReshare)

theorem toNat_byteOf (value : Int) :
    ((UInt8.ofNat (byteOf value)).toNat : Int) = value % 256 := by
  rw [UInt8.toNat_ofNat', byteOf]
  omega

/-- The value for a card that the services of the users have made. -/
theorem newReshare_user (user : card.cardType = .cardByServiceUser) :
    newReshare cfg cl card = userReshare cfg cl := by
  simp [newReshare, user]

/-- The value for any other card, if nobody ignores the limits. -/
theorem newReshare_of_off (off : cfg.ccIgnoreReshare = 0)
    (userOff : userIgnoresReshare cfg cl = 0)
    (other : card.cardType ≠ .cardByServiceUser) :
    newReshare cfg cl card = min (ownReshare card)
      (if card.originReader.isSome then
        min (card.rdrReshare : Int) (userReshare cfg cl)
      else if userReshare cfg cl = -1 then min cfg.ccReshare (-1)
      else userReshare cfg cl) := by
  have byte : (card.rdrReshare : Int) ≠ -1 := by omega
  cases reader : card.originReader with
  | none =>
      simp only [newReshare, reader, other, off, userOff]
      grind
  | some rdr =>
      simp only [newReshare, reader, other, off, userOff]
      grind

theorem ownReshare_lt (made : card.Made readers) :
    ownReshare card < 256 ∧ ownReshare card ≤ card.reshare ∧
      (card.cardType = .remotecard → ownReshare card < card.reshare) := by
  have byte := made.reshare
  unfold ownReshare
  split
  · omega
  · rename_i other
    refine ⟨by omega, Nat.cast_le.mpr (Nat.le_refl _), ?_⟩
    intro received
    exact absurd received other

/-- The value for a card of a reader. -/
theorem newReshare_reader (made : card.Made readers)
    (off : cfg.ccIgnoreReshare = 0) (userOff : userIgnoresReshare cfg cl = 0)
    {rdr : ReaderId} (origin : card.originReader = some rdr) :
    newReshare cfg cl card =
      min (ownReshare card)
        (min ((readers rdr).ccReshare % 256) (userReshare cfg cl)) := by
  have other : card.cardType ≠ .cardByServiceUser := by
    intro user
    rw [made.user user] at origin
    cases origin
  have byte : (card.rdrReshare : Int) = (readers rdr).ccReshare % 256 := by
    rw [made.rdrReshare rdr origin, byteOf]
    omega
  rw [newReshare_of_off off userOff other, byte]
  simp only [origin, Option.isSome_some, if_true]

/-- A message keeps the limits of the user and of the sender of the card. -/
theorem withinLimits_of_nonneg (made : card.Made readers)
    (off : cfg.ccIgnoreReshare = 0) (userOff : userIgnoresReshare cfg cl = 0)
    (sent : 0 ≤ newReshare cfg cl card) :
    let value := UInt8.ofNat (byteOf (newReshare cfg cl card))
    (value.toNat : Int) ≤ userReshare cfg cl ∧
      (card.cardType = .remotecard → value.toNat < card.reshare) := by
  have value := toNat_byteOf (newReshare cfg cl card)
  obtain ⟨small, _, below⟩ := ownReshare_lt made
  by_cases user : card.cardType = .cardByServiceUser
  · rw [newReshare_user user] at value sent ⊢
    constructor
    · omega
    · intro received
      rw [user] at received
      cases received
  · have eq := newReshare_of_off off userOff user
    constructor
    · grind
    · intro received
      have lower := below received
      omega

theorem within_reader_iff (made : card.Made readers)
    (off : cfg.ccIgnoreReshare = 0) (userOff : userIgnoresReshare cfg cl = 0)
    {rdr : ReaderId} (origin : card.originReader = some rdr)
    (sent : 0 ≤ newReshare cfg cl card) :
    ((UInt8.ofNat (byteOf (newReshare cfg cl card))).toNat : Int) ≤
        readerLimit cfg (readers rdr) ↔
      LimitKept cfg (readers rdr) card cl := by
  have value := toNat_byteOf (newReshare cfg cl card)
  have eq := newReshare_reader made off userOff origin
  obtain ⟨small, _, _⟩ := ownReshare_lt made
  have same : newReshare cfg cl card % 256 = newReshare cfg cl card := by
    omega
  rw [value, same, eq]
  unfold readerLimit LimitKept
  split
  · rename_i mark
    rw [mark]
    omega
  · rename_i number
    omega

/-- Every card message is within the limits exactly if for each client that
gets one the limit of the reader is kept. -/
theorem withinLimits_iff (made : card.Made readers)
    (off : cfg.ccIgnoreReshare = 0) {clients : List ShareClient}
    (usersOff : ∀ cl ∈ clients, userIgnoresReshare cfg cl = 0)
    (takes : ShareMessage → Bool) (buf : Memory) (one : Bool)
    (ccShareId : Nat) :
    (∀ message ∈ (sendCardToClients cfg takes buf one clients card
        ccShareId).sent,
      WithinLimits cfg readers card message.client message.reshare) ↔
    ∀ rdr, card.originReader = some rdr → ∀ cl ∈ clients, ∀ cc,
      offered one cl = some cc → cardValidForClient cfg cl cc card = true →
        0 ≤ userReshare cfg cl → 0 ≤ ownReshare card →
          LimitKept cfg (readers rdr) card cl := by
  unfold sendCardToClients
  rw [forall_sent_iff]
  constructor
  · rintro ⟨_, within⟩ rdr origin cl member cc offer valid usr own
    have userOff := usersOff cl member
    have sent : 0 ≤ newReshare cfg cl card := by
      rw [newReshare_reader made off userOff origin]
      omega
    have limits := within cl member ⟨cc, offer, valid, sent⟩
    exact (within_reader_iff made off userOff origin sent).mp
      (limits.reader rdr origin)
  · intro kept
    constructor
    · intro message none
      cases none
    · rintro cl member ⟨cc, offer, valid, sent⟩
      have userOff := usersOff cl member
      obtain ⟨user, received⟩ := withinLimits_of_nonneg made off userOff sent
      constructor
      · exact user
      · intro rdr origin
        have positive : 0 ≤ newReshare cfg cl card := sent
        rw [newReshare_reader made off userOff origin] at positive
        exact (within_reader_iff made off userOff origin sent).mpr
          (kept rdr origin cl member cc offer valid (by omega) (by omega))
      · exact received

/-! A server that shares once, a reader without a limit of its own, and an
account that may share five times. -/

def limitCfg : ShareCfg := { ccReshare := 1, ccIgnoreReshare := 0, sidtab := [] }

def limitReader (ccReshare : Int) : ShareReader :=
  { ccId := 1, ccReshare := ccReshare, ccHop := 0, grp := 1, sidtabno := 0 }

def limitClient : ShareClient :=
  { id := 0, isClient := true, isCccam := true
    cc := some
      { mode := .normal, cccam220 := true
        nodeId := [1, 2, 3, 4, 5, 6, 7, 8]
        peerNodeId := [8, 7, 6, 5, 4, 3, 2, 1] }
    account := { cccreshare := 5, cccignorereshare := -1, cccmaxhops := 10 }
    grp := 1, ftab := [], ctab := [], sidtabok := 0, sidtabno := 0
    aureaders := 0 }

/-- A card that may be shared ten times, as its reader keeps it. -/
def limitCard (ccReshare : Int) : Card :=
  receivedCard (fun _ => limitReader ccReshare) 0
    { createCard2 (fun _ => limitReader ccReshare) 0 0 none 0 0x0D05 10 with
      remoteNodes := [[2, 2, 2, 2, 2, 2, 2, 2]] }

theorem limitCard_made (ccReshare : Int) :
    (limitCard ccReshare).Made fun _ => limitReader ccReshare := by
  have small : 10 < 256 := by decide
  constructor
  · exact small
  · intro rdr origin
    cases origin
    rfl
  · intro service
    cases service

theorem withinLimits_iff_two :
    (∀ message ∈ (sendCardToClients limitCfg (fun _ => true) Memory.zero false
        [limitClient] (limitCard 2) 0x64).sent,
      WithinLimits limitCfg (fun _ => limitReader 2) (limitCard 2)
        message.client message.reshare) ↔
    ∀ rdr, (limitCard 2).originReader = some rdr → ∀ cl ∈ [limitClient],
      ∀ cc, offered false cl = some cc →
        cardValidForClient limitCfg cl cc (limitCard 2) = true →
          0 ≤ userReshare limitCfg cl → 0 ≤ ownReshare (limitCard 2) →
            LimitKept limitCfg (limitReader 2) (limitCard 2) cl :=
  withinLimits_iff (limitCard_made 2) rfl (by decide) _ _ _ _

/-- The client is told that it may share the card five times. -/
theorem reader_limit_passed :
    ¬ ∀ message ∈ (sendCardToClients limitCfg (fun _ => true) Memory.zero false
        [limitClient] (limitCard (-1)) 0x64).sent,
      WithinLimits limitCfg (fun _ => limitReader (-1)) (limitCard (-1))
        message.client message.reshare := by
  unfold sendCardToClients
  rw [forall_sent_iff]
  rintro ⟨_, within⟩
  have limits := within limitClient (by simp)
    ⟨_, rfl, by decide, by decide⟩
  exact absurd (limits.reader 0 rfl) (by decide)

end Oscam.Cccam
