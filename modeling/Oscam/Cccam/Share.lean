import Oscam.Cccam.CardMessage

/-!
# Cards sent to clients

`send_card_to_clients`, with the reshare value that a client is given, and the
cards a server makes of its readers.
-/

namespace Oscam.Cccam

/-! ## Readers, clients and their settings -/

/-- One entry of a `FTAB`. -/
structure Filter where
  caid : Nat
  prids : List Nat
  deriving DecidableEq, Repr

/-- One entry of a `CAIDTAB`, up to the first one without a caid. -/
structure CaidEntry where
  caid : Nat
  mask : Nat
  deriving DecidableEq, Repr

structure ShareReader where
  ccId : Nat
  ccReshare : Int
  ccHop : Nat
  grp : Grp
  sidtabno : Nat
  deriving DecidableEq, Repr

/-- The limits of an account. -/
structure ShareAccount where
  cccreshare : Int
  cccignorereshare : Int
  cccmaxhops : Int
  deriving DecidableEq, Repr

inductive CccamMode where
  | notinit
  | normal
  | shutdown
  deriving DecidableEq, Repr

/-- The part of `struct cc_data` that the sharing of cards uses. -/
structure ShareCc where
  mode : CccamMode
  cccam220 : Bool
  nodeId : List UInt8
  peerNodeId : List UInt8
  deriving DecidableEq, Repr

/-- A client.  `isClient` is its type `'c'`, `isCccam` the number of its
protocol, `aureaders` counts its list of AU readers. -/
structure ShareClient where
  id : ClientId
  isClient : Bool
  isCccam : Bool
  cc : Option ShareCc
  account : ShareAccount
  grp : Grp
  ftab : List Filter
  ctab : List CaidEntry
  sidtabok : Nat
  sidtabno : Nat
  aureaders : Nat
  deriving DecidableEq, Repr

structure ShareCfg where
  ccReshare : Int
  ccIgnoreReshare : Int
  sidtab : List Sidtab
  deriving DecidableEq, Repr

/-! ## Cards of a server -/

/-- A value in a field of type `uint8_t`. -/
def byteOf (value : Int) : Nat := (value % 256).toNat

/-- `create_card2`, for a reader or for the services of the users. -/
def createCard2 (readers : ReaderId → ShareReader) (addr : Nat)
    (timeout : Int) (rdr : Option ReaderId) (j caid reshare : Nat) : Card :=
  let base : Nat := match rdr with
    | some rdr => (readers rdr).ccId <<< 16
    | none => 0x7F7F8000
  let card : Card :=
    { addr := addr, id := 0, remoteId := base ||| j, caid := caid, hop := 0
      reshare := reshare, hexserial := List.replicate 8 0, providers := []
      badsids := [], goodsids := [], remoteNodes := [], originReader := rdr
      cardType := .localcard, sidtab := none, grp := 0, rdrReshare := reshare
      sidtabno := 0, timeout := timeout, isExt := false }
  match rdr with
  | some rdr =>
      { card with
        grp := (readers rdr).grp
        rdrReshare := byteOf (readers rdr).ccReshare
        sidtabno := (readers rdr).sidtabno
        hop := (readers rdr).ccHop }
  | none => card

/-- What `cc_parse_msg` makes of a card that a reader received. -/
def receivedCard (readers : ReaderId → ShareReader) (rdr : ReaderId)
    (card : Card) : Card :=
  { card with
    originReader := some rdr
    grp := (readers rdr).grp
    rdrReshare := byteOf (readers rdr).ccReshare
    cardType := .remotecard
    hop := (card.hop + 1) % 256 }

/-! ## The checks of `card_valid_for_client` -/

/-- `chk_ident`. -/
def chkIdent (ftab : List Filter) (card : Card) : Bool :=
  ftab.all (·.caid == 0) ||
    ftab.any fun filt => filt.caid != 0 && filt.caid == card.caid &&
      (filt.prids.isEmpty ||
        card.providers.any fun prov => filt.prids.contains prov.prov)

/-- `chk_ctab`. -/
def chkCtab (caid : Nat) (ctab : List CaidEntry) : Bool :=
  caid == 0 || ctab.isEmpty ||
    ctab.any fun entry => caid &&& entry.mask == entry.caid

/-- `chk_srvid_match_by_caid_prov`. -/
def chkSrvidMatchByCaidProv (caid provid : Nat) (sidtab : Sidtab) : Bool :=
  (sidtab.caid.isEmpty || sidtab.caid.contains caid) &&
    (sidtab.provid.isEmpty || sidtab.provid.contains provid)

/-- The loop of `chk_srvid_by_caid_prov`. -/
def chkSrvidTables (cl : ShareClient) (caid provid : Nat) :
    List (Sidtab × Nat) → Bool → Bool
  | [], rc => rc
  | (sidtab, nr) :: tables, rc =>
      if sidtab.caid.isEmpty && sidtab.provid.isEmpty then
        chkSrvidTables cl caid provid tables rc
      else if cl.sidtabno.testBit nr && sidtab.srvid.isEmpty &&
          chkSrvidMatchByCaidProv caid provid sidtab then
        false
      else
        chkSrvidTables cl caid provid tables
          (rc || cl.sidtabok.testBit nr &&
            chkSrvidMatchByCaidProv caid provid sidtab)

/-- `chk_srvid_by_caid_prov`. -/
def chkSrvidByCaidProv (cfg : ShareCfg) (cl : ShareClient)
    (caid provid : Nat) : Bool :=
  if cl.sidtabok = 0 ∧ cl.sidtabno = 0 then true
  else chkSrvidTables cl caid provid cfg.sidtab.zipIdx (cl.sidtabok == 0)

/-- The services of a client, for a card created by a service. -/
def chkCardService (cfg : ShareCfg) (cl : ShareClient) (place : Nat) : Bool :=
  if cl.sidtabok = 0 ∧ cl.sidtabno = 0 then true
  else if place < cfg.sidtab.length then
    !cl.sidtabno.testBit place &&
      (cl.sidtabok.testBit place || cl.sidtabok == 0)
  else cl.sidtabok == 0

/-- `cccignorereshare`, or the setting of the server. -/
def userIgnoresReshare (cfg : ShareCfg) (cl : ShareClient) : Int :=
  if cl.account.cccignorereshare = -1 then cfg.ccIgnoreReshare
  else cl.account.cccignorereshare

/-- `card_valid_for_client`. -/
def cardValidForClient (cfg : ShareCfg) (cl : ShareClient) (cc : ShareCc)
    (card : Card) : Bool :=
  (card.grp == 0 || card.grp &&& cl.grp != 0) &&
  chkIdent cl.ftab card &&
  chkCtab card.caid cl.ctab &&
  (card.cardType != .remotecard || cfg.ccIgnoreReshare != 0 ||
    userIgnoresReshare cfg cl != 0 || card.reshare != 0) &&
  decide ((card.hop : Int) ≤ cl.account.cccmaxhops) &&
  card.remoteNodes.all (· != cc.peerNodeId) &&
  (card.providers.isEmpty ||
    card.providers.any fun prov =>
      chkSrvidByCaidProv cfg cl card.caid prov.prov) &&
  match card.sidtab with
  | some place => chkCardService cfg cl place
  | none => true

/-! ## `send_card_to_clients` -/

/-- `can_use_ext`. -/
def canUseExt (cfg : ShareCfg) (card : Card) : Bool :=
  if card.cardType = .remotecard then card.isExt
  else match card.sidtab with
    | some place => match cfg.sidtab[place]? with
        | some sidtab => !sidtab.srvid.isEmpty
        | none => false
    | none => !card.goodsids.isEmpty && !card.badsids.isEmpty

/-- `cccreshare`, or the setting of the server. -/
def userReshare (cfg : ShareCfg) (cl : ShareClient) : Int :=
  if cl.account.cccreshare = -1 then cfg.ccReshare
  else cl.account.cccreshare

/-- The reshare value of a card, one less if it was received. -/
def ownReshare (card : Card) : Int :=
  if card.cardType = .remotecard then card.reshare - 1 else card.reshare

/-- `new_reshare`. -/
def newReshare (cfg : ShareCfg) (cl : ShareClient) (card : Card) : Int :=
  let usrReshare := userReshare cfg cl
  let readerReshare : Int :=
    if card.originReader.isSome then card.rdrReshare else usrReshare
  let readerReshare :=
    if readerReshare = -1 then cfg.ccReshare else readerReshare
  let reshare :=
    if readerReshare < usrReshare then readerReshare else usrReshare
  if card.cardType = .cardByServiceUser then usrReshare
  else if cfg.ccIgnoreReshare ≠ 0 ∨ userIgnoresReshare cfg cl ≠ 0 then reshare
  else if ownReshare card > reshare then reshare
  else ownReshare card

inductive ShareMsg where
  | newCard
  | newCardSidinfo
  | cardRemoved
  deriving DecidableEq, Repr

/-- A message for a client. -/
structure ShareMessage where
  client : ShareClient
  msg : ShareMsg
  bytes : List UInt8
  deriving DecidableEq, Repr

/-- What a call of `send_card_to_clients` changes: the id of the card, the
next id `cc_share_id`, the modes of the clients, and what it sends. -/
structure Sending where
  card : Card
  ccShareId : Nat
  clients : List ShareClient
  sent : List ShareMessage
  deriving DecidableEq, Repr

/-- The clients that a card is offered to. -/
def offered (one : Bool) (cl : ShareClient) : Option ShareCc :=
  cl.cc.filter fun cc => cl.isClient &&
    (one && cc.mode != .shutdown || cl.isCccam && cc.mode == .normal)

/-- The message that tells a client of a card. -/
def newCardMessage (cfg : ShareCfg) (buf : Memory) (cl : ShareClient)
    (cc : ShareCc) (card : Card) : ShareMessage :=
  let isExt := cc.cccam220 && canUseExt cfg card
  let env : CardEnv :=
    { cfgSidtab := cfg.sidtab, nodeId := cc.nodeId
      auAllowed := cl.aureaders != 0, sidtabno := cl.sidtabno }
  let w := writeCard env buf card true isExt
  { client := cl
    msg := if isExt then .newCardSidinfo else .newCard
    bytes := (w.m.write 11 [UInt8.ofNat (byteOf (newReshare cfg cl card))]).read
      0 w.ofs }

/-- A card with an id, taken from `cc_share_id` if it has none. -/
def Sending.withId (s : Sending) : Sending :=
  if s.card.id = 0 then
    { s with
      card := { s.card with id := s.ccShareId }
      ccShareId := (s.ccShareId + 1) % 2 ^ 32 }
  else s

/-- One turn of the loop over the clients.  `takes` is the result of
`cc_cmd_send`. -/
def sendCardToClient (cfg : ShareCfg) (takes : ShareMessage → Bool)
    (buf : Memory) (one : Bool) (s : Sending) (cl : ShareClient) : Sending :=
  match offered one cl with
  | none => { s with clients := s.clients ++ [cl] }
  | some cc =>
      if cardValidForClient cfg cl cc s.card ∧ 0 ≤ newReshare cfg cl s.card then
        let s := s.withId
        let message := newCardMessage cfg buf cl cc s.card
        let cl := if takes message then cl
          else { cl with cc := some { cc with mode := .shutdown } }
        { s with clients := s.clients ++ [cl], sent := s.sent ++ [message] }
      else { s with clients := s.clients ++ [cl] }

/-- `send_card_to_clients`, for all clients or for a single one. -/
def sendCardToClients (cfg : ShareCfg) (takes : ShareMessage → Bool)
    (buf : Memory) (one : Bool) (clients : List ShareClient) (card : Card)
    (ccShareId : Nat) : Sending :=
  clients.foldl (sendCardToClient cfg takes buf one)
    { card := card, ccShareId := ccShareId, clients := [], sent := [] }

/-! ## The reshare byte of a message -/

variable {cfg : ShareCfg} {takes : ShareMessage → Bool} {buf : Memory}
  {one : Bool} {cl : ShareClient} {cc : ShareCc} {card : Card}
  {clients : List ShareClient} {ccShareId : Nat} {s : Sending}

theorem ofs_le_putSids (cap counter : Nat) (sids : List Nat) (w : Walk) :
    w.ofs ≤ (putSids cap counter sids w).ofs := by
  induction sids generalizing w with
  | nil => exact Nat.le_refl _
  | cons sid sids induction =>
      have next : w.ofs ≤ ((w.put (Memory.digits 2 sid)).count counter).ofs :=
        Nat.le_add_right _ _
      rw [putSids]
      split
      · exact next
      · exact Nat.le_trans next (induction _)

theorem ofs_le_putRejected (env : CardEnv) (card : Card)
    (tables : List (Sidtab × Nat)) (w : Walk) :
    w.ofs ≤ (putRejected env card tables w).ofs := by
  induction tables generalizing w with
  | nil => exact Nat.le_refl _
  | cons table tables induction =>
      by_cases rejected : rejects env card table
      · simp only [putRejected, rejected, if_true]
        have next := ofs_le_putSids 240 22 table.1.srvid w
        split
        · exact next
        · exact Nat.le_trans next (induction _)
      · simp only [putRejected, rejected, Bool.false_eq_true, if_false]
        split
        · exact Nat.le_refl _
        · exact induction _

theorem ofs_le_putServices (env : CardEnv) (card : Card) (w : Walk) :
    w.ofs ≤ (putServices env card w).ofs := by
  unfold putServices
  split
  · exact Nat.le_trans (ofs_le_putSids _ _ _ _) (ofs_le_putRejected _ _ _ _)
  · exact Nat.le_trans (ofs_le_putSids _ _ _ _) (ofs_le_putSids _ _ _ _)

/-- A card message has at least its head. -/
theorem head_le_ofs (env : CardEnv) (buf : Memory) (card : Card)
    (addOwn ext : Bool) : 21 ≤ (writeCard env buf card addOwn ext).ofs := by
  have start : 21 ≤ (if ext then 23 else 21) := by
    cases ext <;> decide
  have providers := @Walk.ofs_le_foldl Provider (putProvider env.auAllowed)
    (fun w _ => Nat.le_add_right w.ofs 7)
    { m := writeHead env buf card, ofs := if ext then 23 else 21 }
    card.providers
  have services : ∀ w : Walk,
      w.ofs ≤ (if ext then putServices env card w else w).ofs := by
    intro w
    cases ext with
    | false => exact Nat.le_refl _
    | true => exact ofs_le_putServices env card w
  have nodes : ∀ w : Walk, w.ofs ≤
      (({ w with ofs := w.ofs + 1 } : Walk).putAll w.ofs
        card.remoteNodes).ofs := by
    intro w
    have grows := @Walk.ofs_le_foldl (List UInt8)
      (fun v node => (v.put node).count w.ofs)
      (fun v node => Nat.le_add_right v.ofs node.length)
      { w with ofs := w.ofs + 1 } card.remoteNodes
    exact Nat.le_trans (Nat.le_succ w.ofs) grows
  have own : ∀ (w : Walk) (counter : Nat), w.ofs ≤
      (if addOwn then (w.put env.nodeId).count counter else w).ofs := by
    intro w counter
    cases addOwn with
    | false => exact Nat.le_refl _
    | true => exact Nat.le_add_right _ _
  exact start.trans ((providers.trans (services _)).trans
    ((nodes _).trans (own _ _)))

/-- The byte that tells a client how far it may share a card. -/
def ShareMessage.reshare (message : ShareMessage) : UInt8 :=
  message.bytes.getD 11 0

theorem reshare_newCardMessage (cfg : ShareCfg) (buf : Memory)
    (cl : ShareClient) (cc : ShareCc) (card : Card) :
    (newCardMessage cfg buf cl cc card).reshare =
      UInt8.ofNat (byteOf (newReshare cfg cl card)) := by
  have long : ∀ w : Walk, 21 ≤ w.ofs → ∀ byte : UInt8,
      ((w.m.write 11 [byte]).read 0 w.ofs).getD 11 0 = byte := by
    intro w head byte
    rw [List.getD_eq_getElem _ _ (by rw [Memory.length_read]; omega)]
    simp only [Memory.read, List.getElem_map, List.getElem_range, Nat.zero_add]
    exact @Memory.write_inside w.m 11 0 [byte] Nat.zero_lt_one
  exact long _ (head_le_ofs _ _ _ _ _) _

end Oscam.Cccam
