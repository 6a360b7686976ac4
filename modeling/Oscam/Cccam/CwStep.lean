import Mathlib.Data.BitVec
import Oscam.Cccam.Cipher

/-!
# The control word on its way from the server to the client

`cc_send_dcw` and the part of `cc_parse_msg` that takes its message.  Both
sides let their cipher go on over the control word once more: the server over
the transformed bytes that it has sent, the client over the control word
itself.
-/

namespace Oscam

def CwGroup.bytes (group : CwGroup) : List UInt8 :=
  [group.b0, group.b1, group.b2, group.b3]

/-- The array `cw[16]`. -/
def Cw.bytes (cw : Cw) : List UInt8 :=
  cw.g0.bytes ++ cw.g1.bytes ++ cw.g2.bytes ++ cw.g3.bytes

theorem Cw.length_bytes (cw : Cw) : cw.bytes.length = 16 := rfl

namespace Cccam

/-- `MSG_CW_NOK1` and `MSG_CW_NOK2`. -/
abbrev msgCwNok1 : UInt8 := 0xfe
abbrev msgCwNok2 : UInt8 := 0xff

/-- Byte `i` of a node id, a signed number, shifted by `4 * i`. -/
def nodeByte (nodeId : BitVec 64) (i : Nat) : UInt8 :=
  UInt8.ofBitVec ((nodeId.sshiftRight (4 * i)).setWidth 8)

/-- Byte `i` of a card id, shifted by `2 * i`. -/
def cardByte (cardid : BitVec 32) (i : Nat) : UInt8 :=
  UInt8.ofBitVec ((cardid >>> (2 * i)).setWidth 8)

/-- The loop body of `cc_cw_crypt`. -/
def cwByte (nodeId : BitVec 64) (cardid : BitVec 32) (i : Nat) (b : UInt8) :
    UInt8 :=
  let tmp := b ^^^ nodeByte nodeId i
  cardByte cardid i ^^^ (if i % 2 = 1 then ~~~ tmp else tmp)

/-- `cc_cw_crypt`. -/
def cwCrypt (nodeId : BitVec 64) (cws : List UInt8) (cardid : BitVec 32) :
    List UInt8 :=
  List.zipWith (cwByte nodeId cardid) (List.range 16) cws

/-- `cc_cmd_send` of a command message. -/
def cmdSend (block : CryptBlock) (gFlag cmd : UInt8) (data : List UInt8) :
    CryptBlock × List UInt8 :=
  crypt .encrypt block
    (gFlag :: cmd :: UInt8.ofNat (data.length / 256) ::
      UInt8.ofNat data.length :: data)

/-- The block with which `cc_msg_recv` leaves a message. -/
def msgRecvBlock (block : CryptBlock) (header body : List UInt8) :
    CryptBlock :=
  if (header.take 4).length ≠ 4 then block
  else
    let (block, plain) := crypt .decrypt block (header.take 4)
    let size := sizeField plain
    if size = 0 ∨ size > maxMsgSize ∨ (body.take size).length ≠ size then block
    else (crypt .decrypt block (body.take size)).1

/-- The side of the server: its client, as `cc_send_dcw` sees it. -/
structure ServerSide where
  block : CryptBlock
  peerNodeId : BitVec 64
  extendedMode : Bool
  gFlag : UInt8
  forwardOriginCard : Bool

/-- The entry of the request, with the id of its card. -/
structure ServedCard where
  sendIdx : UInt8
  card : Option (BitVec 32)

/-- `cc_send_dcw`: what is sent, and the block after it.  `isOrigin` says that
the card is the origin card of the request. -/
def sendDcw (side : ServerSide) (er : EcmRequest) (isOrigin : Bool)
    (eei : Option ServedCard) : CryptBlock × List UInt8 :=
  match eei.bind (·.card), eei with
  | some cardid, some served =>
      if er.rc < eNotfound then
        if side.extendedMode then
          cmdSend side.block served.sendIdx msgCwEcm er.cw.bytes
        else
          let buf := cwCrypt side.peerNodeId er.cw.bytes cardid
          let sent := cmdSend side.block side.gFlag msgCwEcm buf
          -- the additional crypto step
          ((crypt .encrypt sent.1 buf).1, sent.2)
      else
        let gFlag := if side.extendedMode then served.sendIdx else side.gFlag
        let nok :=
          if side.forwardOriginCard ∧ isOrigin ∧ er.rcEx = e2CccamNok1 then
            msgCwNok1
          else msgCwNok2
        cmdSend side.block gFlag nok []
  | none, some served =>
      let gFlag := if side.extendedMode then served.sendIdx else side.gFlag
      cmdSend side.block gFlag msgCwNok1 []
  | _, none => cmdSend side.block side.gFlag msgCwNok1 []

/-- The side of the client. -/
structure ClientSide where
  block : CryptBlock
  nodeId : BitVec 64
  extendedMode : Bool
  dcw : List UInt8

/-- The part of `cc_parse_msg` that takes a control word for a card, with
`MODE_CMD_0x0C_NONE`. -/
def takeCw (side : ClientSide) (cardid : BitVec 32) (m : Memory) (l : Int) :
    ClientSide :=
  if side.extendedMode then { side with dcw := m.read 4 16 }
  else
    let m := m.write 4 (cwCrypt side.nodeId (m.read 4 16) cardid)
    { side with
      dcw := m.read 4 16
      -- the additional crypto step
      block := (crypt .encrypt side.block (m.read 4 (l - 4).toNat)).1 }

/-- The client receives a message and takes its control word. -/
def receiveCw (side : ClientSide) (cardid : BitVec 32) (message : List UInt8)
    (m : Memory) : ClientSide :=
  let header := message.take 4
  let body := message.drop 4
  let received := msgRecv side.block header body m
  takeCw { side with block := msgRecvBlock side.block header body } cardid
    received.2 received.1

/-! ## The transformation of the control word -/

/-- What `cc_cw_crypt` mixes into byte `i`. -/
def cwMask (nodeId : BitVec 64) (cardid : BitVec 32) (i : Nat) : UInt8 :=
  nodeByte nodeId i ^^^ cardByte cardid i ^^^ (if i % 2 = 1 then -1 else 0)

theorem cwByte_eq (nodeId : BitVec 64) (cardid : BitVec 32) (i : Nat)
    (b : UInt8) :
    cwByte nodeId cardid i b = b ^^^ cwMask nodeId cardid i := by
  unfold cwByte cwMask
  split
  · calc cardByte cardid i ^^^ ~~~ (b ^^^ nodeByte nodeId i)
        = cardByte cardid i ^^^ (b ^^^ nodeByte nodeId i ^^^ -1) := by
          rw [UInt8.xor_neg_one]
      _ = b ^^^ (nodeByte nodeId i ^^^ cardByte cardid i ^^^ -1) := by ac_rfl
  · calc cardByte cardid i ^^^ (b ^^^ nodeByte nodeId i)
        = b ^^^ (nodeByte nodeId i ^^^ cardByte cardid i) := by ac_rfl
      _ = b ^^^ (nodeByte nodeId i ^^^ cardByte cardid i ^^^ 0) := by simp

theorem length_cwCrypt (nodeId : BitVec 64) {cws : List UInt8}
    (cardid : BitVec 32) (sixteen : cws.length = 16) :
    (cwCrypt nodeId cws cardid).length = 16 := by
  simp [cwCrypt, sixteen]

/-- The transformation is its own inverse. -/
theorem cwCrypt_cwCrypt (nodeId : BitVec 64) {cws : List UInt8}
    (cardid : BitVec 32) (sixteen : cws.length = 16) :
    cwCrypt nodeId (cwCrypt nodeId cws cardid) cardid = cws := by
  apply List.ext_getElem
  · simp [cwCrypt, sixteen]
  · intro i short long
    simp only [cwCrypt, List.getElem_zipWith, List.getElem_range, cwByte_eq,
      UInt8.xor_assoc, UInt8.xor_self, UInt8.xor_zero]

/-! ## What the data does to the cipher -/

/-- All bytes added up by `^^^`. -/
def xorAll (data : List UInt8) : UInt8 := data.foldr (· ^^^ ·) 0

/-- The block after some bytes, whatever they are: all but `state`. -/
def CryptBlock.walk : Nat → CryptBlock → CryptBlock
  | 0, block => block
  | n + 1, block => walk n block.turn.1

theorem turn_state (block : CryptBlock) (state : UInt8) :
    ({ block with state := state } : CryptBlock).turn.1 =
      { block.turn.1 with state := state } := rfl

theorem walk_state (n : Nat) (block : CryptBlock) (state : UInt8) :
    CryptBlock.walk n { block with state := state } =
      { CryptBlock.walk n block with state := state } := by
  induction n generalizing block with
  | zero => rfl
  | succ n induction =>
      rw [CryptBlock.walk, CryptBlock.walk, turn_state]
      exact induction block.turn.1

theorem crypt_encrypt_block (block : CryptBlock) (data : List UInt8) :
    (crypt .encrypt block data).1 =
      { CryptBlock.walk data.length block with
        state := block.state ^^^ xorAll data } := by
  induction data generalizing block with
  | nil => simp [crypt, CryptBlock.walk, xorAll]
  | cons z data induction =>
      have assoc : block.state ^^^ z ^^^ xorAll data =
          block.state ^^^ xorAll (z :: data) := by
        simp only [xorAll, List.foldr_cons]
        ac_rfl
      simp only [crypt, reduceCtorEq, if_false, induction, walk_state,
        List.length_cons, CryptBlock.walk, assoc]

/-- Two encryptions of the same length end in the same block exactly if the
bytes add up to the same. -/
theorem crypt_encrypt_block_eq_iff (block : CryptBlock)
    {left right : List UInt8} (length : left.length = right.length) :
    (crypt .encrypt block left).1 = (crypt .encrypt block right).1 ↔
      xorAll left = xorAll right := by
  rw [crypt_encrypt_block, crypt_encrypt_block, length]
  constructor
  · intro same
    have states := congrArg CryptBlock.state same
    exact (UInt8.xor_right_inj _).mp states
  · intro same
    rw [same]

theorem xorAll_zipWith (mask : Nat → UInt8) (indices : List Nat)
    {data : List UInt8} (length : indices.length = data.length) :
    xorAll (List.zipWith (fun i b => b ^^^ mask i) indices data) =
      xorAll data ^^^ xorAll (indices.map mask) := by
  induction indices generalizing data with
  | nil =>
      rw [List.length_eq_zero_iff.mp length.symm]
      simp [xorAll]
  | cons i indices induction =>
      cases data with
      | nil => cases length
      | cons b data =>
          have rest := induction (Nat.succ.inj length)
          simp only [xorAll, List.zipWith_cons_cons, List.map_cons,
            List.foldr_cons] at rest ⊢
          rw [rest]
          ac_rfl

/-- What the node id and the card id add up to over the sixteen bytes. -/
def idSum (nodeId : BitVec 64) (cardid : BitVec 32) : UInt8 :=
  xorAll ((List.range 16).map fun i => nodeByte nodeId i ^^^ cardByte cardid i)

theorem xorAll_map_xor (f g : Nat → UInt8) (indices : List Nat) :
    xorAll (indices.map fun i => f i ^^^ g i) =
      xorAll (indices.map f) ^^^ xorAll (indices.map g) := by
  induction indices with
  | nil => simp [xorAll]
  | cons i indices induction =>
      simp only [xorAll, List.map_cons, List.foldr_cons] at induction ⊢
      rw [induction]
      ac_rfl

theorem xorAll_cwCrypt (nodeId : BitVec 64) {cws : List UInt8}
    (cardid : BitVec 32) (sixteen : cws.length = 16) :
    xorAll (cwCrypt nodeId cws cardid) =
      xorAll cws ^^^ idSum nodeId cardid := by
  have masks : (cwByte nodeId cardid) =
      fun i b => b ^^^ cwMask nodeId cardid i := by
    funext i b
    exact cwByte_eq nodeId cardid i b
  have inverted : xorAll ((List.range 16).map fun i =>
      if i % 2 = 1 then (-1 : UInt8) else 0) = 0 := by decide
  rw [cwCrypt, masks, xorAll_zipWith _ _ (by simp [sixteen])]
  unfold cwMask
  rw [xorAll_map_xor (fun i => nodeByte nodeId i ^^^ cardByte cardid i),
    inverted, UInt8.xor_zero]
  rfl

/-! ## Both sides after a control word -/

/-- Both sides of a connection that is not in extended mode, in step. -/
structure Paired (server : ServerSide) (client : ClientSide) : Prop where
  blocks : client.block = server.block
  nodeIds : client.nodeId = server.peerNodeId
  serverMode : server.extendedMode = false
  clientMode : client.extendedMode = false

/-- The message of a control word, in its two pieces. -/
theorem cmdSend_eq (block : CryptBlock) (gFlag cmd : UInt8)
    {data : List UInt8} (sixteen : data.length = 16) :
    cmdSend block gFlag cmd data =
      let head := crypt .encrypt block [gFlag, cmd, 0, 16]
      let rest := crypt .encrypt head.1 data
      (rest.1, head.2 ++ rest.2) := by
  have split : gFlag :: cmd :: UInt8.ofNat (data.length / 256) ::
      UInt8.ofNat data.length :: data = [gFlag, cmd, 0, 16] ++ data := by
    rw [sixteen]
    rfl
  rw [cmdSend, split, crypt_append]

/-- The block that a received message leaves is the one of its sender. -/
theorem msgRecvBlock_encrypted (block : CryptBlock) (gFlag cmd : UInt8)
    {data : List UInt8} (sixteen : data.length = 16) :
    let sent := cmdSend block gFlag cmd data
    msgRecvBlock block (sent.2.take 4) (sent.2.drop 4) = sent.1 ∧
      ∀ m : Memory, msgRecv block (sent.2.take 4) (sent.2.drop 4) m =
        (20, (m.write 0 [gFlag, cmd, 0, 16]).write 4 data) := by
  have four : (crypt .encrypt block [gFlag, cmd, 0, 16]).2.length = 4 :=
    length_crypt _ _ _
  have size : sizeField [gFlag, cmd, 0, 16] = data.length := by
    simp [sizeField, sixteen]
  have whole : (crypt .encrypt (crypt .encrypt block
      [gFlag, cmd, 0, 16]).1 data).2.length = 16 :=
    (length_crypt _ _ _).trans sixteen
  have small : ¬ 16 > maxMsgSize := by decide
  rw [cmdSend_eq _ _ _ sixteen]
  simp only [List.take_left' four, List.drop_left' four]
  have header := List.take_of_length_le (Nat.le_of_eq four)
  have body := List.take_of_length_le (Nat.le_of_eq whole)
  constructor
  · have complete : ¬ (crypt .encrypt block
        [gFlag, cmd, 0, 16]).2.length ≠ 4 := not_not.mpr four
    unfold msgRecvBlock
    rw [header, if_neg complete, crypt_decrypt_encrypt]
    dsimp only
    rw [size, sixteen, body, if_neg, crypt_decrypt_encrypt]
    rintro (empty | large | short)
    · cases empty
    · exact small large
    · exact short whole
  · intro m
    have filled : data ≠ [] := by
      intro empty
      rw [empty] at sixteen
      cases sixteen
    have fits : data.length ≤ maxMsgSize := sixteen ▸ not_lt.mp small
    have total : ((data.length : Int) + 4) = 20 := by
      rw [sixteen]
      rfl
    rw [msgRecv_encrypted block _ data m rfl filled size fits, total]

theorem sendDcw_found {server : ServerSide} (off : server.extendedMode = false)
    {er : EcmRequest} (found : er.rc < eNotfound) (isOrigin : Bool)
    {served : ServedCard} {cardid : BitVec 32}
    (here : served.card = some cardid) :
    sendDcw server er isOrigin (some served) =
      let buf := cwCrypt server.peerNodeId er.cw.bytes cardid
      let sent := cmdSend server.block server.gFlag msgCwEcm buf
      ((crypt .encrypt sent.1 buf).1, sent.2) := by
  simp only [sendDcw, Option.bind_some, here, found, if_true, off,
    Bool.false_eq_true, if_false]

/-- What the client makes of the message of a control word. -/
theorem receiveCw_sent {server : ServerSide} {client : ClientSide}
    (paired : Paired server client) (er : EcmRequest) (cardid : BitVec 32)
    (m : Memory) :
    let buf := cwCrypt server.peerNodeId er.cw.bytes cardid
    let sent := cmdSend server.block server.gFlag msgCwEcm buf
    let after := receiveCw client cardid sent.2 m
    after.dcw = er.cw.bytes ∧
      after.block = (crypt .encrypt sent.1 er.cw.bytes).1 := by
  have sixteen := er.cw.length_bytes
  have bufLength := length_cwCrypt server.peerNodeId cardid sixteen
  obtain ⟨block, plain⟩ := msgRecvBlock_encrypted server.block server.gFlag
    msgCwEcm bufLength
  have received := Memory.read_write
    (m.write 0 [server.gFlag, msgCwEcm, 0, 16]) 4
    (cwCrypt server.peerNodeId er.cw.bytes cardid)
  rw [bufLength] at received
  have cw := fun m : Memory => Memory.read_write m 4 er.cw.bytes
  simp only [sixteen] at cw
  simp only [receiveCw, takeCw, paired.blocks, paired.nodeIds,
    paired.clientMode, Bool.false_eq_true, if_false, block, plain, received,
    cwCrypt_cwCrypt server.peerNodeId cardid sixteen]
  have left : (20 - 4 : Int).toNat = 16 := rfl
  rw [left, cw]
  exact ⟨rfl, rfl⟩

/-- The blocks are equal again exactly if the ids add up to zero; the control
word arrives in any case. -/
theorem cw_step {server : ServerSide} {client : ClientSide}
    (paired : Paired server client) {er : EcmRequest}
    (found : er.rc < eNotfound) (isOrigin : Bool) {served : ServedCard}
    {cardid : BitVec 32} (here : served.card = some cardid) (m : Memory) :
    let sent := sendDcw server er isOrigin (some served)
    let after := receiveCw client cardid sent.2 m
    after.dcw = er.cw.bytes ∧
      (after.block = sent.1 ↔ idSum client.nodeId cardid = 0) := by
  have sixteen := er.cw.length_bytes
  have bufLength := length_cwCrypt server.peerNodeId cardid sixteen
  obtain ⟨dcw, block⟩ := receiveCw_sent paired er cardid m
  rw [sendDcw_found paired.serverMode found isOrigin here]
  refine ⟨dcw, ?_⟩
  rw [block, crypt_encrypt_block_eq_iff _ (sixteen.trans bufLength.symm),
    xorAll_cwCrypt _ _ sixteen, paired.nodeIds]
  constructor
  · intro same
    have cancelled : xorAll er.cw.bytes ^^^ 0 =
        xorAll er.cw.bytes ^^^ idSum server.peerNodeId cardid := by
      rw [UInt8.xor_zero]
      exact same
    exact ((UInt8.xor_right_inj _).mp cancelled).symm
  · intro zero
    rw [zero, UInt8.xor_zero]

/-- The control word arrives and both sides stay in step exactly if the bytes
of the shifted node id and card id add up to zero. -/
theorem cw_inStep_iff {server : ServerSide} {client : ClientSide}
    (paired : Paired server client) {er : EcmRequest}
    (found : er.rc < eNotfound) (isOrigin : Bool) {served : ServedCard}
    {cardid : BitVec 32} (here : served.card = some cardid) (m : Memory) :
    let sent := sendDcw server er isOrigin (some served)
    let after := receiveCw client cardid sent.2 m
    after.dcw = er.cw.bytes ∧ after.block = sent.1 ↔
      idSum client.nodeId cardid = 0 := by
  obtain ⟨dcw, block⟩ := cw_step paired found isOrigin here m
  constructor
  · rintro ⟨_, same⟩
    exact block.mp same
  · intro zero
    exact ⟨dcw, block.mpr zero⟩

def plainServer : ServerSide :=
  { block := initCrypt [1], peerNodeId := 0, extendedMode := false, gFlag := 0
    forwardOriginCard := false }

def plainClient : ClientSide :=
  { block := initCrypt [1], nodeId := 0, extendedMode := false, dcw := [] }

theorem plain_paired : Paired plainServer plainClient :=
  { blocks := rfl, nodeIds := rfl, serverMode := rfl, clientMode := rfl }

def servedCard (cardid : BitVec 32) : ServedCard :=
  { sendIdx := 1, card := some cardid }

theorem cw_inStep_iff_card_zero :
    (receiveCw plainClient 0
        (sendDcw plainServer EcmRequest.zero false (some (servedCard 0))).2
        Memory.zero).dcw = EcmRequest.zero.cw.bytes ∧
      (receiveCw plainClient 0
        (sendDcw plainServer EcmRequest.zero false (some (servedCard 0))).2
        Memory.zero).block =
        (sendDcw plainServer EcmRequest.zero false (some (servedCard 0))).1 ↔
      idSum 0 0 = 0 :=
  cw_inStep_iff plain_paired (by decide) false rfl Memory.zero

/-- A card with id 1: the sides are out of step. -/
theorem cw_out_of_step :
    ¬ ((receiveCw plainClient 1
          (sendDcw plainServer EcmRequest.zero false (some (servedCard 1))).2
          Memory.zero).dcw = EcmRequest.zero.cw.bytes ∧
        (receiveCw plainClient 1
          (sendDcw plainServer EcmRequest.zero false (some (servedCard 1))).2
          Memory.zero).block =
          (sendDcw plainServer EcmRequest.zero false
            (some (servedCard 1))).1) := by
  have found : EcmRequest.zero.rc < eNotfound := by decide
  have here : (servedCard 1).card = some 1 := rfl
  have step := cw_step plain_paired found false here Memory.zero
  intro inStep
  have zero := step.2.mp inStep.2
  revert zero
  decide

end Cccam

end Oscam
