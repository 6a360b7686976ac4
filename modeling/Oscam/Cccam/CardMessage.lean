import Mathlib.Data.List.Flatten
import Oscam.Cccam.Card
import Oscam.Protocol.EcmLength
import Oscam.Lib.Walk

/-!
# Cards as messages

`write_card`, which writes a card into the buffer of a message, and
`read_card`, which reads it there on the other side.
-/

namespace Oscam.Cccam

/-! ## Writing -/

/-- Who a card is written for, and the services of the configuration. -/
structure CardEnv where
  cfgSidtab : List Sidtab
  nodeId : List UInt8
  auAllowed : Bool
  sidtabno : Nat

/-- The service table a card points to. -/
def CardEnv.sidtab (env : CardEnv) (place : Nat) : Sidtab :=
  env.cfgSidtab.getD place { caid := [], provid := [], srvid := [] }

/-- The head of a card message, in a cleared buffer. -/
def writeHead (env : CardEnv) (buf : Memory) (card : Card) : Memory :=
  let m := buf.clear maxMsgSize
  let m := m.write 0
    (Memory.digits 4 card.id ++ Memory.digits 4 card.remoteId ++
      Memory.digits 2 card.caid ++ Memory.digits 1 card.hop ++
        Memory.digits 1 card.reshare)
  if env.auAllowed then m.write 12 card.hexserial else m

/-- One provider, counted in byte 20. -/
def putProvider (auAllowed : Bool) (w : Walk) (prov : Provider) : Walk :=
  let m := w.m.write w.ofs (Memory.digits 3 prov.prov)
  let m := if auAllowed then m.write (w.ofs + 3) prov.sa else m
  { ({ m := m, ofs := w.ofs } : Walk).count 20 with ofs := w.ofs + 7 }

/-- Services, until `cap` are counted. -/
def putSids (cap counter : Nat) : List Nat → Walk → Walk
  | [], w => w
  | sid :: sids, w =>
      let w := (w.put (Memory.digits 2 sid)).count counter
      if cap ≤ (w.m counter).toNat then w else putSids cap counter sids w

/-- A table of services that the card rejects: one that the client or the
reader does not serve, with the caid of the card. -/
def rejects (env : CardEnv) (card : Card) (table : Sidtab × Nat) : Bool :=
  (env.sidtabno.testBit table.2 || card.sidtabno.testBit table.2) &&
    table.1.caid.contains card.caid

/-- The rejected services of the tables, until 240 are counted. -/
def putRejected (env : CardEnv) (card : Card) :
    List (Sidtab × Nat) → Walk → Walk
  | [], w => w
  | table :: tables, w =>
      let w := if rejects env card table then putSids 240 22 table.1.srvid w
        else w
      if 240 ≤ (w.m 22).toNat then w else putRejected env card tables w

/-- The services that go with a card. -/
def putServices (env : CardEnv) (card : Card) (w : Walk) : Walk :=
  match card.sidtab with
  | some place =>
      let w := putSids 240 21 (env.sidtab place).srvid w
      putRejected env card env.cfgSidtab.zipIdx w
  | none =>
      let w := putSids 200 21 (card.goodsids.map (·.sid)) w
      putSids 200 22 (card.badsids.map (·.sid)) w

/-- `write_card`: the buffer and the length of the message. -/
def writeCard (env : CardEnv) (buf : Memory) (card : Card)
    (addOwn ext : Bool) : Walk :=
  let w : Walk :=
    { m := writeHead env buf card, ofs := if ext then 23 else 21 }
  let w := card.providers.foldl (putProvider env.auAllowed) w
  let w := if ext then putServices env card w else w
  let nremoteOfs := w.ofs
  let w := { w with ofs := w.ofs + 1 }
  let w := w.putAll nremoteOfs card.remoteNodes
  if addOwn then (w.put env.nodeId).count nremoteOfs else w

/-! ## Reading -/

/-- Services from some offset on. -/
def readSids (m : Memory) (offset n : Nat) : List Srvid :=
  (List.range n).map fun i =>
    { sid := m.number (offset + 2 * i) 2, ecmlen := 0 }

/-- `read_card`: a new card at `addr`. -/
def readCard (addr : Nat) (m : Memory) (ext : Bool) : Card :=
  let caid := m.number 8 2
  let nprov := (m 20).toNat
  let nassign := if ext then (m 21).toNat else 0
  let nreject := if ext then (m 22).toNat else 0
  let offset := if ext then 23 else 21
  let assigned := offset + 7 * nprov
  let rejected := assigned + 2 * nassign
  let nodes := rejected + 2 * nreject
  { addr := addr, id := m.number 0 4, remoteId := m.number 4 4, caid := caid
    hop := (m 10).toNat, reshare := (m 11).toNat, hexserial := m.read 12 8
    providers := (List.range nprov).map fun i =>
      let prov := m.number (offset + 7 * i) 3
      { prov := if prov = 0xFFFFFF ∧ caid / 256 = 0x17 then i else prov
        sa := m.read (offset + 7 * i + 3) 4 }
    goodsids := readSids m assigned nassign
    badsids := readSids m rejected nreject
    remoteNodes := (List.range (m nodes).toNat).map fun i =>
      m.read (nodes + 1 + 8 * i) 8
    originReader := none, cardType := .remotecard, sidtab := none, grp := 0
    rdrReshare := 0, sidtabno := 0, timeout := 0, isExt := ext }

/-! ## What the C types promise -/

structure Card.WellTyped (card : Card) : Prop where
  id : card.id < 2 ^ 32
  remoteId : card.remoteId < 2 ^ 32
  caid : card.caid < 2 ^ 16
  hop : card.hop < 2 ^ 8
  reshare : card.reshare < 2 ^ 8
  hexserial : card.hexserial.length = 8
  sa : ∀ prov ∈ card.providers, prov.sa.length = 4
  goodsids : ∀ srvid ∈ card.goodsids, srvid.sid < 2 ^ 16
  badsids : ∀ srvid ∈ card.badsids, srvid.sid < 2 ^ 16
  remoteNodes : ∀ node ∈ card.remoteNodes, node.length = 8

structure CardEnv.WellTyped (env : CardEnv) : Prop where
  nodeId : env.nodeId.length = 8
  srvid : ∀ table ∈ env.cfgSidtab, ∀ sid ∈ table.srvid, sid < 2 ^ 16

/-! ## The loops of `write_card` -/

variable {env : CardEnv} {card : Card} {w : Walk}

/-- The services written as assigned, up to the cap. -/
def assignedSids (env : CardEnv) (card : Card) : List Nat :=
  match card.sidtab with
  | some place => (env.sidtab place).srvid.take 240
  | none => (card.goodsids.map (·.sid)).take 200

/-- The services written as rejected, up to the cap. -/
def rejectedSids (env : CardEnv) (card : Card) : List Nat :=
  match card.sidtab with
  | some _ =>
      ((env.cfgSidtab.zipIdx.filter (rejects env card)).flatMap
        (·.1.srvid)).take 240
  | none => (card.badsids.map (·.sid)).take 200

def sidEntries (sids : List Nat) : List (List UInt8) :=
  sids.map (Memory.digits 2)

theorem putSids_eq {cap counter : Nat} (byte : cap < 256) (sids : List Nat)
    (room : (w.m counter).toNat < cap) (before : counter < w.ofs) :
    putSids cap counter sids w =
      w.putAll counter
        (sidEntries (sids.take (cap - (w.m counter).toNat))) := by
  induction sids generalizing w with
  | nil => simp [putSids, Walk.putAll, sidEntries]
  | cons sid sids induction =>
      have one := Walk.Filled.one before (Memory.digits 2 sid)
      have counted : (((w.put (Memory.digits 2 sid)).count counter).m
          counter).toNat = (w.m counter).toNat + 1 := by
        rw [one.counted, UInt8.toNat_add]
        exact Nat.mod_eq_of_lt (by
          have step : (UInt8.ofNat 1).toNat = 1 := rfl
          omega)
      have further : counter <
          ((w.put (Memory.digits 2 sid)).count counter).ofs := by
        rw [one.ofs]
        omega
      obtain ⟨left, gap⟩ : ∃ left, cap - (w.m counter).toNat = left + 1 :=
        ⟨cap - (w.m counter).toNat - 1, by omega⟩
      rw [putSids, gap, List.take_succ_cons]
      split
      · rename_i full
        have last : left = 0 := by omega
        rw [last]
        rfl
      · rename_i notFull
        have same : cap - (((w.put (Memory.digits 2 sid)).count counter).m
            counter).toNat = left := by omega
        rw [induction (not_le.mp notFull) further, same]
        rfl

/-- `putSids` from a counter at zero. -/
theorem putSids_zero {cap counter : Nat} (byte : cap < 256)
    (some : 0 < cap) (sids : List Nat) (zero : w.m counter = 0)
    (before : counter < w.ofs) :
    putSids cap counter sids w =
      w.putAll counter (sidEntries (sids.take cap)) := by
  have start : (w.m counter).toNat = 0 := by
    rw [zero]
    rfl
  rw [putSids_eq byte sids (by omega) before, start, Nat.sub_zero]

theorem putRejected_eq (tables : List (Sidtab × Nat))
    (room : (w.m 22).toNat < 240) (before : 22 < w.ofs) :
    putRejected env card tables w =
      w.putAll 22 (sidEntries
        (((tables.filter (rejects env card)).flatMap (·.1.srvid)).take
          (240 - (w.m 22).toNat))) := by
  induction tables generalizing w with
  | nil => simp [putRejected, Walk.putAll, sidEntries]
  | cons table tables induction =>
      by_cases rejected : rejects env card table
      · have stage := Walk.putAll_filled before (sidEntries
          (table.1.srvid.take (240 - (w.m 22).toNat)))
        have written := putSids_eq (by decide : 240 < 256) table.1.srvid room
          before
        have size : (sidEntries (table.1.srvid.take
            (240 - (w.m 22).toNat))).length =
              min (240 - (w.m 22).toNat) table.1.srvid.length := by
          simp [sidEntries]
        have counted : ((putSids 240 22 table.1.srvid w).m 22).toNat =
            (w.m 22).toNat +
              min (240 - (w.m 22).toNat) table.1.srvid.length := by
          rw [written, stage.counted, size, UInt8.toNat_add,
            UInt8.toNat_ofNat']
          omega
        simp only [putRejected, rejected, if_true, List.filter_cons,
          List.flatMap_cons]
        split
        · rename_i full
          have long : 240 - (w.m 22).toNat ≤ table.1.srvid.length := by omega
          rw [List.take_append_of_le_length long, written]
        · rename_i notFull
          have short : table.1.srvid.length < 240 - (w.m 22).toNat := by omega
          have further : 22 < (putSids 240 22 table.1.srvid w).ofs := by
            rw [written, stage.ofs]
            omega
          have left : 240 - ((putSids 240 22 table.1.srvid w).m 22).toNat =
              240 - (w.m 22).toNat - table.1.srvid.length := by omega
          rw [induction (not_le.mp notFull) further, left, written,
            List.take_append, List.take_of_length_le (Nat.le_of_lt short)]
          simp only [Walk.putAll, sidEntries, List.map_append,
            List.foldl_append]
      · simp only [putRejected, rejected, if_false, List.filter_cons,
          Bool.false_eq_true, not_le.mpr room]
        exact induction room before

theorem putServices_eq (before : 22 < w.ofs) (goodZero : w.m 21 = 0)
    (badZero : w.m 22 = 0) :
    putServices env card w =
      (w.putAll 21 (sidEntries (assignedSids env card))).putAll 22
        (sidEntries (rejectedSids env card)) := by
  have stage := fun sids : List Nat =>
    Walk.putAll_filled (show 21 < w.ofs by omega) (sidEntries sids)
  have further : ∀ sids, 22 < (w.putAll 21 (sidEntries sids)).ofs := by
    intro sids
    rw [(stage sids).ofs]
    omega
  have still : ∀ sids, (w.putAll 21 (sidEntries sids)).m 22 = 0 := by
    intro sids
    rw [(stage sids).frame 22 before (by decide), badZero]
  unfold putServices assignedSids rejectedSids
  cases card.sidtab with
  | none =>
      dsimp only
      rw [putSids_zero (by decide) (by decide) _ goodZero (by omega),
        putSids_zero (by decide) (by decide) _ (still _) (further _)]
  | some place =>
      dsimp only
      rw [putSids_zero (by decide) (by decide) _ goodZero (by omega),
        putRejected_eq _ _ (further _), still]
      · rfl
      · rw [still]
        decide

end Oscam.Cccam
