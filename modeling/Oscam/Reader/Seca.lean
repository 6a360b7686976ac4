import Oscam.ByteOrder
import Mathlib.Data.Finset.Card
import Mathlib.Data.Nat.Bitwise

/-!
# Providers of a Seca card

`seca_card_init` stores the providers of a card at the places that its map
gives them, and counts them.  Requests and EMMs look for a provider at as many
places, from the first one on.
-/

namespace Oscam

/-! ## Readers -/

/-- The types of EMMs: `UNIQUE` and the like. -/
inductive EmmType where
  | unknown
  | unique
  | shared
  | global
  deriving DecidableEq, Repr

/-- The dates of `struct tm`, with the year and the month as they are read. -/
structure Date where
  year : Nat
  month : Nat
  day : Nat
  deriving DecidableEq, Repr

/-- `S_ENTITLEMENT`, as far as a Seca card sets it. -/
structure Entitlement where
  provid : UInt64
  id : UInt64
  type : Nat
  endDate : Date
  deriving DecidableEq, Repr

/-- A reader with what is known of its card. -/
structure CardReader where
  caid : Nat
  hexserial : Memory
  nprov : Nat
  prid : Nat → Memory
  availkeys : Nat → Memory
  sa : Nat → Memory
  entitlements : List Entitlement

/-- An EMM with what its type and its address are taken for. -/
structure EmmPacket where
  emm : Memory
  l : Int
  type : EmmType
  hexserial : Memory
  provid : Memory

/-- A card: the answers to come, each with all of `cta_res` after it or none
if the card cannot be reached, and the commands that it was sent. -/
structure Card where
  answers : List (Option Memory)
  sent : List (List UInt8)

/-- `card_write`: the answer, if there is one. -/
def Card.write (card : Card) (command : List UInt8) : Option Memory × Card :=
  (card.answers.head?.join,
    { answers := card.answers.tail, sent := card.sent ++ [command] })

namespace Seca

open ByteOrder (b2ll)

/-! ## The card -/

/-- The date has not passed. -/
def isValid (now date : Date) : Bool :=
  if now.year ≠ date.year then now.year < date.year
  else if now.month ≠ date.month then now.month < date.month
  else if now.day ≠ date.day then now.day < date.day
  else false

def readDate (res : Memory) : Date :=
  { year := (res 22).toNat / 2 + 1990
    month := (res 22).toNat % 2 * 8 + (res 23).toNat / 32
    day := (res 23).toNat % 32 }

/-- `get_pbm`; an error gives zero. -/
def getPbm (card : Card) (idx : Nat) : UInt64 × Card :=
  match card.write [0xC1, 0x34, 0x00, 0x00, 0x03, 0x00, 0x00, 0x00] with
  | (none, card) => (0, card)
  | (some _, card) =>
      match card.write [0xC1, 0x32, UInt8.ofNat idx, 0x00, 0x20] with
      | (none, card) => (0, card)
      | (some res, card) =>
          (if res 0 = 0x83 then b2ll 8 (res.shift 1) else 0, card)

/-- What `set_provider_info` stores of the answer of the card. -/
def storeProvider (now : Date) (reader : CardReader) (res : Memory) (i : Nat) :
    CardReader :=
  { reader with
    prid := Function.update reader.prid i
      (((reader.prid i).write 0 [0, 0]).write 2 (res.read 0 2))
    availkeys := Function.update reader.availkeys i
      ((reader.availkeys i).write 0
        [if isValid now (readDate res) then 1 else 0])
    sa := Function.update reader.sa i
      ((reader.sa i).write 0 (res.read 18 4)) }

/-- The entitlement of a provider: the entry that is found is the i-th one, or
the first one for the issuer. -/
def storeEntitlement (reader : CardReader) (card : Card) (date : Date)
    (i : Nat) : CardReader × Card :=
  let provid := b2ll 4 (reader.prid i)
  match reader.entitlements[i - 1]? with
  | some entry =>
      let (pbm, card) := getPbm card i
      ({ reader with
          entitlements := reader.entitlements.set (i - 1)
            { entry with provid, id := pbm, type := 6, endDate := date } },
        card)
  | none =>
      if i = 0 then (reader, card)
      else
        ({ reader with
            entitlements := reader.entitlements ++
              [{ provid, id := 0, type := 0, endDate := date }] },
          card)

/-- `set_provider_info`; none stands for `ERROR`. -/
def setProviderInfo (now : Date) (reader : CardReader) (card : Card) (i : Nat) :
    Option (CardReader × Card) :=
  match card.write [0xC1, 0x12, UInt8.ofNat i, 0x00, 0x19] with
  | (none, _) => none
  | (some res, card) =>
      if res 25 ≠ 0x90 ∨ res 26 ≠ 0x00 then none
      else
        some (storeEntitlement (storeProvider now reader res i) card
          (readDate res) i)

/-- The loop over the places of the map. -/
def setProviders (now : Date) (pmap : Nat) :
    List Nat → CardReader → Card → Option (CardReader × Card)
  | [], reader, card => some (reader, card)
  | i :: places, reader, card =>
      if pmap.testBit i then
        match setProviderInfo now reader card i with
        | none => none
        | some (reader, card) => setProviders now pmap places reader card
      else setProviders now pmap places reader card

/-- `for (reader->nprov=0, i=pmap; i; i>>=1) reader->nprov+=i&1;` -/
def countProviders (pmap : Nat) : Nat :=
  if pmap = 0 then 0 else pmap % 2 + countProviders (pmap / 2)

/-- The map of the providers in the answer to `ins16`. -/
def providerMap (res : Memory) : Nat := (res 2).toNat * 256 + (res 3).toNat

/-- `seca_card_init` up to the parental lock, with the map; none stands for
`ERROR`. -/
def secaCardInit (now : Date) (atr : Memory) (reader : CardReader)
    (card : Card) : Option (Nat × CardReader × Card) :=
  if atr 10 ≠ 0x0E ∨ atr 11 ≠ 0x6C ∨ atr 12 ≠ 0xB6 ∨ atr 13 ≠ 0xD6 then none
  else
    match card.write [0xC1, 0x0E, 0x00, 0x00, 0x08] with
    | (none, _) => none
    | (some serial, card) =>
        match card.write [0xC1, 0x16, 0x00, 0x00, 0x07] with
        | (none, _) => none
        | (some res, card) =>
            let pmap := providerMap res
            let reader := { reader with
              caid := 0x0100
              hexserial := reader.hexserial.write 0 (serial.read 2 6)
              nprov := countProviders pmap
              prid := fun _ _ => 0xFF
              entitlements := [] }
            (setProviders now pmap (List.range 16) reader card).map
              fun (reader, card) => (pmap, reader, card)

/-! ## Requests and EMMs -/

/-- `get_prov_index`; none stands for -1. -/
def getProvIndex (rdr : CardReader) (provid : List UInt8) : Option Nat :=
  (List.range rdr.nprov).find? fun prov => (rdr.prid prov).read 2 2 == provid

/-- The texts that `seca_do_ecm` leaves in `msglog`. -/
inductive Message where
  | providerNotFound
  | providerExpired
  | ins3cTry (number : Nat)
  | unsubscribed
  | ins3cRes (sw1 sw2 : UInt8)
  | ins3aRes (sw1 sw2 : UInt8)
  deriving DecidableEq, Repr

/-- The end of a request; without control words it is `ERROR`. -/
structure EcmAnswer where
  msglog : Option Message
  cw : Option (List UInt8)
  card : Card

/-- One request with `ins3c`, and another one if the card wants a token. -/
def requestCw (card : Card) (ins3c : List UInt8) : Option Memory × Card :=
  match card.write ins3c with
  | (none, card) => (none, card)
  | (some res, card) =>
      if res 0 = 0x90 ∧ res 1 = 0x1A then
        match card.write ([0xC1, 0x30, 0x00, 0x02, 0x09] ++
            [0, 0, 0, 0, 0, 0, 0, 0, 0xFF]) with
        | (none, card) => (none, card)
        | (some _, card) => card.write ins3c
      else (some res, card)

/-- `ins3a`, which asks for the control words. -/
def readCw (card : Card) (msglog : Option Message) : EcmAnswer :=
  match card.write [0xC1, 0x3A, 0x00, 0x00, 0x10] with
  | (none, card) => { msglog, cw := none, card }
  | (some res, card) =>
      if res 16 ≠ 0x90 ∨ res 17 ≠ 0x00 then
        { msglog := some (.ins3aRes (res 16) (res 17)), cw := none, card }
      else { msglog, cw := some (res.read 0 16), card }

/-- The text at the begin of a try. -/
def tryLog (number : Nat) (msglog : Option Message) : Option Message :=
  if number > 1 then some (.ins3cTry number) else msglog

/-- The tries with `ins3c`; so many more may follow. -/
def tryRequests (ins3c : List UInt8) (card : Card) (number : Nat)
    (msglog : Option Message) : Nat → EcmAnswer
  | 0 => { msglog, cw := none, card }
  | left + 1 =>
      match requestCw card ins3c with
      | (none, card) => { msglog := tryLog number msglog, cw := none, card }
      | (some res, card) =>
          if res 0 = 0x93 ∧ res 1 = 0x02 then
            { msglog := some .unsubscribed, cw := none, card }
          else if res 0 ≠ 0x90 ∨ res 1 ≠ 0x00 then
            tryRequests ins3c card (number + 1)
              (some (.ins3cRes (res 0) (res 1))) left
          else readCw card (tryLog number msglog)

/-- `seca_do_ecm`. -/
def secaDoEcm (reader : CardReader) (ecm : Memory) (card : Card) : EcmAnswer :=
  match getProvIndex reader (ecm.read 3 2) with
  | none => { msglog := some .providerNotFound, cw := none, card }
  | some i =>
      if ecm 7 &&& 0x0F ≠ 0x0E ∧ reader.availkeys i 0 = 0 then
        { msglog := some .providerExpired, cw := none, card }
      else
        let size := (ecm 2) - 0x05
        tryRequests
          ([0xC1, 0x3C, UInt8.ofNat i, ecm 7, size] ++ ecm.read 8 size.toNat)
          card 1 none 2

/-- `seca_get_emm_type`: the EMM, and whether it is passed. -/
def secaGetEmmType (ep : EmmPacket) (rdr : CardReader) : EmmPacket × Bool :=
  if ep.emm 0 = 0x82 then
    ({ ep with
        type := .unique, hexserial := Memory.zero.write 0 (ep.emm.read 3 6) },
      rdr.hexserial.read 0 6 == ep.emm.read 3 6)
  else if ep.emm 0 = 0x84 then
    ({ ep with
        type := .shared, hexserial := Memory.zero.write 0 (ep.emm.read 5 3) },
      match getProvIndex rdr (ep.emm.read 3 2) with
      | none => false
      | some i => (rdr.sa i).read 0 3 == ep.emm.read 5 3)
  else if ep.emm 0 = 0x83 ∨ ep.emm 0 = 0x88 ∨ ep.emm 0 = 0x89 then
    ({ ep with type := .unknown }, false)
  else ({ ep with type := .unknown }, true)

/-! ## What the card says -/

/-- The places of the map, with the answers of the card to `ins12`. -/
def providerAnswers (pmap : Nat) :
    List Nat → List (Option Memory) → List (Nat × Memory)
  | [], _ => []
  | i :: places, answers =>
      if pmap.testBit i then
        match answers.head?.join with
        | some res => (i, res) :: providerAnswers pmap places answers.tail
        | none => []
      else providerAnswers pmap places answers

/-- The providers of a card, which come behind its serial and its map. -/
def providers (pmap : Nat) (card : Card) : List (Nat × Memory) :=
  providerAnswers pmap (List.range 16) (card.answers.drop 2)

/-- The two bytes that a provider is known by. -/
def providerId (res : Memory) : List UInt8 := res.read 0 2

/-- A provider is found at its place: no request and no EMM for it is rejected
as one for a provider that the card does not have. -/
structure Known (rdr : CardReader) (place : Nat) (provid : List UInt8) :
    Prop where
  index : getProvIndex rdr provid = some place
  ecm : ∀ (ecm : Memory) (card : Card), ecm.read 3 2 = provid →
    (secaDoEcm rdr ecm card).msglog ≠ some .providerNotFound
  emm : ∀ ep : EmmPacket, ep.emm 0 = 0x84 → ep.emm.read 3 2 = provid →
    (secaGetEmmType ep rdr).2 =
      ((rdr.sa place).read 0 3 == ep.emm.read 5 3)

/-- Every place below a provider has a provider, too. -/
def NoHole (pmap : Nat) : Prop :=
  ∀ i j, i < j → pmap.testBit j = true → pmap.testBit i = true

variable {now : Date} {pmap i n : Nat} {rdr after : CardReader}
  {card rest : Card} {provid : List UInt8}

/-! ### Requests that are not rejected -/

theorem msglog_readCw (card : Card) {msglog : Option Message}
    (other : msglog ≠ some .providerNotFound) :
    (readCw card msglog).msglog ≠ some .providerNotFound := by
  unfold readCw
  split
  · exact other
  · split
    · intro same
      cases same
    · exact other

theorem msglog_tryRequests (ins3c : List UInt8) (card : Card) (number : Nat)
    {msglog : Option Message} (other : msglog ≠ some .providerNotFound)
    (left : Nat) :
    (tryRequests ins3c card number msglog left).msglog ≠
      some .providerNotFound := by
  induction left generalizing card number msglog with
  | zero => exact other
  | succ left induction =>
      have later : tryLog number msglog ≠ some .providerNotFound := by
        unfold tryLog
        split
        · intro same
          cases same
        · exact other
      rw [tryRequests]
      split
      · exact later
      · split
        · intro same
          cases same
        · split
          · apply induction
            intro same
            cases same
          · exact msglog_readCw _ later

/-- What the index says holds for requests and EMMs. -/
theorem known_of_index {place : Nat}
    (index : getProvIndex rdr provid = some place) :
    Known rdr place provid where
  index := index
  ecm := by
    intro ecm card same
    rw [secaDoEcm, same, index]
    show (if _ then _ else _ : EcmAnswer).msglog ≠ _
    split
    · intro same
      cases same
    · exact msglog_tryRequests _ _ _ (by intro same; cases same) _
  emm := by
    intro ep shared same
    have other : ep.emm 0 ≠ 0x82 := by
      rw [shared]
      decide
    rw [secaGetEmmType, if_neg other, if_pos shared, same, index]

/-! ### What the initialisation stores -/

/-- One place is stored. -/
structure StoredOne (i : Nat) (res : Memory) (before after : CardReader) :
    Prop where
  nprov : after.nprov = before.nprov
  found : (after.prid i).read 2 2 = providerId res
  other : ∀ place, place ≠ i → after.prid place = before.prid place
  few : before.entitlements.length ≤ i - 1 → after.entitlements.length ≤ i

theorem storedOne_storeProvider (now : Date) (rdr : CardReader) (res : Memory)
    (i : Nat) : StoredOne i res rdr (storeProvider now rdr res i) where
  nprov := rfl
  found := by
    have size := Memory.length_read res 0 2
    have written := Memory.read_write ((rdr.prid i).write 0 [0, 0]) 2
      (res.read 0 2)
    rw [size] at written
    show (Function.update rdr.prid i _ i).read 2 2 = _
    rw [Function.update_self]
    exact written
  other _ different := Function.update_of_ne different _ _
  few short := Nat.le_trans short (Nat.sub_le i 1)

/-- As long as there are fewer entitlements than places, none is found. -/
theorem storeEntitlement_of_few (few : rdr.entitlements.length ≤ i - 1)
    (card : Card) (date : Date) :
    (storeEntitlement rdr card date i).2 = card ∧
      (storeEntitlement rdr card date i).1.prid = rdr.prid ∧
      (storeEntitlement rdr card date i).1.nprov = rdr.nprov ∧
      (storeEntitlement rdr card date i).1.entitlements.length ≤ i := by
  have none : rdr.entitlements[i - 1]? = none :=
    List.getElem?_eq_none few
  unfold storeEntitlement
  dsimp only
  rw [none]
  dsimp only
  split
  · exact ⟨rfl, rfl, rfl, Nat.le_trans few (Nat.sub_le i 1)⟩
  · rename_i later
    refine ⟨rfl, rfl, rfl, ?_⟩
    rw [List.length_append, List.length_singleton]
    omega

theorem setProviderInfo_stored (few : rdr.entitlements.length ≤ i - 1)
    (done : setProviderInfo now rdr card i = some (after, rest)) :
    ∃ res, card.answers = some res :: rest.answers ∧
      StoredOne i res rdr after := by
  unfold setProviderInfo Card.write at done
  cases known : card.answers with
  | nil =>
      rw [known] at done
      cases done
  | cons answer answers =>
      rw [known] at done
      cases answer with
      | none => cases done
      | some res =>
          dsimp only [List.head?_cons, Option.join_some, List.tail_cons] at done
          split at done
          · cases done
          · have stored := storedOne_storeProvider now rdr res i
            obtain ⟨same, prid, nprov, short⟩ := @storeEntitlement_of_few _
              (storeProvider now rdr res i) few
              { answers, sent := card.sent ++
                [[0xC1, 0x12, UInt8.ofNat i, 0x00, 0x19]] } (readDate res)
            have pair := Option.some.inj done
            rw [pair] at same prid nprov short
            dsimp only at same prid nprov short
            refine ⟨res, by rw [same], nprov.trans stored.nprov, ?_, ?_,
              fun _ => short⟩
            · rw [prid, stored.found]
            · intro place different
              rw [prid, stored.other place different]

/-- The places are stored one after the other. -/
structure Stored (pmap : Nat) (places : List Nat)
    (answers : List (Option Memory)) (before after : CardReader) : Prop where
  nprov : after.nprov = before.nprov
  found : ∀ provider ∈ providerAnswers pmap places answers,
    (after.prid provider.1).read 2 2 = providerId provider.2
  present : ∀ place ∈ places, pmap.testBit place = true →
    ∃ res, (place, res) ∈ providerAnswers pmap places answers
  other : ∀ place ∉ places, after.prid place = before.prid place

theorem place_of_mem_providerAnswers {places : List Nat}
    {answers : List (Option Memory)} {provider : Nat × Memory}
    (member : provider ∈ providerAnswers pmap places answers) :
    provider.1 ∈ places ∧ pmap.testBit provider.1 = true := by
  induction places generalizing answers with
  | nil => exact absurd member List.not_mem_nil
  | cons i places induction =>
      rw [providerAnswers] at member
      split at member
      · rename_i set
        split at member
        · rcases List.mem_cons.mp member with rfl | later
          · exact ⟨List.mem_cons_self, set⟩
          · have inside := induction later
            exact ⟨List.mem_cons_of_mem _ inside.1, inside.2⟩
        · exact absurd member List.not_mem_nil
      · have inside := induction member
        exact ⟨List.mem_cons_of_mem _ inside.1, inside.2⟩

theorem setProviders_stored (few : rdr.entitlements.length ≤ i - 1)
    (done : setProviders now pmap (List.range' i n) rdr card =
      some (after, rest)) :
    Stored pmap (List.range' i n) card.answers rdr after := by
  induction n generalizing i rdr card with
  | zero =>
      cases done
      exact
        { nprov := rfl
          found := fun _ none => absurd none List.not_mem_nil
          present := fun _ none => absurd none List.not_mem_nil
          other := fun _ _ => rfl }
  | succ n induction =>
      rw [List.range'_succ] at done ⊢
      rw [setProviders] at done
      by_cases set : pmap.testBit i = true
      · rw [if_pos set] at done
        cases one : setProviderInfo now rdr card i with
        | none =>
            rw [one] at done
            cases done
        | some next =>
            obtain ⟨reader, left⟩ := next
            rw [one] at done
            obtain ⟨res, answers, stored⟩ := setProviderInfo_stored few one
            have later := induction (stored.few few) done
            have list : providerAnswers pmap (i :: List.range' (i + 1) n)
                card.answers = (i, res) ::
                  providerAnswers pmap (List.range' (i + 1) n)
                    left.answers := by
              rw [answers, providerAnswers, if_pos set]
              rfl
            have behind : i ∉ List.range' (i + 1) n := by
              rw [List.mem_range'_1]
              omega
            constructor
            · rw [later.nprov, stored.nprov]
            · rw [list, List.forall_mem_cons]
              refine ⟨?_, later.found⟩
              rw [later.other i behind, stored.found]
            · rw [list, List.forall_mem_cons]
              refine ⟨fun _ => ⟨res, List.mem_cons_self⟩, ?_⟩
              intro place member used
              obtain ⟨res, inside⟩ := later.present place member used
              exact ⟨res, List.mem_cons_of_mem _ inside⟩
            · intro place outside
              rw [List.mem_cons, not_or] at outside
              rw [later.other place outside.2, stored.other place outside.1]
      · rw [if_neg set] at done
        have later := @induction (i + 1) rdr card (by omega) done
        have list : providerAnswers pmap (i :: List.range' (i + 1) n)
            card.answers =
              providerAnswers pmap (List.range' (i + 1) n) card.answers := by
          rw [providerAnswers, if_neg set]
        constructor
        · exact later.nprov
        · rw [list]
          exact later.found
        · rw [list, List.forall_mem_cons]
          exact ⟨fun used => absurd used set, later.present⟩
        · intro place outside
          rw [List.mem_cons, not_or] at outside
          exact later.other place outside.2

/-! ### Counting -/

/-- The places below `w` that have a provider. -/
def places (w pmap : Nat) : List Nat :=
  (List.range w).filter fun i => pmap.testBit i

theorem countProviders_eq (w : Nat) (small : pmap < 2 ^ w) :
    countProviders pmap = (places w pmap).length := by
  unfold places
  rw [← List.countP_eq_length_filter]
  induction w generalizing pmap with
  | zero =>
      have zero : pmap = 0 := by omega
      rw [zero, countProviders, if_pos rfl]
      rfl
  | succ w induction =>
      have half : pmap / 2 < 2 ^ w := by omega
      have higher : (fun i => pmap.testBit i) ∘ Nat.succ =
          fun i => (pmap / 2).testBit i := by
        funext i
        exact Nat.testBit_succ pmap i
      rw [List.range_succ_eq_map, List.countP_cons, List.countP_map, higher,
        ← induction half, Nat.testBit_zero]
      by_cases zero : pmap = 0
      · rw [zero]
        rfl
      · rw [countProviders, if_neg zero, Nat.add_comm]
        congr 1
        rcases Nat.mod_two_eq_zero_or_one pmap with even | odd
        · rw [even]
          rfl
        · rw [odd]
          rfl

theorem mem_places {w : Nat} :
    i ∈ places w pmap ↔ i < w ∧ pmap.testBit i = true := by
  unfold places
  rw [List.mem_filter, List.mem_range]

theorem nodup_places (w pmap : Nat) : (places w pmap).Nodup :=
  List.nodup_range.filter _

/-- Without a hole, a place is below the number of providers. -/
theorem lt_length_places {w : Nat} (whole : NoHole pmap) (small : i < w)
    (set : pmap.testBit i = true) : i < (places w pmap).length := by
  have below : (List.range (i + 1)).Subperm (places w pmap) := by
    apply List.subperm_of_subset List.nodup_range
    intro j member
    rw [List.mem_range] at member
    refine mem_places.mpr ⟨by omega, ?_⟩
    rcases Nat.lt_or_ge j i with less | same
    · exact whole j i less set
    · rwa [show j = i by omega]
  have length := below.length_le
  rw [List.length_range] at length
  exact length

/-- If all places are below their number, they are all that are there. -/
theorem noHole_of_lt {w : Nat} (small : pmap < 2 ^ w)
    (below : ∀ i ∈ places w pmap, i < (places w pmap).length) :
    NoHole pmap := by
  have all : (places w pmap).Perm (List.range (places w pmap).length) := by
    have inside : (places w pmap).Subperm
        (List.range (places w pmap).length) := by
      apply List.subperm_of_subset (nodup_places w pmap)
      intro i member
      exact List.mem_range.mpr (below i member)
    apply inside.perm_of_length_le
    rw [List.length_range]
  intro i j less set
  have inside : j < w := by
    by_contra high
    have large : pmap < 2 ^ j :=
      Nat.lt_of_lt_of_le small (Nat.pow_le_pow_right (by decide) (by omega))
    rw [Nat.testBit_lt_two_pow large] at set
    cases set
  have last := below j (mem_places.mpr ⟨inside, set⟩)
  have member : i ∈ places w pmap :=
    all.mem_iff.mpr (List.mem_range.mpr (by omega))
  exact (mem_places.mp member).2

/-! ### After the initialisation -/

theorem providerMap_lt (res : Memory) : providerMap res < 2 ^ 16 := by
  have high : (res 2).toNat < 2 ^ 8 := UInt8.toNat_lt (res 2)
  have low : (res 3).toNat < 2 ^ 8 := UInt8.toNat_lt (res 3)
  unfold providerMap
  omega

/-- What holds after an initialisation that succeeds. -/
structure Initialised (pmap : Nat) (card : Card) (rdr : CardReader) :
    Prop where
  small : pmap < 2 ^ 16
  nprov : rdr.nprov = (places 16 pmap).length
  found : ∀ provider ∈ providers pmap card,
    (rdr.prid provider.1).read 2 2 = providerId provider.2
  present : ∀ place < 16, pmap.testBit place = true →
    ∃ res, (place, res) ∈ providers pmap card

theorem secaCardInit_initialised {atr : Memory}
    (init : secaCardInit now atr rdr card = some (pmap, after, rest)) :
    Initialised pmap card after := by
  unfold secaCardInit at init
  split at init
  · cases init
  split at init
  · cases init
  rename_i serial card' first
  split at init
  · cases init
  rename_i res card'' second
  obtain ⟨⟨reader, left⟩, stored, same⟩ := Option.map_eq_some_iff.mp init
  cases same
  have answers : card''.answers = card.answers.drop 2 := by
    have one := congrArg (fun pair => pair.2.answers) first
    have two := congrArg (fun pair => pair.2.answers) second
    dsimp only [Card.write] at one two
    rw [← two, ← one, ← List.drop_one, ← List.drop_one, List.drop_drop]
  rw [List.range_eq_range'] at stored
  have done := setProviders_stored (Nat.zero_le _) stored
  rw [← List.range_eq_range', answers] at done
  exact
    { small := providerMap_lt res
      nprov := done.nprov.trans (countProviders_eq 16 (providerMap_lt res))
      found := done.found
      present := fun place inside =>
        done.present place (List.mem_range.mpr inside) }

/-- If all providers are found at their places, the map has no hole. -/
theorem Initialised.noHole (known : Initialised pmap card rdr)
    (all : ∀ provider ∈ providers pmap card,
      getProvIndex rdr (providerId provider.2) = some provider.1) :
    NoHole pmap := by
  apply noHole_of_lt known.small
  intro i member
  obtain ⟨inside, set⟩ := mem_places.mp member
  obtain ⟨res, listed⟩ := known.present i inside set
  rw [← known.nprov]
  exact List.mem_range.mp (List.mem_of_find?_eq_some (all (i, res) listed))

/-- Without a hole, the first place with the bytes is the one of the
provider. -/
theorem Initialised.index (known : Initialised pmap card rdr)
    (distinct :
      ((providers pmap card).map fun provider => providerId provider.2).Nodup)
    (whole : NoHole pmap) {provider : Nat × Memory}
    (listed : provider ∈ providers pmap card) :
    getProvIndex rdr (providerId provider.2) = some provider.1 := by
  obtain ⟨place, set⟩ := place_of_mem_providerAnswers listed
  have inside := List.mem_range.mp place
  have below := lt_length_places whole inside set
  rw [← known.nprov] at below
  rw [getProvIndex, List.find?_range_eq_some]
  refine ⟨beq_iff_eq.mpr (known.found provider listed),
    List.mem_range.mpr below, ?_⟩
  intro j less
  obtain ⟨other, there⟩ := known.present j (by omega) (whole j _ less set)
  rw [Bool.not_eq_true', beq_eq_false_iff_ne, known.found _ there]
  intro same
  have equal := List.inj_on_of_nodup_map distinct there listed same
  rw [← equal] at less
  exact Nat.lt_irrefl j less

/-- After an initialisation that succeeds, all providers of the card are known
exactly if its map has no hole. -/
theorem cardInit_known_iff {atr : Memory}
    (init : secaCardInit now atr rdr card = some (pmap, after, rest))
    (distinct :
      ((providers pmap card).map fun provider => providerId provider.2).Nodup) :
    (∀ provider ∈ providers pmap card,
        Known after provider.1 (providerId provider.2)) ↔ NoHole pmap := by
  have known := secaCardInit_initialised init
  constructor
  · intro all
    exact known.noHole fun provider listed => (all provider listed).index
  · intro whole provider listed
    exact known_of_index (known.index distinct whole listed)

/-- The historical bytes of a Seca card. -/
def secaAtr : Memory := Memory.zero.write 10 [0x0E, 0x6C, 0xB6, 0xD6]

/-- A reader that has not seen a card. -/
def emptyReader : CardReader :=
  { caid := 0, hexserial := .zero, nprov := 0, prid := fun _ => .zero
    availkeys := fun _ => .zero, sa := fun _ => .zero, entitlements := [] }

/-- A card with one provider, 0003, whose map is given. -/
def oneProvider (pmap : UInt8) : Card :=
  { answers := [some .zero, some (Memory.zero.write 3 [pmap]),
      some ((Memory.zero.write 0 [0x00, 0x03]).write 25 [0x90])]
    sent := [] }

theorem oneProvider_init {pmap : UInt8} {map : Nat}
    (done : (secaCardInit ⟨2011, 6, 1⟩ secaAtr emptyReader
      (oneProvider pmap)).map (·.1) = some map) :
    ∃ after rest, secaCardInit ⟨2011, 6, 1⟩ secaAtr emptyReader
      (oneProvider pmap) = some (map, after, rest) := by
  obtain ⟨⟨_, after, rest⟩, init, rfl⟩ := Option.map_eq_some_iff.mp done
  exact ⟨after, rest, init⟩

/-- The provider is at the first place. -/
theorem cardInit_known_first : ∃ after rest,
    secaCardInit ⟨2011, 6, 1⟩ secaAtr emptyReader (oneProvider 1) =
        some (1, after, rest) ∧
      ((∀ provider ∈ providers 1 (oneProvider 1),
        Known after provider.1 (providerId provider.2)) ↔ NoHole 1) := by
  obtain ⟨after, rest, init⟩ := @oneProvider_init 1 1 rfl
  exact ⟨after, rest, init, cardInit_known_iff init (List.nodup_singleton _)⟩

/-- The provider is at the second place, and the first one is empty. -/
theorem secondPlace_not_known :
    ¬ ∀ (now : Date) (atr : Memory) (rdr : CardReader) (card : Card)
      (pmap : Nat) (after : CardReader) (rest : Card),
      secaCardInit now atr rdr card = some (pmap, after, rest) →
      ((providers pmap card).map
        fun provider => providerId provider.2).Nodup →
      ∀ provider ∈ providers pmap card,
        Known after provider.1 (providerId provider.2) := by
  intro always
  obtain ⟨after, rest, init⟩ := @oneProvider_init 2 2 rfl
  have all := always _ _ _ _ _ _ _ init (List.nodup_singleton _)
  have whole := (secaCardInit_initialised init).noHole
    fun provider listed => (all provider listed).index
  have first := whole 0 1 Nat.zero_lt_one rfl
  cases first

end Seca

end Oscam
