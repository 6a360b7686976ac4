import Oscam.Cccam.CardMessage

/-!
# The size of a card message, and what is read back

`write_card` does not look at the size of its buffer, so that a card with many
providers or nodes is written past its end.  A card that fits is read back as
it was, as far as the message holds it.
-/

namespace Oscam.Cccam

variable {env : CardEnv} {card : Card} {w : Walk}

/-! ## The size of the message -/

/-- The bytes of a card message. -/
def messageSize (env : CardEnv) (card : Card) (addOwn ext : Bool) : Nat :=
  (if ext then
      23 + 2 * ((assignedSids env card).length +
        (rejectedSids env card).length)
    else 21) +
    7 * card.providers.length + 1 +
    8 * (card.remoteNodes.length + if addOwn then 1 else 0)

theorem length_flatten {size : Nat} {entries : List (List UInt8)}
    (sizes : ∀ entry ∈ entries, entry.length = size) :
    entries.flatten.length = size * entries.length := by
  induction entries with
  | nil => rfl
  | cons entry entries induction =>
      rw [List.flatten_cons, List.length_append, sizes entry (by simp),
        induction fun other member => sizes other (by simp [member]),
        List.length_cons, Nat.mul_succ, Nat.add_comm]

theorem sidEntries_size (sids : List Nat) :
    ∀ entry ∈ sidEntries sids, entry.length = 2 := by
  intro entry member
  obtain ⟨sid, _, rfl⟩ := List.mem_map.mp member
  exact Memory.length_digits 2 sid

/-- The providers are written behind the head. -/
theorem putProviders_frame (auAllowed : Bool) (providers : List Provider)
    (before : 20 < w.ofs) :
    (providers.foldl (putProvider auAllowed) w).ofs =
        w.ofs + 7 * providers.length ∧
      ∀ i < w.ofs, i ≠ 20 →
        (providers.foldl (putProvider auAllowed) w).m i = w.m i := by
  induction providers generalizing w with
  | nil => simp
  | cons prov providers induction =>
      have next : (putProvider auAllowed w prov).ofs = w.ofs + 7 := rfl
      have further : 20 < (putProvider auAllowed w prov).ofs := by omega
      obtain ⟨ofs, frame⟩ := induction further
      constructor
      · rw [List.foldl_cons, ofs, next, List.length_cons]
        omega
      · intro i below other
        rw [List.foldl_cons, frame i (by omega) other]
        simp only [putProvider]
        rw [Walk.m_count_of_ne _ other]
        cases auAllowed with
        | false => exact Memory.write_of_lt below
        | true =>
            simp only [if_true]
            rw [Memory.write_of_lt (by omega), Memory.write_of_lt below]

theorem length_head (card : Card) :
    (Memory.digits 4 card.id ++ Memory.digits 4 card.remoteId ++
      Memory.digits 2 card.caid ++ Memory.digits 1 card.hop ++
        Memory.digits 1 card.reshare).length = 12 := by
  simp

/-- Behind the head the buffer is clear. -/
theorem writeHead_zero (typed : card.WellTyped) (buf : Memory) {i : Nat}
    (behind : 20 ≤ i) (inside : i < maxMsgSize) :
    writeHead env buf card i = 0 := by
  have cleared : (buf.clear maxMsgSize).write 0
      (Memory.digits 4 card.id ++ Memory.digits 4 card.remoteId ++
        Memory.digits 2 card.caid ++ Memory.digits 1 card.hop ++
          Memory.digits 1 card.reshare) i = 0 := by
    rw [Memory.write_of_le (by rw [length_head]; omega)]
    exact if_pos inside
  unfold writeHead
  cases env.auAllowed with
  | false => exact cleared
  | true =>
      simp only [if_true]
      rw [Memory.write_of_le (by rw [typed.hexserial]; omega)]
      exact cleared

/-- The message up to the providers. -/
def withProviders (env : CardEnv) (buf : Memory) (card : Card) (ext : Bool) :
    Walk :=
  card.providers.foldl (putProvider env.auAllowed)
    { m := writeHead env buf card, ofs := if ext then 23 else 21 }

/-- The message up to the services. -/
def withServices (env : CardEnv) (buf : Memory) (card : Card) (ext : Bool) :
    Walk :=
  let w := withProviders env buf card ext
  if ext then
    (w.putAll 21 (sidEntries (assignedSids env card))).putAll 22
      (sidEntries (rejectedSids env card))
  else w

theorem withProviders_frame (env : CardEnv) (buf : Memory) (card : Card)
    (ext : Bool) :
    (withProviders env buf card ext).ofs =
        (if ext then 23 else 21) + 7 * card.providers.length ∧
      ∀ i < (if ext then 23 else 21), i ≠ 20 →
        (withProviders env buf card ext).m i = writeHead env buf card i := by
  have before : 20 < (if ext then 23 else 21) := by
    cases ext <;> decide
  exact putProviders_frame env.auAllowed card.providers before

theorem writeCard_eq (typed : card.WellTyped) (buf : Memory)
    (addOwn ext : Bool) :
    writeCard env buf card addOwn ext =
      let w := withServices env buf card ext
      ({ w with ofs := w.ofs + 1 } : Walk).putAll w.ofs
        (card.remoteNodes ++ if addOwn then [env.nodeId] else []) := by
  obtain ⟨ofs, frame⟩ := withProviders_frame env buf card ext
  have services : (if ext then
      putServices env card (withProviders env buf card ext)
      else withProviders env buf card ext) =
        withServices env buf card ext := by
    cases ext with
    | false => rfl
    | true =>
        simp only [if_true] at ofs frame ⊢
        rw [withServices, putServices_eq (by omega)]
        · rfl
        · rw [frame 21 (by decide) (by decide)]
          exact writeHead_zero typed buf (by decide) (by decide)
        · rw [frame 22 (by decide) (by decide)]
          exact writeHead_zero typed buf (by decide) (by decide)
  simp only [writeCard]
  rw [← withProviders, services]
  cases addOwn with
  | false => simp
  | true => simp [Walk.putAll]

theorem withServices_ofs (env : CardEnv) (buf : Memory) (card : Card)
    (ext : Bool) :
    (withServices env buf card ext).ofs =
      (if ext then
          23 + 2 * ((assignedSids env card).length +
            (rejectedSids env card).length)
        else 21) + 7 * card.providers.length := by
  obtain ⟨ofs, _⟩ := withProviders_frame env buf card ext
  cases ext with
  | false => exact ofs
  | true =>
      simp only [if_true] at ofs
      have good := Walk.putAll_filled
        (show 21 < (withProviders env buf card true).ofs by omega)
        (sidEntries (assignedSids env card))
      have bad := Walk.putAll_filled
        (show 22 < ((withProviders env buf card true).putAll 21
          (sidEntries (assignedSids env card))).ofs by
            rw [good.ofs]
            omega)
        (sidEntries (rejectedSids env card))
      simp only [withServices, if_true]
      rw [bad.ofs, good.ofs, ofs, length_flatten (sidEntries_size _),
        length_flatten (sidEntries_size _)]
      simp only [sidEntries, List.length_map]
      omega

/-- The nodes are written behind the byte that counts them. -/
theorem nodes_filled (env : CardEnv) (buf : Memory) (card : Card)
    (addOwn ext : Bool) :
    let w := withServices env buf card ext
    let nodes := card.remoteNodes ++ if addOwn then [env.nodeId] else []
    Walk.Filled { w with ofs := w.ofs + 1 }
      (({ w with ofs := w.ofs + 1 } : Walk).putAll w.ofs nodes) w.ofs
        nodes.length nodes.flatten :=
  Walk.putAll_filled (Nat.lt_succ_self _) _

/-- The offset at which `write_card` ends. -/
theorem ofs_writeCard (typed : card.WellTyped) (own : env.nodeId.length = 8)
    (buf : Memory) (addOwn ext : Bool) :
    (writeCard env buf card addOwn ext).ofs =
      messageSize env card addOwn ext := by
  have nodes : ∀ entry ∈ card.remoteNodes ++
      (if addOwn then [env.nodeId] else []), entry.length = 8 := by
    intro entry member
    rcases List.mem_append.mp member with old | new
    · exact typed.remoteNodes entry old
    · cases addOwn with
      | false => cases new
      | true =>
          rw [List.mem_singleton.mp new]
          exact own
  rw [writeCard_eq typed, (nodes_filled env buf card addOwn ext).ofs,
    length_flatten nodes, withServices_ofs, messageSize, List.length_append,
    apply_ite List.length]
  rfl

/-- A card message stays within its buffer exactly if the providers, services
and nodes of the card have room in it. -/
theorem writeCard_inBuffer_iff (typed : card.WellTyped)
    (own : env.nodeId.length = 8) (buf : Memory) (addOwn ext : Bool) :
    (writeCard env buf card addOwn ext).ofs ≤ maxMsgSize ↔
      messageSize env card addOwn ext ≤ maxMsgSize := by
  rw [ofs_writeCard typed own]

/-- A card of a reader service with some providers. -/
def serviceCard (provid : List Nat) : Card :=
  { addr := 0, id := 0x64, remoteId := 0x10000, caid := 0x0D05, hop := 0
    reshare := 10, hexserial := List.replicate 8 0
    providers := provid.map fun prov => { prov := prov, sa := [0, 0, 0, 0] }
    badsids := [], goodsids := [], remoteNodes := [], originReader := some 0
    cardType := .cardByServiceReader, sidtab := some 0, grp := 0
    rdrReshare := 10, sidtabno := 0, timeout := 0, isExt := false }

/-- The service of `serviceCard`. -/
def serviceEnv (provid : List Nat) : CardEnv :=
  { cfgSidtab := [{ caid := [0x0D05], provid := provid, srvid := [] }]
    nodeId := [1, 2, 3, 4, 5, 6, 7, 8], auAllowed := true, sidtabno := 0 }

theorem serviceCard_wellTyped (provid : List Nat) :
    (serviceCard provid).WellTyped := by
  constructor <;> simp [serviceCard]

theorem writeCard_inBuffer_service :
    (serviceCard [4]).WellTyped ∧ (serviceEnv [4]).nodeId.length = 8 ∧
      ((writeCard (serviceEnv [4]) Memory.zero (serviceCard [4]) true true).ofs
          ≤ maxMsgSize ↔
        messageSize (serviceEnv [4]) (serviceCard [4]) true true ≤
          maxMsgSize) :=
  ⟨serviceCard_wellTyped [4], rfl,
    writeCard_inBuffer_iff (serviceCard_wellTyped [4]) rfl _ _ _⟩

/-- A service with 143 providers. -/
theorem card_out_of_buffer :
    (serviceCard (List.range 143)).WellTyped ∧
      (writeCard (serviceEnv (List.range 143)) Memory.zero
        (serviceCard (List.range 143)) true false).ofs = 1031 ∧
      maxMsgSize < 1031 := by
  have typed := serviceCard_wellTyped (List.range 143)
  constructor
  · exact typed
  · constructor
    · rw [ofs_writeCard typed rfl]
      simp [messageSize, serviceCard]
    · decide

/-! ## What a message holds -/

def providerEntries (card : Card) : List (List UInt8) :=
  card.providers.map fun prov => Memory.digits 3 prov.prov ++ prov.sa

theorem putProvider_true {prov : Provider} (four : prov.sa.length = 4)
    (w : Walk) :
    putProvider true w prov =
      (w.put (Memory.digits 3 prov.prov ++ prov.sa)).count 20 := by
  have joined := Memory.write_write w.m w.ofs (Memory.digits 3 prov.prov)
    prov.sa
  rw [Memory.length_digits] at joined
  simp only [putProvider, Walk.put, Walk.count, if_true, joined,
    List.length_append, Memory.length_digits, four]

theorem providers_filled (au : env.auAllowed = true) (typed : card.WellTyped)
    (buf : Memory) (ext : Bool) :
    Walk.Filled
      { m := writeHead env buf card, ofs := if ext then 23 else 21 }
      (withProviders env buf card ext) 20 card.providers.length
      (providerEntries card).flatten := by
  have entries : ∀ (providers : List Provider),
      (∀ prov ∈ providers, prov.sa.length = 4) → ∀ w : Walk,
        providers.foldl (putProvider true) w =
          w.putAll 20 (providers.map fun prov =>
            Memory.digits 3 prov.prov ++ prov.sa) := by
    intro providers
    induction providers with
    | nil =>
        intro _ w
        rfl
    | cons prov providers induction =>
        intro sizes w
        rw [List.foldl_cons, putProvider_true (sizes prov (by simp)),
          induction fun other member => sizes other (by simp [member])]
        rfl
  have before : 20 < (if ext then 23 else 21) := by
    cases ext <;> decide
  unfold withProviders
  rw [au, entries card.providers typed.sa]
  have stage := @Walk.putAll_filled
    { m := writeHead env buf card, ofs := if ext then 23 else 21 } 20 before
    (providerEntries card)
  rw [providerEntries, List.length_map] at stage
  exact stage

/-- The two stages of the services. -/
theorem services_filled (env : CardEnv) (buf : Memory) (card : Card) :
    let w := withProviders env buf card true
    let assigned := sidEntries (assignedSids env card)
    let rejected := sidEntries (rejectedSids env card)
    Walk.Filled w (w.putAll 21 assigned) 21 assigned.length
        assigned.flatten ∧
      Walk.Filled (w.putAll 21 assigned) (withServices env buf card true) 22
        rejected.length rejected.flatten := by
  obtain ⟨ofs, _⟩ := withProviders_frame env buf card true
  simp only [if_true] at ofs
  have good := @Walk.putAll_filled (withProviders env buf card true) 21
    (by omega) (sidEntries (assignedSids env card))
  constructor
  · exact good
  · apply Walk.putAll_filled
    rw [good.ofs]
    omega

/-- The services leave what is in front of them and behind them. -/
theorem withServices_frame (env : CardEnv) (buf : Memory) (card : Card)
    (ext : Bool) {i : Nat} (counters : ext = true → i ≠ 21 ∧ i ≠ 22)
    (outside : i < (withProviders env buf card ext).ofs ∨
      (withServices env buf card ext).ofs ≤ i) :
    (withServices env buf card ext).m i =
      (withProviders env buf card ext).m i := by
  cases ext with
  | false => rfl
  | true =>
      obtain ⟨good, bad⟩ := services_filled env buf card
      obtain ⟨notGood, notBad⟩ := counters rfl
      rcases outside with inFront | behind
      · rw [bad.frame i _ notBad, good.frame i inFront notGood]
        rw [good.ofs]
        omega
      · rw [bad.behind i behind notBad, good.behind i _ notGood]
        have further := bad.ofs
        omega

section Message

variable {buf : Memory} {ext : Bool}

theorem message_front (typed : card.WellTyped) {i : Nat}
    (inFront : i < (withServices env buf card ext).ofs) :
    (writeCard env buf card true ext).m i =
      (withServices env buf card ext).m i := by
  rw [writeCard_eq typed]
  exact (nodes_filled env buf card true ext).frame i (Nat.lt_succ_of_lt inFront)
    (Nat.ne_of_lt inFront)

/-- The offset behind the services is behind the providers and the counters. -/
theorem withServices_ofs_le (env : CardEnv) (buf : Memory) (card : Card)
    (ext : Bool) :
    (withProviders env buf card ext).ofs ≤ (withServices env buf card ext).ofs ∧
      (if ext then 23 else 21) ≤ (withProviders env buf card ext).ofs := by
  obtain ⟨ofs, _⟩ := withProviders_frame env buf card ext
  have services := withServices_ofs env buf card ext
  constructor
  · rw [services, ofs]
    cases ext <;> simp
  · omega

theorem message_head (typed : card.WellTyped) {i : Nat} (head : i < 20) :
    (writeCard env buf card true ext).m i = writeHead env buf card i := by
  obtain ⟨further, start⟩ := withServices_ofs_le env buf card ext
  obtain ⟨_, frame⟩ := withProviders_frame env buf card ext
  have low : 20 < (if ext then 23 else 21) := by
    cases ext <;> decide
  rw [message_front typed (by omega), withServices_frame _ _ _ _
    (fun _ => by omega) (Or.inl (by omega)), frame i (by omega) (by omega)]

theorem message_counts_providers (au : env.auAllowed = true)
    (typed : card.WellTyped) :
    (writeCard env buf card true ext).m 20 =
      UInt8.ofNat card.providers.length := by
  obtain ⟨further, start⟩ := withServices_ofs_le env buf card ext
  have low : 20 < (if ext then 23 else 21) := by
    cases ext <;> decide
  rw [message_front typed (by omega), withServices_frame _ _ _ _
    (fun _ => by omega) (Or.inl (by omega)),
    (providers_filled au typed buf ext).counted]
  have clear : writeHead env buf card 20 = 0 :=
    writeHead_zero typed buf (by decide) (by decide)
  exact (congrArg (· + _) clear).trans (UInt8.zero_add _)

theorem message_providers (au : env.auAllowed = true)
    (typed : card.WellTyped) :
    (writeCard env buf card true ext).m.read (if ext then 23 else 21)
        (providerEntries card).flatten.length =
      (providerEntries card).flatten := by
  obtain ⟨further, start⟩ := withServices_ofs_le env buf card ext
  have stage := providers_filled au typed buf ext
  have ofs : (withProviders env buf card ext).ofs =
      (if ext then 23 else 21) + (providerEntries card).flatten.length :=
    stage.ofs
  refine (Memory.read_congr ?_).trans stage.body
  intro i low high
  rw [message_front typed (by omega), withServices_frame _ _ _ _
    (fun on => by
      subst on
      simp only [if_true] at low
      omega) (Or.inl (by omega))]

/-- The services of a message in ext mode. -/
theorem message_services (typed : card.WellTyped) :
    let message := (writeCard env buf card true true).m
    let assigned := sidEntries (assignedSids env card)
    let rejected := sidEntries (rejectedSids env card)
    message 21 = UInt8.ofNat assigned.length ∧
      message 22 = UInt8.ofNat rejected.length ∧
      message.read (23 + 7 * card.providers.length) assigned.flatten.length =
        assigned.flatten ∧
      message.read (23 + 7 * card.providers.length + assigned.flatten.length)
        rejected.flatten.length = rejected.flatten := by
  obtain ⟨ofs, frame⟩ := withProviders_frame env buf card true
  obtain ⟨good, bad⟩ := services_filled env buf card
  simp only [if_true] at ofs frame
  have goodOfs := good.ofs
  have badOfs := bad.ofs
  have front : ∀ i < (withServices env buf card true).ofs,
      (writeCard env buf card true true).m i =
        (withServices env buf card true).m i :=
    fun i inFront => message_front typed inFront
  refine ⟨?_, ?_, ?_, ?_⟩
  · rw [front 21 (by omega), bad.frame 21 (by omega) (by decide), good.counted,
      frame 21 (by decide) (by decide),
      writeHead_zero typed buf (by decide) (by decide)]
    exact UInt8.zero_add _
  · rw [front 22 (by omega), bad.counted, good.frame 22 (by omega) (by decide),
      frame 22 (by decide) (by decide),
      writeHead_zero typed buf (by decide) (by decide)]
    exact UInt8.zero_add _
  · refine (Memory.read_congr ?_).trans (ofs ▸ good.body)
    intro i low high
    rw [front i (by omega), bad.frame i (by omega) (by omega)]
  · rw [goodOfs, ofs] at badOfs
    refine (Memory.read_congr ?_).trans (ofs ▸ goodOfs ▸ bad.body)
    intro i low high
    exact front i (by omega)

/-- The nodes of a message that fits. -/
theorem message_nodes (au : env.auAllowed = true) (typed : card.WellTyped)
    (fits : (withServices env buf card ext).ofs < maxMsgSize) :
    let message := (writeCard env buf card true ext).m
    let place := (withServices env buf card ext).ofs
    let nodes := card.remoteNodes ++ [env.nodeId]
    message place = UInt8.ofNat nodes.length ∧
      message.read (place + 1) nodes.flatten.length = nodes.flatten := by
  obtain ⟨further, start⟩ := withServices_ofs_le env buf card ext
  have stage := nodes_filled env buf card true ext
  have low : 20 < (if ext then 23 else 21) := by
    cases ext <;> decide
  rw [writeCard_eq typed]
  refine ⟨?_, stage.body⟩
  rw [stage.counted, withServices_frame _ _ _ _ (fun on => by
    subst on
    simp only [if_true] at start
    omega) (Or.inr (Nat.le_refl _)),
    (providers_filled au typed buf ext).behind _ further (by omega)]
  have clear : writeHead env buf card (withServices env buf card ext).ofs =
      0 := writeHead_zero typed buf (by omega) fits
  exact (congrArg (· + _) clear).trans (UInt8.zero_add _)

/-- The first bytes of a message. -/
theorem message_start (au : env.auAllowed = true) (typed : card.WellTyped) :
    (writeCard env buf card true ext).m.read 0 20 =
      Memory.digits 4 card.id ++ Memory.digits 4 card.remoteId ++
        Memory.digits 2 card.caid ++ Memory.digits 1 card.hop ++
          Memory.digits 1 card.reshare ++ card.hexserial := by
  have same : (writeCard env buf card true ext).m.read 0 20 =
      (writeHead env buf card).read 0 20 := by
    apply Memory.read_congr
    intro i _ high
    exact message_head typed (by omega)
  have joined := Memory.write_write (buf.clear maxMsgSize) 0
    (Memory.digits 4 card.id ++ Memory.digits 4 card.remoteId ++
      Memory.digits 2 card.caid ++ Memory.digits 1 card.hop ++
        Memory.digits 1 card.reshare) card.hexserial
  rw [length_head] at joined
  have whole := Memory.read_write (buf.clear maxMsgSize) 0
    (Memory.digits 4 card.id ++ Memory.digits 4 card.remoteId ++
      Memory.digits 2 card.caid ++ Memory.digits 1 card.hop ++
        Memory.digits 1 card.reshare ++ card.hexserial)
  rw [List.length_append, length_head, typed.hexserial] at whole
  rw [same, writeHead, au]
  simp only [if_true]
  exact (congrArg (fun m => Memory.read m 0 20) joined).trans whole

/-- A number of the head is read as it was written. -/
theorem message_number {start size value : Nat}
    (part : ((Memory.digits 4 card.id ++ Memory.digits 4 card.remoteId ++
      Memory.digits 2 card.caid ++ Memory.digits 1 card.hop ++
        Memory.digits 1 card.reshare ++ card.hexserial).drop start).take size =
          Memory.digits size value)
    (au : env.auAllowed = true) (typed : card.WellTyped)
    (inside : start + size ≤ 20) (small : value < 256 ^ size) :
    (writeCard env buf card true ext).m.number start size = value := by
  have written := Memory.read_part (writeCard env buf card true ext).m 0 inside
  rw [message_start au typed, part, Nat.zero_add] at written
  rw [Memory.number_of_read written, Nat.mod_eq_of_lt small]

/-! ## What is read back -/

theorem providerEntries_size (typed : card.WellTyped) :
    ∀ entry ∈ providerEntries card, entry.length = 7 := by
  intro entry member
  obtain ⟨prov, inside, rfl⟩ := List.mem_map.mp member
  rw [List.length_append, Memory.length_digits, typed.sa prov inside]

theorem length_providerEntries (card : Card) :
    (providerEntries card).length = card.providers.length := List.length_map _

/-- Entry `i` of the providers. -/
theorem message_provider (au : env.auAllowed = true) (typed : card.WellTyped)
    {i : Nat} (inside : i < card.providers.length) :
    let message := (writeCard env buf card true ext).m
    let offset := if ext then 23 else 21
    message.number (offset + 7 * i) 3 = card.providers[i].prov % 2 ^ 24 ∧
      message.read (offset + 7 * i + 3) 4 = card.providers[i].sa := by
  have four := typed.sa card.providers[i] (List.getElem_mem inside)
  have entry := @Walk.read_entry (writeCard env buf card true ext).m
    (if ext then 23 else 21) 7 (providerEntries card)
    (message_providers au typed) (providerEntries_size typed) i
    (by rw [length_providerEntries]; exact inside)
  have prov := Memory.read_part (writeCard env buf card true ext).m
    ((if ext then 23 else 21) + 7 * i) (by decide : 0 + 3 ≤ 7)
  have sa := Memory.read_part (writeCard env buf card true ext).m
    ((if ext then 23 else 21) + 7 * i) (by decide : 3 + 4 ≤ 7)
  simp only [entry, providerEntries, List.getElem_map] at prov sa
  constructor
  · apply Memory.number_of_read
    exact prov
  · rw [sa]
    exact List.take_of_length_le (Nat.le_of_eq four)

/-- A list of services is read as it was written, without the lengths. -/
theorem readSids_sidEntries {m : Memory} {offset : Nat} {sids : List Nat}
    (written : m.read offset (sidEntries sids).flatten.length =
      (sidEntries sids).flatten) (small : ∀ sid ∈ sids, sid < 2 ^ 16) :
    readSids m offset sids.length =
      sids.map fun sid => { sid := sid, ecmlen := 0 } := by
  apply List.ext_getElem
  · simp [readSids]
  · intro i short inside
    rw [List.length_map] at inside
    have entry := @Walk.read_entry m offset 2 (sidEntries sids) written
      (sidEntries_size sids) i (by simpa [sidEntries] using inside)
    simp only [sidEntries, List.getElem_map] at entry
    have below : sids[i] < 256 ^ 2 := small _ (List.getElem_mem inside)
    have number := Memory.number_of_read entry
    rw [Nat.mod_eq_of_lt below] at number
    simp only [readSids, List.getElem_map, List.getElem_range, number]

theorem small_sids (typed : card.WellTyped) (envTyped : env.WellTyped) :
    (∀ sid ∈ assignedSids env card, sid < 2 ^ 16) ∧
      ∀ sid ∈ rejectedSids env card, sid < 2 ^ 16 := by
  have listed : ∀ (sids : List Srvid), (∀ srvid ∈ sids, srvid.sid < 2 ^ 16) →
      ∀ sid ∈ (sids.map (·.sid)).take 200, sid < 2 ^ 16 := by
    intro sids small sid member
    obtain ⟨srvid, inside, rfl⟩ := List.mem_map.mp (List.mem_of_mem_take member)
    exact small srvid inside
  unfold assignedSids rejectedSids
  cases card.sidtab with
  | none => exact ⟨listed _ typed.goodsids, listed _ typed.badsids⟩
  | some place =>
      constructor
      · intro sid member
        have inside := List.mem_of_mem_take member
        by_cases known : place < env.cfgSidtab.length
        · simp only [CardEnv.sidtab, List.getD_eq_getElem _ _ known] at inside
          exact envTyped.srvid _ (List.getElem_mem known) sid inside
        · simp only [CardEnv.sidtab,
            List.getD_eq_default _ _ (not_lt.mp known)] at inside
          cases inside
      · intro sid member
        obtain ⟨table, kept, inside⟩ :=
          List.mem_flatMap.mp (List.mem_of_mem_take member)
        have listedTable := (List.mem_filter.mp kept).1
        exact envTyped.srvid table.1
          (List.fst_mem_of_mem_zipIdx listedTable) sid inside

theorem few_sids (env : CardEnv) (card : Card) :
    (assignedSids env card).length < 256 ∧
      (rejectedSids env card).length < 256 := by
  unfold assignedSids rejectedSids
  cases card.sidtab <;>
    simp only [List.length_take] <;> omega

theorem message_counts_services (typed : card.WellTyped) :
    ((writeCard env buf card true true).m 21).toNat =
        (assignedSids env card).length ∧
      ((writeCard env buf card true true).m 22).toNat =
        (rejectedSids env card).length := by
  obtain ⟨good, bad, _, _⟩ := @message_services env card buf typed
  obtain ⟨fewGood, fewBad⟩ := few_sids env card
  rw [sidEntries, List.length_map] at good bad
  constructor
  · rw [good, UInt8.toNat_ofNat']
    exact Nat.mod_eq_of_lt fewGood
  · rw [bad, UInt8.toNat_ofNat']
    exact Nat.mod_eq_of_lt fewBad

/-- The card that `read_card` makes of a message. -/
def received (addr : Nat) (env : CardEnv) (card : Card) (ext : Bool) : Card :=
  let sids := fun sids : List Nat =>
    if ext then sids.map fun sid => ({ sid := sid, ecmlen := 0 } : Srvid)
    else []
  { addr := addr, id := card.id, remoteId := card.remoteId, caid := card.caid
    hop := card.hop, reshare := card.reshare, hexserial := card.hexserial
    providers := card.providers.map fun prov =>
      { prov with prov := prov.prov % 2 ^ 24 }
    goodsids := sids (assignedSids env card)
    badsids := sids (rejectedSids env card)
    remoteNodes := card.remoteNodes ++ [env.nodeId]
    originReader := none, cardType := .remotecard, sidtab := none, grp := 0
    rdrReshare := 0, sidtabno := 0, timeout := 0, isExt := ext }

/-- The places at which the counted parts begin. -/
theorem message_places (au : env.auAllowed = true) (typed : card.WellTyped)
    (few : card.providers.length < 256) :
    let message := (writeCard env buf card true ext).m
    let offset := if ext then 23 else 21
    let assigned := offset + 7 * (message 20).toNat
    let rejected := assigned + 2 * (if ext then (message 21).toNat else 0)
    (message 20).toNat = card.providers.length ∧
      rejected + 2 * (if ext then (message 22).toNat else 0) =
        (withServices env buf card ext).ofs := by
  have nprov : ((writeCard env buf card true ext).m 20).toNat =
      card.providers.length := by
    rw [message_counts_providers au typed]
    exact UInt8.toNat_ofNat_of_lt few
  dsimp only
  constructor
  · exact nprov
  · rw [nprov, withServices_ofs]
    cases ext with
    | false => simp
    | true =>
        obtain ⟨good, bad⟩ := @message_counts_services env card buf typed
        simp only [if_true, good, bad]
        ring

/-- The numbers and the serial in the head. -/
theorem message_fields (au : env.auAllowed = true) (typed : card.WellTyped) :
    let message := (writeCard env buf card true ext).m
    message.number 0 4 = card.id ∧ message.number 4 4 = card.remoteId ∧
      message.number 8 2 = card.caid ∧ (message 10).toNat = card.hop ∧
        (message 11).toNat = card.reshare ∧
          message.read 12 8 = card.hexserial := by
  have byte : ∀ (m : Memory) (i : Nat), m.number i 1 = (m i).toNat := by
    intro m i
    simp [Memory.number, Memory.read]
  have serial := Memory.read_part (writeCard env buf card true ext).m 0
    (by decide : 12 + 8 ≤ 20)
  refine ⟨?_, ?_, ?_, ?_, ?_, ?_⟩
  · exact message_number rfl au typed (by decide) typed.id
  · exact message_number rfl au typed (by decide) typed.remoteId
  · exact message_number rfl au typed (by decide) typed.caid
  · rw [← byte]
    exact message_number rfl au typed (by decide) typed.hop
  · rw [← byte]
    exact message_number rfl au typed (by decide) typed.reshare
  · rw [message_start au typed, Nat.zero_add] at serial
    rw [serial]
    exact List.take_of_length_le (Nat.le_of_eq typed.hexserial)

theorem message_readProviders (au : env.auAllowed = true)
    (typed : card.WellTyped) :
    let message := (writeCard env buf card true ext).m
    let offset := if ext then 23 else 21
    ((List.range card.providers.length).map fun i =>
        ({ prov := message.number (offset + 7 * i) 3
           sa := message.read (offset + 7 * i + 3) 4 } : Provider)) =
      card.providers.map fun prov =>
        { prov with prov := prov.prov % 2 ^ 24 } := by
  apply List.ext_getElem
  · simp
  · intro i short inside
    rw [List.length_map] at inside
    obtain ⟨prov, sa⟩ := @message_provider env card buf ext au typed i inside
    simp only [List.getElem_map, List.getElem_range, prov, sa]

theorem message_readNodes (au : env.auAllowed = true)
    (typed : card.WellTyped) (envTyped : env.WellTyped)
    (fits : (withServices env buf card ext).ofs < maxMsgSize)
    (few : card.remoteNodes.length + 1 < 256) :
    let message := (writeCard env buf card true ext).m
    let place := (withServices env buf card ext).ofs
    ((List.range (message place).toNat).map fun i =>
        message.read (place + 1 + 8 * i) 8) =
      card.remoteNodes ++ [env.nodeId] := by
  obtain ⟨counted, body⟩ := message_nodes au typed fits
  have sizes : ∀ node ∈ card.remoteNodes ++ [env.nodeId],
      node.length = 8 := by
    intro node member
    rcases List.mem_append.mp member with old | own
    · exact typed.remoteNodes node old
    · rw [List.mem_singleton.mp own]
      exact envTyped.nodeId
  have number : (UInt8.ofNat (card.remoteNodes ++ [env.nodeId]).length).toNat =
      (card.remoteNodes ++ [env.nodeId]).length := by
    rw [UInt8.toNat_ofNat', List.length_append, List.length_singleton]
    exact Nat.mod_eq_of_lt few
  dsimp only
  rw [counted, number]
  apply List.ext_getElem
  · simp
  · intro i short inside
    rw [List.getElem_map, List.getElem_range]
    exact Walk.read_entry body sizes inside

theorem message_readServices (typed : card.WellTyped)
    (envTyped : env.WellTyped) :
    let message := (writeCard env buf card true true).m
    let assigned := 23 + 7 * card.providers.length
    readSids message assigned (assignedSids env card).length =
        (assignedSids env card).map (fun sid => ⟨sid, 0⟩) ∧
      readSids message (assigned + 2 * (assignedSids env card).length)
          (rejectedSids env card).length =
        (rejectedSids env card).map fun sid => ⟨sid, 0⟩ := by
  obtain ⟨_, _, good, bad⟩ := @message_services env card buf typed
  obtain ⟨smallGood, smallBad⟩ := small_sids typed envTyped
  have size : (sidEntries (assignedSids env card)).flatten.length =
      2 * (assignedSids env card).length := by
    rw [length_flatten (sidEntries_size _), sidEntries, List.length_map]
  constructor
  · exact readSids_sidEntries good smallGood
  · rw [size] at bad
    exact readSids_sidEntries bad smallBad

end Message

/-- `read_card` behind `write_card`: what the message holds of a card, with
the own node behind its nodes. -/
theorem readCard_writeCard (au : env.auAllowed = true)
    (typed : card.WellTyped) (envTyped : env.WellTyped) (buf : Memory)
    (ext : Bool) (other : card.caid / 256 ≠ 0x17)
    (fits : (writeCard env buf card true ext).ofs ≤ maxMsgSize) (addr : Nat) :
    readCard addr (writeCard env buf card true ext).m ext =
      received addr env card ext := by
  have size := ofs_writeCard typed envTyped.nodeId buf true ext
  have place := withServices_ofs env buf card ext
  simp only [messageSize, maxMsgSize, if_true] at size fits
  have few : card.providers.length < 256 := by omega
  have inside : (withServices env buf card ext).ofs < maxMsgSize := by
    simp only [maxMsgSize]
    omega
  obtain ⟨id, remoteId, caid, hop, reshare, hexserial⟩ :=
    @message_fields env card buf ext au typed
  obtain ⟨nprov, nodes⟩ := @message_places env card buf ext au typed few
  have providers := @message_readProviders env card buf ext au typed
  have remoteNodes := @message_readNodes env card buf ext au typed envTyped
    inside (by omega)
  unfold readCard received
  simp only [id, remoteId, caid, hop, reshare, hexserial, other, and_false,
    if_false, nprov] at nodes providers ⊢
  rw [nodes, remoteNodes, providers]
  cases ext with
  | false => rfl
  | true =>
      obtain ⟨nassign, nreject⟩ := @message_counts_services env card buf typed
      obtain ⟨good, bad⟩ := @message_readServices env card buf typed envTyped
      simp only [if_true, nassign, nreject, good, bad]

theorem serviceEnv_wellTyped (provid : List Nat) :
    (serviceEnv provid).WellTyped := by
  constructor <;> simp [serviceEnv]

theorem readCard_writeCard_service :
    readCard 1
        (writeCard (serviceEnv [4]) Memory.zero (serviceCard [4]) true true).m
        true =
      received 1 (serviceEnv [4]) (serviceCard [4]) true :=
  readCard_writeCard rfl (serviceCard_wellTyped [4])
    (serviceEnv_wellTyped [4]) Memory.zero true (by decide) (by
      rw [ofs_writeCard (serviceCard_wellTyped [4]) rfl]
      decide) 1

/-- A provider of four bytes, of which three go with the message. -/
theorem provider_cut :
    (serviceCard [0x1000000]).WellTyped ∧
      (serviceEnv [0x1000000]).auAllowed = true ∧
      (serviceCard [0x1000000]).caid / 256 ≠ 0x17 ∧
      (writeCard (serviceEnv [0x1000000]) Memory.zero
        (serviceCard [0x1000000]) true false).ofs ≤ maxMsgSize ∧
      (readCard 1 (writeCard (serviceEnv [0x1000000]) Memory.zero
          (serviceCard [0x1000000]) true false).m false).providers ≠
        (serviceCard [0x1000000]).providers := by
  refine ⟨serviceCard_wellTyped _, rfl, ?_, ?_, ?_⟩
  · decide
  · rw [ofs_writeCard (serviceCard_wellTyped _) rfl]
    decide
  · decide

end Oscam.Cccam
