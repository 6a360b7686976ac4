import Oscam.Csctapi.AtrGroups
import Mathlib.Data.Fintype.BigOperators

/-!
# Bounds of an answer to reset

`ATR_InitFromArray` and `Parse_ATR` fill arrays of a fixed size with what the
card announces.
-/

namespace Oscam.Reset

/-- `OffersT`, where T=14 is stored as T=2. -/
abbrev Offers : Type := Fin 3 → Bool

/-- The mark for the protocol of a group; nothing where `OffersT` has no such
element. -/
def offer (offersT : Offers) (tx : UInt8) : Option Offers :=
  let index := if tx &&& 0x0F = protocolT14 then 2 else (tx &&& 0x0F).toNat
  if inside : index < 3 then
    some (Function.update offersT ⟨index, inside⟩ true)
  else none

namespace Atr

variable (atr : Atr)

/-- The marks for one group. -/
def offerGroup (offersT : Offers) (number : Nat) : Option Offers :=
  (atr.getInterfaceByte number .ta).bind fun _ =>
    (atr.getInterfaceByte number .tb).bind fun _ =>
      (atr.getInterfaceByte number .tc).bind fun _ =>
        (atr.getInterfaceByte number .td).bind fun
          | .ok tx => offer offersT tx
          | _ => some (Function.update offersT 0 true)

/-- The number of groups, without one that a trailing TD announces. -/
def numprot : Option Nat :=
  (atr.getInterfaceByte (atr.pn - 1) .td).map fun
    | .ok tx => if tx &&& 0xF0 = 0 then atr.pn - 1 else atr.pn
    | _ => atr.pn

/-- The beginning of `Parse_ATR`: the protocols that the card offers, their
number, and the historical bytes for the log; nothing where an element would
be used that an array does not have. -/
def parseAtr : Option (Offers × Nat × List UInt8) :=
  atr.numprot.bind fun numprot =>
    ((List.range' 1 numprot).foldlM atr.offerGroup fun _ => false).bind
      fun offersT =>
        if maxHistorical < atr.hbn then none
        else
          some (offersT, (List.finRange 3).countP offersT,
            atr.hb.read 0 atr.hbn)

end Atr

/-! ## Protocols that have a place -/

/-- The byte announces a group for a protocol that `OffersT` has a place
for. -/
def Offered (tx : UInt8) : Prop :=
  tx &&& 0x0F ∈ [0, 1, 2, protocolT14]

theorem offer_isSome (offersT : Offers) (tx : UInt8) :
    (offer offersT tx).isSome ↔ Offered tx := by
  unfold offer Offered
  generalize tx &&& 0x0F = protocol
  dsimp only
  by_cases fourteen : protocol = protocolT14
  · subst fourteen
    simp
  · have small : protocol.toNat < 3 ↔
        protocol = 0 ∨ protocol = 1 ∨ protocol = 2 := by
      simp only [← UInt8.toNat_inj, UInt8.reduceToNat]
      omega
    simp only [List.mem_cons, fourteen, List.not_mem_nil, or_false, ← small,
      if_false]
    by_cases inside : protocol.toNat < 3
    · rw [dif_pos inside]
      exact iff_of_true rfl inside
    · rw [dif_neg inside]
      exact iff_of_false (by simp) inside

theorem foldlM_isSome {α β : Type} {step : β → α → Option β} {Right : α → Prop}
    {items : List α}
    (each : ∀ item ∈ items, ∀ state, (step state item).isSome ↔ Right item)
    (state : β) :
    (items.foldlM step state).isSome ↔ ∀ item ∈ items, Right item := by
  induction items generalizing state with
  | nil => simp
  | cons item items induction =>
      have tail := induction fun other member =>
        each other (List.mem_cons_of_mem item member)
      rw [List.foldlM_cons, List.forall_mem_cons,
        ← each item List.mem_cons_self state]
      cases result : step state item with
      | none => simp
      | some next => simpa using tail next

/-! ## The groups that are looked at -/

theorem row?_of_lt (atr : Atr) {number : Nat} (inside : number < maxProtocols) :
    atr.row? number = some (atr.ib ⟨number, inside⟩) := dif_pos inside

theorem ofOption_shown (byte : InterfaceByte) :
    Answer.ofOption byte.shown =
      if byte.present then .ok byte.value else .notFound := by
  unfold InterfaceByte.shown
  split <;> rfl

section

variable {text : List UInt8} {start atr : Atr} {number pointer : Nat}

theorem Filled.getInterfaceByte (filled : Filled text start number pointer atr)
    (few : number < maxProtocols) {group : Nat} (inside : group ≤ number)
    (character : Character) :
    atr.getInterfaceByte (group + 1) character =
      some (.ofOption (groupCharacter text group character)) := by
  have place : group < maxProtocols := Nat.lt_of_le_of_lt inside few
  unfold Atr.getInterfaceByte
  rw [if_neg (by rw [filled.pn]; omega), Nat.add_sub_cancel,
    row?_of_lt atr place, Option.map_some, ← ofOption_shown,
    filled.rows ⟨group, place⟩ (Nat.lt_succ_of_le inside)]

/-- The last character of a group is the one that announces the next. -/
theorem groupCharacter_td (all : ∀ group place,
      tdPointer text group = some place → Fits text place)
    {group : Nat} {tx : UInt8} :
    groupCharacter text group .td = some tx ↔
      ∃ place, tdPointer text (group + 1) = some place ∧
        text.getD place 0 = tx := by
  unfold groupCharacter characterAt
  constructor
  · intro shown
    obtain ⟨place, here, byte⟩ := Option.bind_eq_some_iff.mp shown
    dsimp only at byte
    split at byte
    · rename_i more
      rw [← numIb_eq] at byte
      exact ⟨_, tdPointer_succ here (all group place here) more,
        Option.some.inj byte⟩
    · contradiction
  · rintro ⟨next, announced, byte⟩
    obtain ⟨place, here, -, more, rfl⟩ := of_tdPointer_succ announced
    rw [here, Option.bind_some, if_pos more, ← numIb_eq, byte]

theorem Filled.offerGroup_isSome
    (filled : Filled text start number pointer atr)
    (few : number < maxProtocols) {group : Nat} (inside : group ≤ number)
    (offersT : Offers) :
    (atr.offerGroup offersT (group + 1)).isSome ↔
      ∀ tx, groupCharacter text group .td = some tx → Offered tx := by
  unfold Atr.offerGroup
  simp only [filled.getInterfaceByte few inside, Option.bind_some]
  cases groupCharacter text group .td with
  | none => simp [Answer.ofOption]
  | some tx => simp [Answer.ofOption, offer_isSome]

/-- All groups that announce another one are looked at. -/
theorem Filled.numprot (filled : Filled text start number pointer atr)
    (few : number < maxProtocols) :
    ∃ groups, atr.numprot = some groups ∧ number ≤ groups ∧
      groups ≤ number + 1 := by
  unfold Atr.numprot
  rw [filled.pn, Nat.add_sub_cancel]
  cases number with
  | zero =>
      refine ⟨1, ?_, Nat.zero_le 1, Nat.le_refl 1⟩
      unfold Atr.getInterfaceByte
      rw [if_pos (.inr Nat.zero_lt_one)]
      rfl
  | succ number =>
      rw [filled.getInterfaceByte few (Nat.le_succ number)]
      cases groupCharacter text number .td with
      | none => exact ⟨_, rfl, Nat.le_succ _, Nat.le_refl _⟩
      | some tx =>
          refine ⟨_, rfl, ?_⟩
          dsimp only [Answer.ofOption]
          split <;> omega

theorem Filled.parseAtr_isSome (filled : Filled text start number pointer atr)
    (accepted : Accepted text number pointer) :
    atr.parseAtr.isSome ↔ ∀ group, group ≠ 0 → ∀ place,
      tdPointer text group = some place → Offered (text.getD place 0) := by
  have few := accepted.few
  have all (group place) (announced : tdPointer text group = some place) :
      Fits text place := accepted.last.fits_all announced
  obtain ⟨groups, numprot, least, most⟩ := filled.numprot few
  have small : ¬ maxHistorical < atr.hbn := by
    rw [filled.hbn]
    exact Nat.not_lt.mpr (takenHbn_le text pointer)
  have marks : atr.parseAtr.isSome ↔
      ((List.range' 1 groups).foldlM atr.offerGroup fun _ => false).isSome := by
    unfold Atr.parseAtr
    rw [numprot, Option.bind_some]
    simp only [if_neg small]
    cases List.foldlM atr.offerGroup (fun _ => false)
        (List.range' 1 groups) <;> simp
  have each (group) (member : group ∈ List.range' 1 groups) (offersT) :
      (atr.offerGroup offersT group).isSome ↔ ∀ place,
        tdPointer text group = some place → Offered (text.getD place 0) := by
    have range := List.mem_range'_1.mp member
    obtain ⟨front, rfl⟩ := Nat.exists_eq_add_one.mpr range.1
    rw [filled.offerGroup_isSome few (by omega)]
    simp only [groupCharacter_td all]
    exact ⟨fun right place announced => right _ ⟨place, announced, rfl⟩,
      fun right _ ⟨place, announced, byte⟩ => byte ▸ right place announced⟩
  rw [marks, foldlM_isSome each]
  constructor
  · intro right group nonzero place announced
    have inside := accepted.last.le announced
    exact right group (List.mem_range'_1.mpr (by omega)) place announced
  · intro right group member
    have range := List.mem_range'_1.mp member
    exact right group (by omega)

end

/-! ## Strings for which all elements exist -/

/-- `ATR_InitFromArray` and, for an answer to reset that it accepts,
`Parse_ATR` only use elements that the arrays have. -/
def Inside (start : Atr) (atrBuffer : List UInt8) : Prop :=
  match initFromArray start atrBuffer with
  | .ok atr => atr.parseAtr.isSome
  | .malformed _ => True
  | .outside => False

/-- The string has no eighth group, and if it is accepted, its groups are
announced for T=0, T=1, T=2 or T=14. -/
structure Harmless (text : List UInt8) : Prop where
  eighth : ∀ place, tdPointer text maxProtocols = some place →
    ¬ Fits text place
  protocols : ∀ number pointer, Accepted text number pointer →
    ∀ group, group ≠ 0 → ∀ place, tdPointer text group = some place →
      Offered (text.getD place 0)

/-- The arrays are left with exactly the strings that announce eight groups,
or a group for one of the other protocols. -/
theorem inside_iff_harmless (start : Atr) (atrBuffer : List UInt8) :
    Inside start atrBuffer ↔ Harmless (toDirect atrBuffer) := by
  have reads := initFromArray_reads start atrBuffer
  unfold Inside
  cases result : initFromArray start atrBuffer with
  | ok atr =>
      rw [result] at reads
      obtain ⟨number, pointer, accepted, filled⟩ := reads
      dsimp only
      rw [filled.parseAtr_isSome accepted]
      constructor
      · intro right
        refine ⟨fun place announced => ?_, fun _ _ _ => right⟩
        have before := accepted.last.le announced
        have few := accepted.few
        omega
      · intro harmless
        exact harmless.protocols number pointer accepted
  | malformed atr =>
      rw [result] at reads
      exact iff_of_true trivial ⟨reads.2, fun number pointer accepted =>
        absurd accepted (reads.1 number pointer)⟩
  | outside =>
      rw [result] at reads
      obtain ⟨place, announced, fits⟩ := reads
      exact iff_of_false id fun harmless =>
        harmless.eighth place announced fits

/-- An answer to reset with a group for T=3. -/
def atrT3 : List UInt8 := [0x3B, 0x80, 0x03, 0x81]

/-- The mark for T=3 is written behind `OffersT`. -/
theorem not_always_inside : ¬ ∀ (start : Atr) (atrBuffer : List UInt8),
    2 ≤ atrBuffer.length → atrBuffer.length ≤ 33 → Inside start atrBuffer := by
  intro always
  have inside := always emptyAtr atrT3 (by decide) (by decide)
  exact Bool.false_ne_true inside

end Oscam.Reset
