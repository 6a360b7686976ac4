import Oscam.Ecm.Nanos

/-!
# The classes of an ECM

What `chk_class` says depends on the section alone if and only if the classes
that it comes to are inside of it, or the last one cannot change the verdict.
-/

namespace Oscam.Nanos

/-! ## Class nanos in the section -/

open Memory

/-- The class of a further nano cannot change the verdict: all classes that
are allowed are blocked as well, or nothing is blocked and an allowed class has
been found. -/
def Classtab.Settled (tab : Classtab) (an : Nat) : Prop :=
  tab.bclass = [] ∧ 0 < an ∨
    tab.bclass ≠ [] ∧ tab.aclass ≠ [] ∧ an = 0 ∧
      ∀ ecmClass ∈ tab.aclass, ecmClass ∈ tab.bclass

/-- The classes that `chk_class` comes to are inside of the section, up to one
that is blocked; the last one may be behind it if the verdict is settled. -/
def ClassesInside (tab : Classtab) (ecm : Memory) (l : Nat) :
    Nat → Nat → Nat → Prop
  | 0, _, _ => True
  | n + 1, j, an =>
      match findNano ecm l csNanoClass j with
      | none => False
      | some 0 => True
      | some (j + 1) =>
          if j + 1 < l then
            let place := j + 1 + (ecm (j + 1)).toNat
            place < 512 ∧
              if place < l then
                ecm place ∈ tab.bclass ∨
                  ClassesInside tab ecm l n place
                    (if ecm place ∈ tab.aclass then an + 1 else an)
              else tab.Settled an
          else l + 255 < 512 ∧ tab.Settled an

/-- The condition for `chk_class`. -/
def ClassInside (caid : Nat) (tab : Classtab) (ecm : Memory) (l : Nat) :
    Prop :=
  caid = 0x0500 → tab.bclass ≠ [] ∨ tab.aclass ≠ [] →
    ClassesInside tab ecm l l 0 0

/-! ### `find_nano` -/

theorem scan_congr {l n s : Nat} {ecm other : Memory} (agree : Agree l ecm other)
    (inside : s + n ≤ l) (nano : UInt8) :
    scan other nano n s = scan ecm nano n s := by
  induction n generalizing s with
  | zero => exact map_const_within 512 ecm other s 0
  | succ n induction =>
      have byte : byteAt other s = byteAt ecm s := by
        unfold byteAt within
        rw [agree s (by omega)]
      unfold scan
      rw [byte, induction (by omega)]

theorem scan_le {ecm : Memory} {nano : UInt8} {n s found : Nat}
    (result : scan ecm nano n s = some found) : found ≤ s + n := by
  induction n generalizing s with
  | zero =>
      obtain ⟨_, _, rfl⟩ := Option.map_eq_some_iff.mp result
      exact Nat.zero_le _
  | succ n induction =>
      obtain ⟨byte, _, result⟩ := Option.bind_eq_some_iff.mp result
      split at result
      · cases result
        omega
      · split at result
        · cases result
          omega
        · have bound := induction result
          omega

/-- The bytes in the section decide where the next nano is. -/
theorem findNano_congr {l : Nat} {ecm other : Memory}
    (agree : Agree l ecm other) (nano : UInt8) (s : Nat) :
    findNano other l nano s = findNano ecm l nano s := by
  unfold findNano
  by_cases done : l ≤ s
  · rw [if_pos done, if_pos done]
  · rw [if_neg done, if_neg done]
    by_cases first : s = 0
    · rw [if_pos first, if_pos first]
      by_cases flag : 4 < l
      · have byte : byteAt other 4 = byteAt ecm 4 := by
          unfold byteAt within
          rw [agree 4 flag]
        rw [byte]
        apply congrArg
        funext tpsflag
        by_cases long : (if tpsflag = 0xD2 then 12 else 9) ≤ l
        · exact scan_congr agree (by omega) nano
        · have none : l - (if tpsflag = 0xD2 then 12 else 9) = 0 := by omega
          simp only [none]
          exact map_const_within 512 ecm other _ 0
      · have short (m : Memory) : (byteAt m 4).bind (fun tpsflag =>
            scan m nano (l - (if tpsflag = 0xD2 then 12 else 9))
              (if tpsflag = 0xD2 then 12 else 9)) = some 0 := by
          have room : byteAt m 4 = some (m 4) := within_of_lt (by omega) m
          rw [room]
          show scan m nano _ _ = some 0
          split
          · rw [show l - 12 = 0 by omega]
            rfl
          · rw [show l - 9 = 0 by omega]
            rfl
        exact (short other).trans (short ecm).symm
    · rw [if_neg first, if_neg first]
      exact scan_congr agree (by omega) nano

theorem findNano_le {ecm : Memory} {l s found : Nat} {nano : UInt8}
    (result : findNano ecm l nano s = some found) : found ≤ l := by
  unfold findNano at result
  split at result
  · cases result
    omega
  · split at result
    · obtain ⟨tpsflag, _, result⟩ := Option.bind_eq_some_iff.mp result
      by_cases long : (if tpsflag = 0xD2 then 12 else 9) ≤ l
      · have bound := scan_le result
        omega
      · have none : l - (if tpsflag = 0xD2 then 12 else 9) = 0 := by omega
        simp only [none] at result
        obtain ⟨_, _, rfl⟩ := Option.map_eq_some_iff.mp result
        exact Nat.zero_le _
    · have bound := scan_le result
      omega

/-! ### A class behind the section -/

namespace Classtab

variable {tab : Classtab}

/-- The verdict when the last class is `ecmClass`. -/
def judged (tab : Classtab) (an : Nat) (ecmClass : UInt8) : Bool :=
  if ecmClass ∈ tab.bclass then false
  else tab.verdict 1 (if ecmClass ∈ tab.aclass then an + 1 else an)

/-- An array of 31 bytes does not have all classes. -/
theorem exists_not_mem {classes : List UInt8} (few : classes.length ≤ 31) :
    ∃ ecmClass, ecmClass ∉ classes := by
  by_contra all
  push Not at all
  have distinct : ((List.range 256).map UInt8.ofNat).Nodup := by
    apply List.Nodup.map_on _ List.nodup_range
    intro i inRange j inRange' same
    have left := UInt8.toNat_ofNat_of_lt' (List.mem_range.mp inRange)
    have right := UInt8.toNat_ofNat_of_lt' (List.mem_range.mp inRange')
    rw [← left, ← right, same]
  have inside : (List.range 256).map UInt8.ofNat ⊆ classes :=
    fun ecmClass _ => all ecmClass
  have length := (List.subperm_of_subset distinct inside).length_le
  rw [List.length_map, List.length_range] at length
  omega

theorem judged_of_mem {ecmClass : UInt8} (blocked : ecmClass ∈ tab.bclass)
    (an : Nat) : tab.judged an ecmClass = false := if_pos blocked

theorem judged_of_not_mem {ecmClass : UInt8}
    (passed : ecmClass ∉ tab.bclass) (an : Nat) :
    tab.judged an ecmClass = true ↔
      tab.aclass = [] ∨ 0 < an ∨ ecmClass ∈ tab.aclass := by
  unfold judged verdict
  rw [if_neg passed]
  by_cases none : tab.aclass = []
  · simp [none]
  · by_cases allowed : ecmClass ∈ tab.aclass
    · simp [allowed]
    · simp [none, allowed, Nat.pos_iff_ne_zero]

theorem judged_const_iff (used : tab.bclass ≠ [] ∨ tab.aclass ≠ [])
    (an : Nat) :
    (∃ verdict, ∀ ecmClass, tab.judged an ecmClass = verdict) ↔
      tab.Settled an := by
  constructor
  · intro ⟨verdict, same⟩
    by_cases blocks : tab.bclass = []
    · have allows : tab.aclass ≠ [] := used.resolve_left fun h => h blocks
      obtain ⟨good, member⟩ := List.exists_mem_of_ne_nil _ allows
      obtain ⟨other, free⟩ := exists_not_mem tab.an
      have passed (c : UInt8) : c ∉ tab.bclass := by simp [blocks]
      have yes := (judged_of_not_mem (passed good) an).mpr (.inr (.inr member))
      rw [same good, ← same other] at yes
      rcases (judged_of_not_mem (passed other) an).mp yes with
        empty | found | member
      · exact absurd empty allows
      · exact .inl ⟨blocks, found⟩
      · exact absurd member free
    · obtain ⟨bad, blocked⟩ := List.exists_mem_of_ne_nil _ blocks
      have no : verdict = false := by
        rw [← same bad, judged_of_mem blocked]
      have refused (c : UInt8) (passed : c ∉ tab.bclass) :
          ¬ (tab.aclass = [] ∨ 0 < an ∨ c ∈ tab.aclass) := by
        intro accepted
        have yes := (judged_of_not_mem passed an).mpr accepted
        rw [same c, no] at yes
        exact absurd yes Bool.false_ne_true
      obtain ⟨other, free⟩ := exists_not_mem tab.bn
      have general := refused other free
      refine .inr ⟨blocks, fun empty => general (.inl empty), ?_, ?_⟩
      · by_contra found
        exact general (.inr (.inl (by omega)))
      · intro c allowed
        by_contra passed
        exact refused c passed (.inr (.inr allowed))
  · intro settled
    rcases settled with ⟨blocks, found⟩ | ⟨blocks, allows, none, both⟩
    · refine ⟨true, fun c => ?_⟩
      exact (judged_of_not_mem (by simp [blocks]) an).mpr (.inr (.inl found))
    · refine ⟨false, fun c => ?_⟩
      by_cases blocked : c ∈ tab.bclass
      · exact judged_of_mem blocked an
      · apply Bool.eq_false_iff.mpr
        intro yes
        rcases (judged_of_not_mem blocked an).mp yes with
          empty | found | member
        · exact allows empty
        · omega
        · exact blocked (both c member)

end Classtab

/-! ### The walk -/

variable {tab : Classtab} {ecm : Memory} {l : Nat}

theorem classLoop_end {j : Nat} (behind : l ≤ j) (n clN an : Nat) :
    classLoop tab ecm l n j clN an = some (tab.verdict clN an) := by
  cases n with
  | zero => rfl
  | succ n =>
      unfold classLoop findNano
      rw [if_pos behind]
      rfl

theorem verdict_succ (tab : Classtab) (clN an : Nat) :
    tab.verdict (clN + 1) an = tab.verdict 1 an := by
  unfold Classtab.verdict
  simp

/-- The turn with a nano whose length byte is at `j`. -/
def classTurn (tab : Classtab) (l n j clN an : Nat) (ecm : Memory) :
    Option Bool :=
  (byteAt ecm j).bind fun len =>
  (byteAt ecm (j + len.toNat)).bind fun ecmClass =>
    if ecmClass ∈ tab.bclass then some false
    else
      classLoop tab ecm l n (j + len.toNat) (clN + 1)
        (if ecmClass ∈ tab.aclass then an + 1 else an)

/-- A class behind the section is the last one. -/
theorem classTurn_behind {n j clN an : Nat} {len : UInt8}
    (room : j < 512) (byte : ecm j = len) (behind : l ≤ j + len.toNat) :
    classTurn tab l n j clN an ecm =
      (byteAt ecm (j + len.toNat)).map (tab.judged an) := by
  have here : byteAt ecm j = some len := byte ▸ within_of_lt room ecm
  unfold classTurn
  rw [here, Option.bind_some]
  rcases byteAt ecm (j + len.toNat) with _ | ecmClass
  · rfl
  · simp only [Option.bind_some, Option.map_some, Classtab.judged,
      classLoop_end behind, verdict_succ]
    split
    · rfl
    · rfl

/-- The nano at `j` and those behind it. -/
def TurnInside (tab : Classtab) (ecm : Memory) (l n j an : Nat) : Prop :=
  if j < l then
    let place := j + (ecm j).toNat
    place < 512 ∧
      if place < l then
        ecm place ∈ tab.bclass ∨
          ClassesInside tab ecm l n place
            (if ecm place ∈ tab.aclass then an + 1 else an)
      else tab.Settled an
  else l + 255 < 512 ∧ tab.Settled an

variable (used : tab.bclass ≠ [] ∨ tab.aclass ≠ [])

include used in
/-- The length byte is in the section. -/
theorem classTurn_fixed_iff_of_lt {n j clN an : Nat} (inside : j < l)
    (rest : ∀ place clN an,
      FixedBy l (fun m => classLoop tab m l n place clN an) ecm ↔
        ClassesInside tab ecm l n place an) :
    FixedBy l (classTurn tab l n j clN an) ecm ↔
      TurnInside tab ecm l n j an := by
  unfold TurnInside
  rw [if_pos inside]
  dsimp only
  by_cases near : j + (ecm j).toNat < l
  · have turn : FixedBy l (classTurn tab l n j clN an) ecm ↔ j < 512 ∧
        FixedBy l (fun m => (byteAt m (j + (ecm j).toNat)).bind fun ecmClass =>
          if ecmClass ∈ tab.bclass then some false
          else classLoop tab m l n (j + (ecm j).toNat) (clN + 1)
            (if ecmClass ∈ tab.aclass then an + 1 else an)) ecm :=
      FixedBy.byte_iff inside
    have last (place : Nat) (near : place < l) :
        FixedBy l (fun m => (byteAt m place).bind fun ecmClass =>
          if ecmClass ∈ tab.bclass then some false
          else classLoop tab m l n place (clN + 1)
            (if ecmClass ∈ tab.aclass then an + 1 else an)) ecm ↔
        place < 512 ∧
        FixedBy l (fun m => if ecm place ∈ tab.bclass then some false
          else classLoop tab m l n place (clN + 1)
            (if ecm place ∈ tab.aclass then an + 1 else an)) ecm :=
      FixedBy.byte_iff near
    rw [turn, last _ near, if_pos near]
    by_cases blocked : ecm (j + (ecm j).toNat) ∈ tab.bclass
    · simp only [if_pos blocked]
      have const := FixedBy.const l false ecm
      constructor
      · intro both
        exact ⟨both.2.1, .inl blocked⟩
      · intro both
        exact ⟨by omega, both.1, const⟩
    · simp only [if_neg blocked, rest]
      constructor
      · intro both
        exact ⟨both.2.1, .inr both.2.2⟩
      · intro both
        exact ⟨by omega, both.1, both.2.resolve_left blocked⟩
  · rw [if_neg near]
    have judged : FixedBy l (fun m =>
        (byteAt m (j + (ecm j).toNat)).map (tab.judged an)) ecm ↔
          j + (ecm j).toNat < 512 ∧
            ∃ verdict, ∀ c, tab.judged an c = verdict :=
      FixedBy.behind_iff (by omega)
    rw [← Classtab.judged_const_iff used, ← judged]
    by_cases room : j < 512
    · apply FixedBy.congr
      intro other agree
      exact classTurn_behind room (agree j inside) (by omega)
    · have turn : FixedBy l (classTurn tab l n j clN an) ecm ↔ j < 512 ∧ _ :=
        FixedBy.byte_iff inside
      constructor
      · intro fixed
        exact absurd (turn.mp fixed).1 room
      · intro fixed
        exact absurd (judged.mp fixed).1 (by omega)

include used in
/-- The length byte is the first one behind the section. -/
theorem classTurn_fixed_iff_of_eq (n clN an : Nat) :
    FixedBy l (classTurn tab l n l clN an) ecm ↔
      TurnInside tab ecm l n l an := by
  unfold TurnInside
  rw [if_neg (Nat.lt_irrefl l), ← Classtab.judged_const_iff used]
  have run (other : Memory) (room : l < 512) :
      classTurn tab l n l clN an other =
        (byteAt other (l + (other l).toNat)).map (tab.judged an) :=
    classTurn_behind room rfl (by omega)
  have low (byte : UInt8) : byte.toNat < 256 := byte.toNat_lt
  constructor
  · intro ⟨verdict, fixed⟩
    have start : l < 512 := by
      by_contra beyond
      have none := fixed ecm (Agree.refl l ecm)
      unfold classTurn byteAt at none
      rw [within_of_le (by omega)] at none
      exact Option.some_ne_none verdict none.symm
    have room : l + 255 < 512 := by
      by_contra beyond
      have far := fixed _ (agree_continued l ecm fun _ => 255)
      rw [run _ start, continued_of_le (Nat.le_refl l)] at far
      have place : 512 ≤ l + (255 : UInt8).toNat := Nat.le_of_not_lt beyond
      unfold byteAt at far
      rw [within_of_le place] at far
      exact Option.some_ne_none verdict far.symm
    refine ⟨room, verdict, fun c => ?_⟩
    have next := fixed _ (agree_continued l ecm fun i => if i = l then 1 else c)
    rw [run _ start, continued_of_le (Nat.le_refl l), if_pos rfl] at next
    unfold byteAt at next
    have place : l + (1 : UInt8).toNat = l + 1 := rfl
    rw [place, within_of_lt (by omega), continued_of_le (by omega),
      if_neg (by omega)] at next
    exact Option.some.inj next
  · intro ⟨room, verdict, same⟩
    refine ⟨verdict, fun other _ => ?_⟩
    have inside := low (other l)
    rw [run other (by omega)]
    unfold byteAt
    rw [within_of_lt (by omega), Option.map_some, same]

include used in
theorem classLoop_fixed_iff (n j clN an : Nat) :
    FixedBy l (fun m => classLoop tab m l n j clN an) ecm ↔
      ClassesInside tab ecm l n j an := by
  induction n generalizing j clN an with
  | zero => exact iff_of_true (FixedBy.const l _ ecm) trivial
  | succ n induction =>
      have step (other : Memory) (agree : Agree l ecm other) :
          classLoop tab other l (n + 1) j clN an =
            (findNano ecm l csNanoClass j).bind fun j =>
              if j = 0 then some (tab.verdict clN an)
              else classTurn tab l n j clN an other := by
        rw [← findNano_congr agree]
        rfl
      rw [FixedBy.congr step]
      unfold ClassesInside
      rcases found : findNano ecm l csNanoClass j with _ | _ | place
      · have never (fixed : FixedBy l (fun _ => (none : Option Bool)) ecm) :
            False := fixed.not_none (Agree.refl l ecm) rfl
        exact iff_of_false never id
      · exact iff_of_true (FixedBy.const l _ ecm) trivial
      · have bound := findNano_le found
        by_cases inside : place + 1 < l
        · exact classTurn_fixed_iff_of_lt used inside fun j => induction j
        · have here : l = place + 1 := by omega
          subst here
          exact classTurn_fixed_iff_of_eq used n clN an

theorem chkClass_fixed_iff (caid : Nat) (tab : Classtab) (ecm : Memory)
    (l : Nat) :
    FixedBy l (fun m => chkClass caid tab m l) ecm ↔
      ClassInside caid tab ecm l := by
  unfold chkClass ClassInside
  by_cases viaccess : caid = 0x0500
  · by_cases used : tab.bclass ≠ [] ∨ tab.aclass ≠ []
    · have some : ¬ (tab.bclass.isEmpty && tab.aclass.isEmpty) = true := by
        simpa [imp_iff_not_or] using used
      simp only [if_neg (not_not.mpr viaccess), if_neg some]
      rw [classLoop_fixed_iff used]
      exact ⟨fun inside _ _ => inside, fun inside => inside viaccess used⟩
    · have none : (tab.bclass.isEmpty && tab.aclass.isEmpty) = true := by
        simpa [imp_iff_not_or] using used
      simp only [if_neg (not_not.mpr viaccess), if_pos none]
      exact iff_of_true (FixedBy.const l true ecm) fun _ h => absurd h used
  · simp only [if_pos viaccess]
    exact iff_of_true (FixedBy.const l true ecm) fun h => absurd h viaccess

end Oscam.Nanos
