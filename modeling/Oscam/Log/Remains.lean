import Oscam.Http.Params

/-!
# Strings behind one another

An area that is filled with strings again and again from its start.  A zero
byte of its own marks the end of a round; behind it lies what earlier rounds
have left, and the first string there may be cut off at its front.
-/

namespace Oscam.Log

open Http (StringAt)

/-- `strlen` of the string at `off`; there is none when no zero comes before
`limit`. -/
def strlen (limit : Nat) (m : Memory) (off : Nat) : Option Nat :=
  (List.range (limit - off)).find? fun i => m (off + i) = 0

/-- Strings with something in them from `off` on, the last one right before
`stop`. -/
def Strings (m : Memory) : Nat → List (List UInt8) → Nat → Prop
  | off, [], stop => off = stop
  | off, txt :: txts, stop =>
      txt ≠ [] ∧ StringAt m off txt ∧
        Strings m (off + txt.length + 1) txts stop

/-- What earlier rounds have left from `off` on: the places where they ended,
and before each of these places their strings that are whole. -/
inductive Remains (m : Memory) (limit : Nat) : Nat → List Nat →
    List (List (List UInt8)) → Prop where
  | clear {off : Nat} :
      (∀ i, off ≤ i → i < limit → m i = 0) → Remains m limit off [] []
  | mark {off : Nat} {ends : List Nat} {runs : List (List (List UInt8))} :
      m off = 0 → off < limit → Remains m limit (off + 1) ends runs →
      Remains m limit off (off :: ends) ([] :: runs)
  | strings {off stop : Nat} {ends : List Nat} {txt : List UInt8}
      {txts : List (List UInt8)} {runs : List (List (List UInt8))} :
      StringAt m off txt → Strings m (off + txt.length + 1) txts stop →
      m stop = 0 → stop < limit → Remains m limit (stop + 1) ends runs →
      Remains m limit off (stop :: ends) (txts :: runs)

variable {m other : Memory} {limit off stop : Nat} {ends : List Nat}
  {txt : List UInt8} {txts : List (List UInt8)}
  {runs : List (List (List UInt8))}

/-! ## Lengths -/

theorem strlen_eq_some {n : Nat} (inside : off + n < limit)
    (ended : m (off + n) = 0) (before : ∀ i < n, m (off + i) ≠ 0) :
    strlen limit m off = some n := by
  unfold strlen
  rw [List.find?_range_eq_some]
  refine ⟨by simpa using ended, List.mem_range.mpr (by omega), ?_⟩
  intro i lower
  simpa using before i lower

theorem strlen_end (ended : m off = 0) (inside : off < limit) :
    strlen limit m off = some 0 :=
  strlen_eq_some inside ended fun _ lower => absurd lower (Nat.not_lt_zero _)

/-- From `limit` on nothing is read. -/
theorem strlen_outside (outside : limit ≤ off) : strlen limit m off = none := by
  unfold strlen
  rw [Nat.sub_eq_zero_of_le outside]
  rfl

theorem strlen_string (there : StringAt m off txt)
    (inside : off + txt.length < limit) :
    strlen limit m off = some txt.length := by
  refine strlen_eq_some inside there.ended fun i lower zero => ?_
  have byte : txt.getD i 0 = m (off + i) := by
    conv_lhs => rw [← there.bytes]
    exact Memory.getD_read m off lower
  rw [zero, List.getD_eq_getElem _ _ lower] at byte
  exact there.plain (byte ▸ List.getElem_mem lower)

/-! ## Strings -/

theorem Strings.le (strings : Strings m off txts stop) : off ≤ stop := by
  induction txts generalizing off with
  | nil => exact Nat.le_of_eq strings
  | cons txt txts induction =>
      have rest := induction strings.2.2
      omega

theorem Strings.congr (strings : Strings m off txts stop)
    (same : ∀ i, off ≤ i → i < stop → other i = m i) :
    Strings other off txts stop := by
  induction txts generalizing off with
  | nil => exact strings
  | cons txt txts induction =>
      obtain ⟨filled, there, rest⟩ := strings
      have bound := rest.le
      refine ⟨filled, there.congr fun i first last =>
        same i first (by omega), induction rest fun i first last =>
        same i (by omega) last⟩

theorem Strings.append {next : Nat} {more : List (List UInt8)}
    (strings : Strings m off txts stop) (behind : Strings m stop more next) :
    Strings m off (txts ++ more) next := by
  induction txts generalizing off with
  | nil =>
      obtain rfl : off = stop := strings
      exact behind
  | cons txt txts induction =>
      exact ⟨strings.1, strings.2.1, induction strings.2.2⟩

/-- From some place in it on, a string is cut off at its front. -/
theorem cut_string {place : Nat} (there : StringAt m off txt)
    (later : off ≤ place) (inside : place ≤ off + txt.length) :
    ∃ part, StringAt m place part ∧
      place + part.length = off + txt.length := by
  obtain ⟨skipped, rfl⟩ := Nat.le.dest later
  have short : (txt.take skipped).length = skipped := by
    rw [List.length_take]
    omega
  refine ⟨txt.drop skipped, ?_, ?_⟩
  · rw [← List.take_append_drop skipped txt] at there
    have cut := there.behind
    rwa [short] at cut
  · rw [List.length_drop]
    omega

theorem Strings.cut {place : Nat} (strings : Strings m off txts stop)
    (later : off ≤ place) (before : place < stop) :
    ∃ txt rest, rest <:+ txts ∧ StringAt m place txt ∧
      Strings m (place + txt.length + 1) rest stop := by
  induction txts generalizing off with
  | nil =>
      have empty : off = stop := strings
      omega
  | cons first txts induction =>
      obtain ⟨_, there, behind⟩ := strings
      by_cases inside : place ≤ off + first.length
      · obtain ⟨part, cut, same⟩ := cut_string there later inside
        exact ⟨part, txts, List.suffix_cons first txts, cut, same ▸ behind⟩
      · obtain ⟨txt, rest, suffix, part, strings⟩ :=
          induction behind (by omega)
        exact ⟨txt, rest, suffix.trans (List.suffix_cons first txts), part,
          strings⟩

/-! ## Remains -/

/-- Every run of the first remains is the end of a run of the second ones. -/
def RunsOf (runs earlier : List (List (List UInt8))) : Prop :=
  ∀ run ∈ runs, ∃ whole ∈ earlier, run <:+ whole

theorem RunsOf.refl (runs : List (List (List UInt8))) : RunsOf runs runs :=
  fun run member => ⟨run, member, List.suffix_rfl⟩

theorem RunsOf.cons {run whole : List (List UInt8)}
    {earlier : List (List (List UInt8))} (suffix : run <:+ whole)
    (others : RunsOf runs earlier) :
    RunsOf (run :: runs) (whole :: earlier) := by
  intro found member
  rcases List.mem_cons.mp member with rfl | behind
  · exact ⟨whole, List.mem_cons_self, suffix⟩
  · obtain ⟨source, there, part⟩ := others found behind
    exact ⟨source, List.mem_cons_of_mem whole there, part⟩

theorem RunsOf.skip {earlier : List (List (List UInt8))}
    (whole : List (List UInt8)) (others : RunsOf runs earlier) :
    RunsOf runs (whole :: earlier) := by
  intro found member
  obtain ⟨source, there, part⟩ := others found member
  exact ⟨source, List.mem_cons_of_mem whole there, part⟩

/-- Remains lie behind the place they are said to begin at. -/
theorem Remains.le (remains : Remains m limit off ends runs) :
    ∀ place ∈ ends, off ≤ place := by
  induction remains with
  | clear _ => exact fun _ member => absurd member List.not_mem_nil
  | mark _ _ _ induction =>
      intro place member
      rcases List.mem_cons.mp member with rfl | behind
      · exact le_refl _
      · exact Nat.le_of_succ_le (induction place behind)
  | @strings off stop ends txt txts runs _ strings _ _ _ induction =>
      have bound := strings.le
      intro place member
      rcases List.mem_cons.mp member with rfl | behind
      · omega
      · have later := induction place behind
        omega

theorem Remains.congr (remains : Remains m limit off ends runs)
    (same : ∀ i, off ≤ i → i < limit → other i = m i) :
    Remains other limit off ends runs := by
  induction remains with
  | clear zero =>
      refine .clear fun i first last => ?_
      rw [same i first last, zero i first last]
  | mark zero inside _ induction =>
      refine .mark ?_ inside (induction fun i first last =>
        same i (by omega) last)
      rw [same _ (le_refl _) inside, zero]
  | strings there strings zero inside _ induction =>
      have bound := strings.le
      refine .strings (there.congr fun i first last =>
          same i first (by omega)) (strings.congr fun i first last =>
          same i (by omega) (by omega)) ?_ inside (induction fun i first last =>
          same i (by omega) last)
      rw [same _ (by omega) inside, zero]

theorem filter_le {place : Nat} (low : ∀ found ∈ ends, place ≤ found) :
    ends.filter (place ≤ ·) = ends := by
  rw [List.filter_eq_self]
  exact fun found member => decide_eq_true (low found member)

/-- Remains from a later place on. -/
theorem Remains.advance {place : Nat} (remains : Remains m limit off ends runs)
    (later : off ≤ place) :
    ∃ left, Remains m limit place (ends.filter (place ≤ ·)) left ∧
      RunsOf left runs := by
  induction remains with
  | clear zero =>
      exact ⟨[], .clear fun i first last => zero i (by omega) last, .refl []⟩
  | @mark off ends runs zero inside behind induction =>
      rcases Nat.eq_or_lt_of_le later with rfl | after
      · rw [filter_le (Remains.mark zero inside behind).le]
        exact ⟨[] :: runs, .mark zero inside behind, .refl _⟩
      · obtain ⟨left, remains, parts⟩ := induction after
        rw [List.filter_cons_of_neg (by simpa using after)]
        exact ⟨left, remains, parts.skip []⟩
  | @strings off stop ends txt txts runs there strings zero inside behind
      induction =>
      by_cases past : stop < place
      · obtain ⟨left, remains, parts⟩ := induction past
        rw [List.filter_cons_of_neg (by simpa using past)]
        exact ⟨left, remains, parts.skip txts⟩
      · have low : ∀ found ∈ stop :: ends, place ≤ found := by
          intro found member
          rcases List.mem_cons.mp member with rfl | after
          · omega
          · have bound := behind.le found after
            omega
        rw [filter_le low]
        -- the place is the end itself, in the first string or in another one
        rcases Nat.eq_or_lt_of_le (Nat.le_of_not_lt past) with rfl | before
        · exact ⟨[] :: runs, .mark zero inside behind,
            .cons List.nil_suffix (.refl runs)⟩
        · have whole : ∃ txt rest, rest <:+ txts ∧ StringAt m place txt ∧
              Strings m (place + txt.length + 1) rest stop := by
            by_cases first : place ≤ off + txt.length
            · obtain ⟨part, cut, same⟩ := cut_string there later first
              exact ⟨part, txts, List.suffix_rfl, cut, same ▸ strings⟩
            · exact strings.cut (by omega) before
          obtain ⟨cut, rest, suffix, part, strings⟩ := whole
          exact ⟨rest :: runs, .strings part strings zero inside behind,
            .cons suffix (.refl runs)⟩

/-- A whole round is remains itself when the next one begins. -/
theorem Remains.of_round (strings : Strings m off txts stop)
    (zero : m stop = 0) (inside : stop < limit)
    (behind : Remains m limit (stop + 1) ends runs) :
    ∃ left, Remains m limit off (stop :: ends) left ∧
      RunsOf left (txts :: runs) := by
  cases txts with
  | nil =>
      obtain rfl : off = stop := strings
      exact ⟨[] :: runs, .mark zero inside behind, .refl _⟩
  | cons txt txts =>
      exact ⟨txts :: runs, .strings strings.2.1 strings.2.2 zero inside behind,
        .cons (List.suffix_cons txt txts) (.refl runs)⟩

/-- Behind the first string of the remains lie whole strings up to the end of
a round.  An end with nothing before it must not have more behind it. -/
theorem Remains.first (remains : Remains m limit off ends runs)
    (inside : off + 1 < limit) (aligned : off ∈ ends → m (off + 1) = 0) :
    ∃ n run stop, strlen limit m off = some n ∧
      Strings m (off + n + 1) run stop ∧ m stop = 0 ∧ stop < limit ∧
      (run = [] ∨ run ∈ runs) := by
  cases remains with
  | clear zero =>
      exact ⟨0, [], off + 1, strlen_end (zero off (le_refl _) (by omega))
        (by omega), rfl, zero _ (by omega) inside, inside, .inl rfl⟩
  | mark zero there _ =>
      exact ⟨0, [], off + 1, strlen_end zero there, rfl,
        aligned List.mem_cons_self, inside, .inl rfl⟩
  | @strings _ stop _ txt txts _ there strings zero before _ =>
      have bound := strings.le
      exact ⟨txt.length, txts, stop, strlen_string there (by omega), strings,
        zero, before, .inr List.mem_cons_self⟩

/-- At the last place of the area there is a zero. -/
theorem Remains.last (remains : Remains m (off + 1) off ends runs) :
    m off = 0 := by
  cases remains with
  | clear zero => exact zero off (le_refl _) (Nat.lt_succ_self off)
  | mark zero _ _ => exact zero
  | strings _ strings _ before _ =>
      have bound := strings.le
      omega

/-- A larger area, with zeros behind the smaller one. -/
theorem Remains.grow {larger : Nat} (remains : Remains m limit off ends runs)
    (more : limit ≤ larger) (same : ∀ i < limit, other i = m i)
    (zero : ∀ i, limit ≤ i → i < larger → other i = 0) :
    Remains other larger off ends runs := by
  induction remains with
  | clear clear =>
      refine .clear fun i first last => ?_
      by_cases inside : i < limit
      · rw [same i inside, clear i first inside]
      · exact zero i (by omega) last
  | mark ended inside _ induction =>
      refine .mark ?_ (by omega) induction
      rw [same _ inside, ended]
  | strings there strings ended inside _ induction =>
      have bound := strings.le
      refine .strings (there.congr fun i _ last => same i (by omega))
        (strings.congr fun i _ last => same i (by omega)) ?_ (by omega)
        induction
      rw [same _ inside, ended]

end Oscam.Log
