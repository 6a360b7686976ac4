import Mathlib.Data.Fintype.Pigeonhole
import Mathlib.Logic.Function.Iterate

/-!
# The places of a loop

A loop goes from a place to the next one while the place is below a limit.  If
every next place lies behind its own, the loop ends, and the list of its places
is complete.
-/

/-- The places of a loop from `place` on, `turns` at most. -/
def places (next : Nat → Nat) (limit : Nat) : Nat → Nat → List Nat
  | 0, _ => []
  | turns + 1, place =>
      if place < limit then place :: places next limit turns (next place)
      else []

namespace Places

variable {next : Nat → Nat} {limit turns place : Nat}

theorem places_of_le (ended : limit ≤ place) :
    places next limit turns place = [] := by
  cases turns with
  | zero => rfl
  | succ turns => exact if_neg (Nat.not_lt.mpr ended)

/-- With as many turns as there are places below the limit, more turns change
nothing. -/
theorem places_enough (behind : ∀ p, p < next p) {more : Nat}
    (enough : limit - place ≤ turns) :
    places next limit (turns + more) place = places next limit turns place := by
  induction turns generalizing place with
  | zero =>
      have ended : limit ≤ place := by omega
      rw [places_of_le ended, places_of_le ended]
  | succ turns induction =>
      have step := behind place
      rw [Nat.succ_add_eq_add_succ, Nat.add_succ, places, places]
      by_cases inside : place < limit
      · rw [if_pos inside, if_pos inside, induction (by omega)]
      · rw [if_neg inside, if_neg inside]

/-- More turns only add places, and none when there were turns left. -/
theorem places_prefix (next : Nat → Nat) (limit turns place more : Nat) :
    ∃ rest, places next limit (turns + more) place =
        places next limit turns place ++ rest ∧
      ((places next limit turns place).length = turns ∨ rest = []) := by
  induction turns generalizing place with
  | zero => exact ⟨_, rfl, .inl rfl⟩
  | succ turns induction =>
      rw [Nat.succ_add_eq_add_succ, Nat.add_succ, places, places]
      by_cases inside : place < limit
      · obtain ⟨rest, same, used⟩ := induction (next place)
        rw [if_pos inside, if_pos inside, same]
        refine ⟨rest, rfl, used.imp ?_ id⟩
        intro all
        rw [List.length_cons, all]
      · rw [if_neg inside, if_neg inside]
        exact ⟨[], rfl, .inr rfl⟩

/-- Places at equal distances up to the last one. -/
theorem mem_places_add (step : Nat) (filled : 0 < step)
    (enough : limit - place ≤ turns) {p : Nat} :
    p ∈ places (· + step) limit turns place ↔
      p < limit ∧ ∃ n, p = place + n * step := by
  induction turns generalizing place with
  | zero =>
      refine iff_of_false List.not_mem_nil ?_
      rintro ⟨inside, n, rfl⟩
      omega
  | succ turns induction =>
      rw [places]
      by_cases inside : place < limit
      · rw [if_pos inside, List.mem_cons, induction (by omega)]
        constructor
        · rintro (rfl | ⟨below, n, rfl⟩)
          · exact ⟨inside, 0, by rw [Nat.zero_mul, Nat.add_zero]⟩
          · exact ⟨below, n + 1, by rw [Nat.add_mul, Nat.one_mul]; omega⟩
        · rintro ⟨below, n, rfl⟩
          cases n with
          | zero => exact .inl (by rw [Nat.zero_mul, Nat.add_zero])
          | succ n =>
              refine .inr ⟨below, n, ?_⟩
              rw [Nat.add_mul, Nat.one_mul]
              omega
      · rw [if_neg inside]
        refine iff_of_false List.not_mem_nil ?_
        rintro ⟨below, n, rfl⟩
        exact inside (Nat.lt_of_le_of_lt (Nat.le_add_right _ _) below)

/-- A walk below a limit goes on forever if and only if it comes back to a
place. -/
theorem ends_iff {goesOn : Nat → Prop} (below : ∀ p, goesOn p → p < limit) :
    (∃ n, ¬ goesOn (next^[n] place)) ↔
      ∀ i j, i < j → (∀ n ≤ j, goesOn (next^[n] place)) →
        next^[i] place ≠ next^[j] place := by
  constructor
  · rintro ⟨n, ended⟩ i j less all same
    have again (k : Nat) : goesOn (next^[k] place) := by
      induction k using Nat.strong_induction_on with
      | _ k induction =>
          rcases Nat.lt_or_ge j k with later | early
          · have back : next^[k] place = next^[k - (j - i)] place := by
              have first : k = (k - j) + j := by omega
              have second : k - (j - i) = (k - j) + i := by omega
              rw [second, Function.iterate_add_apply, same,
                ← Function.iterate_add_apply, ← first]
            rw [back]
            exact induction _ (by omega)
          · exact all k early
    exact ended (again n)
  · intro apart
    by_contra never
    push Not at never
    have collision := Finite.exists_ne_map_eq_of_infinite
      (fun n : Nat => (⟨next^[n] place, below _ (never n)⟩ : Fin limit))
    obtain ⟨i, j, different, same⟩ := collision
    have equal : next^[i] place = next^[j] place := congrArg Fin.val same
    rcases Nat.lt_or_gt_of_ne different with less | less
    · exact apart i j less (fun n _ => never n) equal
    · exact apart j i less (fun n _ => never n) equal.symm

end Places
