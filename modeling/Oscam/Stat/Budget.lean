import Oscam.Stat.Fallback
import Mathlib.Data.List.TakeWhile

/-!
# At most `lb_max_readers` primary readers

`nreaders` is what is left of `lb_max_readers`.  The primary readers are taken
from it, the fallbacks are not, but a fallback that is retried is put in front
of the others: it is a primary reader then, and with the first fallback all the
others behind it are.
-/

namespace Oscam.Stat

variable {env : LbEnv} {er : EcmRequest} {prid : Nat} {l : LList}
  {cells : List Nat} {rdr : ReaderId} {node : Nat}

/-! ## Primary readers -/

/-- The nodes in front of the first fallback; all of them if it is not in the
list. -/
def primaries (l : LList) (fallback : Option Nat) : List Nat :=
  l.cells.takeWhile fun cell => some cell != fallback

theorem takeWhile_append_cons {first : Nat} (outside : first ∉ cells)
    (behind : List Nat) :
    ((cells ++ first :: behind).takeWhile fun cell => some cell != some first) =
      cells := by
  rw [List.takeWhile_append_of_pos, List.takeWhile_cons_of_neg,
    List.append_nil]
  · simp
  · intro cell member
    have apart : cell ≠ first := by
      rintro rfl
      exact outside member
    simpa using apart

theorem primaries_none (plain : Plain l cells) : primaries l none = cells := by
  unfold primaries
  rw [plain.cells_eq, List.takeWhile_eq_self_iff]
  exact fun _ _ => rfl

theorem primaries_append_first (plain : Plain l cells) (some : rdr ≠ 0) :
    primaries (l.append rdr) (.some l.fresh) = cells := by
  unfold primaries
  rw [(plain.append some).cells_eq,
    takeWhile_append_cons plain.fresh_notMem]

theorem learnReader_spent (env : LbEnv) (er : EcmRequest) (prid : Nat)
    (retrylimit : Int) (v : Learning) (rdr : ReaderId) :
    let after := learnReader env er prid retrylimit v rdr
    (after.result = v.result ∧ after.nreaders = v.nreaders) ∨
      (after.result = v.result.append rdr ∧
        after.nreaders = v.nreaders - 1) := by
  dsimp only
  rcases learnReader_turn env er prid retrylimit v rdr with
    taken | ⟨stat, compares⟩ | passed
  · exact .inr ⟨taken.result, taken.nreaders⟩
  · rcases compares.outcome with ⟨_, result, left, _⟩ | ⟨_, result, left, _⟩
    · exact .inl ⟨result, left⟩
    · exact .inr ⟨result, left⟩
  · rw [passed]
    exact .inl ⟨rfl, rfl⟩

/-- The readers of the list and what is left make up the limit. -/
def Spent (max : Int) (result : LList) (nreaders : Int) : Prop :=
  (∃ cells, Plain result cells) ∧
    ((objects result).length : Int) + nreaders = max ∧ 0 ≤ nreaders

theorem Spent.append {max nreaders : Int} (spent : Spent max l nreaders)
    (some : rdr ≠ 0) (left : nreaders ≠ 0) :
    Spent max (l.append rdr) (nreaders - 1) := by
  obtain ⟨⟨cells, plain⟩, sum, notNegative⟩ := spent
  refine ⟨⟨_, plain.append some⟩, ?_, by omega⟩
  rw [plain.objects_append some, List.length_append, List.length_singleton]
  omega

theorem takeBest_spent (env : LbEnv) (timeoutServices : List ReaderId)
    (v : Choosing) (best : StatValue) (place : Nat) :
    let after := (takeBest env timeoutServices v best place).1
    (¬ (v.nlocalReaders = 0 ∧ v.nbestReaders = 0) ∧
        after.result = v.result.append best.rdr ∧
        after.nreaders = v.nreaders - 1 ∧ after.fallback = v.fallback) ∨
      ((v.nlocalReaders = 0 ∧ v.nbestReaders = 0) ∧
        (after.nlocalReaders = 0 ∧ after.nbestReaders = 0) ∧
        after.nreaders = v.nreaders ∧
        (after.result = v.result.append best.rdr ∧
            after.fallback = v.fallback.or (some v.result.fresh) ∨
          after.result = v.result ∧ after.fallback = v.fallback)) := by
  dsimp only
  obtain ⟨_, primary | last⟩ := takeBest_turn env timeoutServices v best place
  · refine .inl ⟨?_, primary.result, primary.nreaders, primary.fallback⟩
    rintro ⟨noLocal, noBest⟩
    rcases primary.wanted with more | more
    · exact more noLocal
    · exact more noBest
  · exact .inr ⟨last.unwanted, last.still, last.nreaders, last.outcome⟩

/-- The primary readers and what is left make up the limit; with a fallback no
other reader is wanted. -/
structure Choosing.Within (max : Int) (v : Choosing) : Prop where
  plain : ∃ cells, Plain v.result cells
  held : v.Held
  sum : ((primaries v.result v.fallback).length : Int) + v.nreaders = max
  notNegative : 0 ≤ v.nreaders
  only : v.fallback ≠ none → v.nlocalReaders = 0 ∧ v.nbestReaders = 0

theorem remove_found {l : LList} (plain : Plain l cells) (rdr : ReaderId) :
    (objects (l.remove rdr).1).length + (l.remove rdr).2 =
      (objects l).length := by
  have size := plain.linked.length_le plain.allocated
  have done := @LList.removeLoop_swept l [] cells (· == rdr) (l.fresh + 1)
    plain.toChained (fun cell none => by cases none) (by omega) 0
  have found := done.found
  rw [LList.found_swept plain.objects] at found
  have count : (l.remove rdr).2 = (objects l).countP (· == rdr) := by
    rw [plain.objects_eq, List.countP_map]
    rw [Nat.zero_add] at found
    exact found
  have parts := List.length_eq_countP_add_countP (· == rdr) (l := objects l)
  rw [plain.objects_remove, count, parts, Nat.add_comm,
    ← List.countP_eq_length_filter]
  apply Nat.add_left_cancel_iff.mpr
  apply List.countP_congr
  intro other _
  simp

/-- The readers that are retried, in the order of the list. -/
def retriedReaders (env : LbEnv) (er : EcmRequest) (prid : Nat) :
    List ReaderId → Reopening → List ReaderId
  | [], _ => []
  | rdr :: rdrs, v =>
      if v.nreaders = 0 then []
      else if isRetried env er prid v.s rdr then
        rdr :: retriedReaders env er prid rdrs (retryReader env er prid v rdr)
      else retriedReaders env er prid rdrs (retryReader env er prid v rdr)

variable {rdrs : List ReaderId} {v : Reopening}

/-- The loop that retries readers is reached although a best reader was
found. -/
structure RetriesSlow (env : LbEnv) (er : EcmRequest) (matching : LList)
    (learned : Learning) (chosen : Choosing) : Prop where
  oldStats : learned.newStats = false
  fewer : chosen.result.count < matching.count
  slow : chosen.bestTime ≠ 0 ∧ chosen.bestTime > getRetrylimit env.cfg er

section Phases

variable {matching : LList} {learned : Learning} {chosen : Choosing}

end Phases

end Oscam.Stat
