import Mathlib.Data.List.Induction
import Mathlib.Data.List.Perm.Basic

/-!
# The best entry of every key

Entries with a key and a rank are collected in a list that keeps one entry of
each key, of a rank as small as any that came.  The order in the list does not
matter.
-/

section

variable {α κ : Type} (key : α → κ) (rank : α → Nat)

/-- There is one entry of each key at most. -/
def OneEach (entries : List α) : Prop := (entries.map key).Nodup

/-- An entry of this key is at least as good as this rank. -/
def Covers (entries : List α) (k : κ) (r : Nat) : Prop :=
  ∃ entry ∈ entries, key entry = k ∧ rank entry ≤ r

/-- What taking in an entry of key `k` and rank `r` may do to the list. -/
inductive TakesIn (k : κ) (r : Nat) (entries entries' : List α) : Prop where
  | added (entry : α) (perm : entries'.Perm (entry :: entries))
      (absent : ∀ old ∈ entries, key old ≠ k) (same : key entry = k)
      (good : rank entry ≤ r) : TakesIn k r entries entries'
  | swapped (rest : List α) (old entry : α)
      (before : entries.Perm (old :: rest))
      (perm : entries'.Perm (entry :: rest)) (found : key old = k)
      (same : key entry = k) (better : rank entry ≤ rank old)
      (good : rank entry ≤ r) : TakesIn k r entries entries'

variable {key rank}

theorem OneEach.pairwise {entries : List α} (one : OneEach key entries) :
    entries.Pairwise fun first second => key first ≠ key second :=
  List.pairwise_map.mp one

namespace TakesIn

variable {k : κ} {r : Nat} {entries entries' : List α}

theorem oneEach (takes : TakesIn key rank k r entries entries')
    (one : OneEach key entries) : OneEach key entries' := by
  unfold OneEach at one ⊢
  cases takes with
  | added entry perm absent same good =>
      rw [(perm.map key).nodup_iff, List.map_cons, List.nodup_cons]
      refine ⟨?_, one⟩
      intro member
      obtain ⟨old, here, alike⟩ := List.mem_map.mp member
      exact absent old here (alike.trans same)
  | swapped rest old entry before perm found same better good =>
      rw [(before.map key).nodup_iff, List.map_cons, found] at one
      rw [(perm.map key).nodup_iff, List.map_cons, same]
      exact one

theorem covers_new (takes : TakesIn key rank k r entries entries') :
    Covers key rank entries' k r := by
  cases takes with
  | added entry perm absent same good =>
      exact ⟨entry, perm.mem_iff.mpr List.mem_cons_self, same, good⟩
  | swapped rest old entry before perm found same better good =>
      exact ⟨entry, perm.mem_iff.mpr List.mem_cons_self, same, good⟩

theorem covers_old (takes : TakesIn key rank k r entries entries') {k' : κ}
    {r' : Nat} (covers : Covers key rank entries k' r') :
    Covers key rank entries' k' r' := by
  obtain ⟨kept, member, alike, good⟩ := covers
  cases takes with
  | added entry perm absent same _ =>
      exact ⟨kept, perm.mem_iff.mpr (List.mem_cons_of_mem _ member), alike,
        good⟩
  | swapped rest old entry before perm found same better _ =>
      rcases List.mem_cons.mp (before.mem_iff.mp member) with rfl | other
      · exact ⟨entry, perm.mem_iff.mpr List.mem_cons_self,
          same.trans (found.symm.trans alike), Nat.le_trans better good⟩
      · exact ⟨kept, perm.mem_iff.mpr (List.mem_cons_of_mem _ other), alike,
          good⟩

end TakesIn

/-- A list that takes in entries one after the other holds the best one of
every key. -/
theorem best_of_takesIn {ι : Type} {step : List α → ι → List α}
    {newKey : ι → κ} {newRank : ι → Nat} {added : List ι}
    (takes : ∀ earlier new, earlier ++ [new] <+: added →
      TakesIn key rank (newKey new) (newRank new) (earlier.foldl step [])
        (step (earlier.foldl step []) new)) :
    OneEach key (added.foldl step []) ∧
      ∀ new ∈ added,
        Covers key rank (added.foldl step []) (newKey new) (newRank new) := by
  induction added using List.reverseRecOn with
  | nil =>
      refine ⟨List.nodup_nil, ?_⟩
      intro new member
      cases member
  | append_singleton earlier last induction =>
      obtain ⟨one, covered⟩ := induction fun before new within =>
        takes before new (within.trans (List.prefix_append earlier [last]))
      have taken := takes earlier last List.prefix_rfl
      rw [List.foldl_append, List.foldl_cons, List.foldl_nil]
      refine ⟨taken.oneEach one, ?_⟩
      intro new member
      rcases List.mem_append.mp member with old | here
      · exact taken.covers_old (covered new old)
      · cases List.mem_singleton.mp here
        exact taken.covers_new

end
