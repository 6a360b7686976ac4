import Mathlib.Order.Nat

/-!
# Programs under a limit

A program takes its limit as an argument and cuts short what would go past
it.  What it takes is measured on the states.  As long as a run stays below its
limit, it does not depend on it, and a run that reaches the limit would reach
it under every larger one too.
-/

/-- Runs only take more, and two runs of which one stays below the smaller
limit are the same. -/
structure Limited {σ τ : Type} (before : σ → Nat) (after : τ → Nat)
    (program : Nat → σ → τ) : Prop where
  grows : ∀ limit s, before s ≤ after (program limit s)
  agrees : ∀ {limit larger s}, limit ≤ larger →
    after (program limit s) < limit ∨ after (program larger s) < limit →
      program limit s = program larger s

namespace Limited

variable {σ τ υ κ : Type} {before : σ → Nat} {between : τ → Nat}
  {after : υ → Nat}

/-- A step that does not ask for the limit. -/
theorem pure {step : σ → τ} (grows : ∀ s, before s ≤ between (step s)) :
    Limited before between fun _ => step := by
  constructor
  · intro limit s
    exact grows s
  · intro limit larger s _ _
    rfl

theorem comp {first : Nat → σ → τ} {second : Nat → τ → υ}
    (limitedFirst : Limited before between first)
    (limitedSecond : Limited between after second) :
    Limited before after fun limit s => second limit (first limit s) := by
  constructor
  · intro limit s
    exact (limitedFirst.grows limit s).trans
      (limitedSecond.grows limit (first limit s))
  · intro limit larger s le below
    have same : first limit s = first larger s := by
      apply limitedFirst.agrees le
      rcases below with below | below
      · exact Or.inl ((limitedSecond.grows limit _).trans_lt below)
      · exact Or.inr ((limitedSecond.grows larger _).trans_lt below)
    rw [← same] at below ⊢
    exact limitedSecond.agrees le below

/-- The program is chosen by what the state says. -/
theorem select (choice : σ → κ) (programs : κ → Nat → σ → τ)
    (limited : ∀ k, Limited before between (programs k)) :
    Limited before between fun limit s => programs (choice s) limit s := by
  constructor
  · intro limit s
    exact (limited (choice s)).grows limit s
  · intro limit larger s le below
    exact (limited (choice s)).agrees le below

theorem ite {first second : Nat → σ → τ} (condition : σ → Prop)
    [DecidablePred condition] (limitedFirst : Limited before between first)
    (limitedSecond : Limited before between second) :
    Limited before between fun limit s =>
      if condition s then first limit s else second limit s := by
  constructor
  · intro limit s
    split
    · exact limitedFirst.grows limit s
    · exact limitedSecond.grows limit s
  · intro limit larger s le below
    split
    · rename_i holds
      rw [if_pos holds, if_pos holds] at below
      exact limitedFirst.agrees le below
    · rename_i fails
      rw [if_neg fails, if_neg fails] at below
      exact limitedSecond.agrees le below

/-- Whether the limit is reached can be read off the run under a larger one. -/
theorem lt_iff {program : Nat → σ → τ}
    (limited : Limited before between program) {limit larger : Nat} {s : σ}
    (le : limit ≤ larger) :
    between (program limit s) < limit ↔ between (program larger s) < limit := by
  constructor
  · intro below
    rw [← limited.agrees le (Or.inl below)]
    exact below
  · intro below
    rw [limited.agrees le (Or.inr below)]
    exact below

end Limited

/-- What holds after every run from a state that stays below its limit. -/
def Yields {σ τ : Type} (after : τ → Nat) (program : Nat → σ → τ) (s : σ)
    (Post : τ → Prop) : Prop :=
  ∀ limit, after (program limit s) < limit → Post (program limit s)

namespace Yields

variable {σ τ υ : Type} {between : τ → Nat} {after : υ → Nat} {s : σ}

/-- In a composition the first program stays below the limit with the second. -/
theorem comp {first : Nat → σ → τ} {second : Nat → τ → υ} {Middle : τ → Prop}
    {Post : υ → Prop} (limited : Limited between after second)
    (start : Yields between first s Middle)
    (next : ∀ t, Middle t → Yields after second t Post) :
    Yields after (fun limit s => second limit (first limit s)) s Post := by
  intro limit below
  have early := (limited.grows limit (first limit s)).trans_lt below
  exact next (first limit s) (start limit early) limit below

theorem mono {program : Nat → σ → τ} {Weak Strong : τ → Prop}
    (yields : Yields between program s Strong)
    (weaken : ∀ t, Strong t → Weak t) : Yields between program s Weak := by
  intro limit below
  exact weaken _ (yields limit below)

end Yields
