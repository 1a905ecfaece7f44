/-
  Subject:   PROGRAMS THAT GO ON OR END: what a step function computes.

  * `Ends` -- the program, started in a state, ends with a result; `Ends.det`;
  * `Visits` -- the states a run comes through; a run ends as it ends from there (`Visits.ends`);
  * `run` -- the program with a bound on its steps; enough of them give its result (`Ends.run`).
-/
import Mathlib.Tactic.TypeStar

/-- One step: on to a state, or the end with a result. -/
inductive Outcome (σ ρ : Type*) where
  | next (s : σ)
  | done (r : ρ)
  deriving DecidableEq, Repr

namespace Outcome

variable {σ ρ : Type*} {step step' : σ → Outcome σ ρ} {s t : σ} {r : ρ}

/-- Started in `s`, the program ends with `r`. -/
inductive Ends (step : σ → Outcome σ ρ) : σ → ρ → Prop where
  | done {s : σ} {r : ρ} (h : step s = .done r) : Ends step s r
  | next {s s' : σ} {r : ρ} (h : step s = .next s') (he : Ends step s' r) : Ends step s r

/-- The states the program comes through when started in `s`. -/
inductive Visits (step : σ → Outcome σ ρ) (s : σ) : σ → Prop where
  | refl : Visits step s s
  | next {t t' : σ} (hv : Visits step s t) (h : step t = .next t') : Visits step s t'

theorem Visits.trans {u : σ} (h : Visits step s t) (h' : Visits step t u) : Visits step s u := by
  induction h' with
  | refl => exact h
  | next _ hu ih => exact ih.next hu

theorem Ends.of_next {s' : σ} (h : step s = .next s') (he : Ends step s r) : Ends step s' r := by
  cases he with
  | done h' => rw [h] at h'; cases h'
  | next h' he => rw [h] at h'; cases h'; exact he

theorem Ends.of_done {r' : ρ} (h : step s = .done r) (he : Ends step s r') : r' = r := by
  cases he with
  | done h' => rw [h] at h'; cases h'; rfl
  | next h' _ => rw [h] at h'; cases h'

/-- **A program has at most one result.** -/
theorem Ends.det {r' : ρ} (h : Ends step s r) (h' : Ends step s r') : r = r' := by
  induction h with
  | done hs => exact (h'.of_done hs).symm
  | next hs _ ih => exact ih (h'.of_next hs)

/-- **A run ends as it ends from any state it comes through.** -/
theorem Visits.ends (h : Visits step s t) : Ends step s r ↔ Ends step t r := by
  induction h with
  | refl => exact Iff.rfl
  | next _ hu ih => exact ih.trans ⟨fun he => he.of_next hu, .next hu⟩

/-- **A measure that every step makes smaller ends every run.** -/
theorem Ends.exists_of_measure (m : σ → Nat) (hm : ∀ s s', step s = .next s' → m s' < m s)
    (s : σ) : ∃ r, Ends step s r := by
  generalize hn : m s = n
  induction n using Nat.strongRecOn generalizing s with
  | _ n ih =>
    subst hn
    cases hs : step s with
    | done r => exact ⟨r, .done hs⟩
    | next s' =>
      obtain ⟨r, hr⟩ := ih (m s') (hm s s' hs) s' rfl
      exact ⟨r, .next hs hr⟩

/-- The result, if it is there after fewer than `n` steps. -/
def run (step : σ → Outcome σ ρ) : Nat → σ → Option ρ
  | 0, _ => none
  | n + 1, s =>
    match step s with
    | .done r => some r
    | .next s' => run step n s'

/-- **Enough steps give the result.** -/
theorem Ends.run {m : σ → Nat} (hm : ∀ s s', step s = .next s' → m s' < m s) (h : Ends step s r) :
    ∀ n, m s < n → run step n s = some r := by
  induction h with
  | done hs =>
    intro n hn
    cases n with
    | zero => exact absurd hn (Nat.not_lt_zero _)
    | succ n =>
      unfold Outcome.run
      rw [hs]
  | next hs _ ih =>
    intro n hn
    cases n with
    | zero => exact absurd hn (Nat.not_lt_zero _)
    | succ n =>
      unfold Outcome.run
      rw [hs]
      exact ih n (Nat.lt_of_lt_of_le (hm _ _ hs) (Nat.le_of_lt_succ hn))

/-- A result is the result of a last step. -/
theorem Ends.last (h : Ends step s r) : ∃ t, Visits step s t ∧ step t = .done r := by
  induction h with
  | @done s r hs => exact ⟨s, .refl, hs⟩
  | next hs _ ih =>
    obtain ⟨t, hv, ht⟩ := ih
    exact ⟨t, (Visits.refl.next hs).trans hv, ht⟩

theorem Visits.ends_done (h : Visits step s t) (ht : step t = .done r) : Ends step s r :=
  h.ends.2 (.done ht)

/-- A program that goes on wherever another one does comes through its states. -/
theorem Visits.mono (hs : ∀ t t', step t = .next t' → step' t = .next t') (h : Visits step s t) :
    Visits step' s t := by
  induction h with
  | refl => exact .refl
  | next _ ht ih => exact ih.next (hs _ _ ht)

end Outcome
