/-
  Subject:   COMPUTATIONS THAT MAY STOP, as values of `Except ε`: what is known of a sequence of
             steps that came to its end, and the loop rule.

  `Trap` lists where a program in a checked language stops: a panic of its own, or a safety check.
-/
import Mathlib.Data.List.Basic

/-- Why a program stopped. `fuel` is no stop of the program: the bound on the rounds of a modelled
    loop was too small. -/
inductive Trap where
  | panic (msg : String) (args : List Nat)
  | indexOutOfBounds
  | integerOverflow
  | nullPointer
  | fuel
  deriving DecidableEq, Repr

/-- A subtraction with the check of the language. -/
def Trap.sub (a b : Nat) : Except Trap Nat :=
  if b ≤ a then .ok (a - b) else .error .integerOverflow

universe u v

namespace Except

open List

variable {ε : Type v} {α β : Type u}

/-- **A sequence comes to its end exactly where both its parts do.** -/
theorem bind_ok_iff {b : β} (x : Except ε α) (f : α → Except ε β) :
    (do let a ← x; f a) = .ok b ↔ ∃ a, x = .ok a ∧ f a = .ok b := by
  constructor
  · intro h
    cases x with
    | error e => cases h
    | ok a => exact ⟨a, rfl, h⟩
  · rintro ⟨a, rfl, h⟩
    exact h

@[simp] theorem ok_bind (a : α) (f : α → Except ε β) : (Except.ok a >>= f) = f a := rfl

/-- **The loop rule.** A loop over a list whose body, at every element, takes what holds of the
    elements before to what holds with it comes to its end, and there holds of all. -/
theorem foldlM_ok {I : List α → β → Prop} {f : β → α → Except ε β} {l : List α}
    (step : ∀ d a r b, l = d ++ a :: r → I d b → ∃ b', f b a = .ok b' ∧ I (d ++ [a]) b') {b : β}
    (h0 : I [] b) : ∃ b', l.foldlM f b = .ok b' ∧ I l b' := by
  suffices h : ∀ r d b, l = d ++ r → I d b → ∃ b', r.foldlM f b = .ok b' ∧ I l b' from
    h l [] b rfl h0
  intro r
  induction r with
  | nil =>
    intro d b hl hd
    rw [append_nil] at hl
    exact ⟨b, rfl, hl ▸ hd⟩
  | cons a r ih =>
    intro d b hl hd
    obtain ⟨b₁, hf, h₁⟩ := step d a r b hl hd
    obtain ⟨b', hb', hI⟩ := ih (d ++ [a]) b₁ (by rw [hl, append_assoc]; rfl) h₁
    refine ⟨b', ?_, hI⟩
    rw [foldlM_cons, hf]
    exact hb'

/-- The loop rule where the invariant does not look at the elements passed. -/
theorem foldlM_ok_of {I : β → Prop} {f : β → α → Except ε β} {l : List α}
    (step : ∀ b, I b → ∀ a ∈ l, ∃ b', f b a = .ok b' ∧ I b') {b : β} (h0 : I b) :
    ∃ b', l.foldlM f b = .ok b' ∧ I b' :=
  foldlM_ok (I := fun _ => I)
    (fun d a r b hl hb => step b hb a (by rw [hl]; exact mem_append_right d mem_cons_self))
    h0

end Except
