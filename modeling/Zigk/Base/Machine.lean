/-
  Subject:   MACHINES, THEIR RUNS AND THEIR INVARIANTS.

  A machine is a set of start states and a step function on inputs. Runs are restricted by a
  condition `C` on the single steps (`fun _ _ => True` for all runs), so that one notion serves
  both "every reachable state" and "every run whose steps all meet a condition":

  * `Reach C` -- the states of the runs whose steps meet `C`; `Reach.mono`;
  * `Reach.invariant` -- **the induction over a run**, done once;
  * `exec` -- a run given by its list of inputs, for concrete runs;
  * `track` -- the machine with a history variable that is updated along and never read;
    `Reach.forget` drops it again; `trackFrom` where the history begins with the start state.
-/
import Mathlib.Data.List.Basic

structure Machine (σ ι : Type*) where
  start : σ → Prop
  step : σ → ι → σ

namespace Machine

variable {σ ι γ : Type*} {M : Machine σ ι} {C C' : σ → ι → Prop}

/-- The states of the runs of `M` whose steps all meet `C`. -/
inductive Reach (M : Machine σ ι) (C : σ → ι → Prop) : σ → Prop where
  | start {s : σ} (h : M.start s) : Reach M C s
  | step {s : σ} (h : Reach M C s) (i : ι) (hc : C s i) : Reach M C (M.step s i)

/-- The states of all runs. -/
abbrev Reachable (M : Machine σ ι) : σ → Prop := M.Reach fun _ _ => True

/-- **What holds at the start and is kept by every step holds in every state of a run.** The
    step may use that its state is itself reached. -/
theorem Reach.invariant {I : σ → Prop} (h0 : ∀ s, M.start s → I s)
    (hs : ∀ s i, M.Reach C s → I s → C s i → I (M.step s i)) {s : σ} (h : M.Reach C s) : I s := by
  induction h with
  | start h => exact h0 _ h
  | step h i hc ih => exact hs _ i h ih hc

theorem Reach.mono (hC : ∀ s i, C s i → C' s i) {s : σ} (h : M.Reach C s) : M.Reach C' s := by
  induction h with
  | start h => exact .start h
  | step _ i hc ih => exact ih.step i (hC _ i hc)

theorem Reach.reachable {s : σ} (h : M.Reach C s) : M.Reachable s :=
  h.mono fun _ _ _ => trivial

/-! ## Concrete runs -/

/-- The state after a list of inputs. -/
def exec (M : Machine σ ι) (s : σ) : List ι → σ
  | [] => s
  | i :: l => M.exec (M.step s i) l

/-- Every step of the run over a list of inputs meets `C`. -/
def Along (M : Machine σ ι) (C : σ → ι → Prop) (s : σ) : List ι → Prop
  | [] => True
  | i :: l => C s i ∧ M.Along C (M.step s i) l

instance Along.decidable [∀ s i, Decidable (C s i)] (s : σ) :
    (l : List ι) → Decidable (M.Along C s l)
  | [] => .isTrue trivial
  | i :: l =>
    haveI := Along.decidable (M.step s i) l
    inferInstanceAs (Decidable (C s i ∧ M.Along C (M.step s i) l))

theorem Reach.exec {s : σ} (h : M.Reach C s) {l : List ι} (hl : M.Along C s l) :
    M.Reach C (M.exec s l) := by
  induction l generalizing s with
  | nil => exact h
  | cons i l ih => exact ih (h.step i hl.1) hl.2

theorem Along.of_forall (h : ∀ s i, C s i) (s : σ) (l : List ι) : M.Along C s l := by
  induction l generalizing s with
  | nil => trivial
  | cons i l ih => exact ⟨h s i, ih _⟩

theorem Reachable.exec {s : σ} (h : M.Reachable s) (l : List ι) : M.Reachable (M.exec s l) :=
  Reach.exec h (.of_forall (fun _ _ => trivial) s l)

theorem Along.take {s : σ} {l : List ι} (h : M.Along C s l) (n : Nat) : M.Along C s (l.take n) := by
  induction l generalizing s n with
  | nil => simpa only [List.take_nil] using h
  | cons i l ih =>
    cases n with
    | zero => trivial
    | succ n => exact ⟨h.1, ih h.2 n⟩

/-! ## History variables -/

/-- `M` with a history variable: `init` at the start, updated by `upd` from the state before the
    step and the input. -/
def track (M : Machine σ ι) (init : γ) (upd : γ → σ → ι → γ) : Machine (σ × γ) ι where
  start p := M.start p.1 ∧ p.2 = init
  step p i := (M.step p.1 i, upd p.2 p.1 i)

/-- A history variable does not touch the runs it records. -/
theorem Reach.forget {init : γ} {upd : γ → σ → ι → γ} {p : σ × γ}
    (h : (M.track init upd).Reach (fun p i => C p.1 i) p) : M.Reach C p.1 := by
  induction h with
  | start h => exact .start h.1
  | step _ i hc ih => exact ih.step i hc

/-- The same with a history that begins with what the start state shows. -/
def trackFrom (M : Machine σ ι) (init : σ → γ) (upd : γ → σ → ι → γ) : Machine (σ × γ) ι where
  start p := M.start p.1 ∧ p.2 = init p.1
  step p i := (M.step p.1 i, upd p.2 p.1 i)

theorem Reach.forgetFrom {init : σ → γ} {upd : γ → σ → ι → γ} {p : σ × γ}
    (h : (M.trackFrom init upd).Reach (fun p i => C p.1 i) p) : M.Reach C p.1 := by
  induction h with
  | start h => exact .start h.1
  | step _ i hc ih => exact ih.step i hc

end Machine
