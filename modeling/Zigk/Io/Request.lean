/-
  Subject:   ONE I/O REQUEST under concurrent `complete()`, `cancel()` and readers.

  The calls on a request are interleaved at their atomic steps: a load or a compare-and-swap of
  `state`, a write or a read of `result`, the wakeup of the submitter.

  * `callStep` -- one atomic step of a call, as its function has it; `requests` -- any number of
    calls on one pending request;
  * `SingleOutcome` -- exactly one `complete()` or `cancel()` returns true, `state` and `result`
    are those of that call, and every reader that saw the request done read that result;
  * `KeepsOutcome` -- where a step keeps it: no `complete()` writes `result` of a settled request
    or takes the request after another call overwrote what it wrote, and no reader reads between
    the compare-and-swap of `cancel()` and its write;
  * **`singleOutcome`** -- in every run of such steps.
-/
import Mathlib.Data.Fintype.Basic
import Zigk.Base.Machine

namespace Zigk.Io

open Function Option

/-! ## 1. A request -/

/-- `ε`: the system call errors, which the request only passes on. -/
inductive IoResult (ε : Type) where
  | success (n : Nat)
  | err (e : ε)
  | cancelled
  | pending
  deriving DecidableEq, Repr

inductive IoRequestState where
  | idle | pending | in_progress | completed | cancelled
  deriving DecidableEq, Repr

/-- The threads of the kernel, by number. -/
abbrev ThreadId := Nat

structure IoRequest (ε : Type) where
  state : IoRequestState := .idle
  result : IoResult ε := .pending
  submitter : Option ThreadId := none

/-- `complete()` takes the request from these states only. -/
def IoRequestState.open : IoRequestState → Bool
  | .pending | .in_progress => true
  | _ => false

/-- What `isDone()` asks. -/
def IoRequestState.done : IoRequestState → Bool
  | .completed | .cancelled => true
  | _ => false

variable {ε : Type}

/-- `compareAndSwapState()`. -/
def IoRequest.compareAndSwapState (r : IoRequest ε) (expected new : IoRequestState) :
    IoRequest ε × Bool :=
  if r.state = expected then ({ r with state := new }, true) else (r, false)

/-! ## 2. The calls, step by step -/

inductive Call (ε : Type) where
  | complete (result : IoResult ε)
  | cancel
  | poll
  /-- `isDone()`, and the caller's read of `result` where it says true. -/
  | isDone
  /-- `wait()` of the thread `t`. -/
  | wait (t : ThreadId)

/-- Where a call stands. -/
inductive Pc (ε : Type) where
  | start
  /-- `complete()`: `state` was loaded as `current`, `result` is not written yet. -/
  | store (current : IoRequestState)
  /-- `complete()`: before the compare-and-swap from `current`. -/
  | swap (current : IoRequestState)
  /-- `cancel()`: the state is cancelled, `result` is not written yet. -/
  | stamp
  /-- The request is taken, the submitter is not woken yet. -/
  | wake
  | returned (b : Bool)
  /-- `wait()`: at the loop. -/
  | loop
  /-- A reader that has seen the request done, before it reads `result`. -/
  | read
  /-- A reader that has seen the request not done. -/
  | notDone
  | answered (result : IoResult ε)
  deriving DecidableEq

/-- One atomic step of a call: the request, the next place, the thread it unblocks and whether it
    writes `result`. -/
structure CallStep (ε : Type) where
  req : IoRequest ε
  pc : Pc ε
  unblocked : Option ThreadId := none
  wrote : Bool := false

/-- The body of `complete()`; a lost swap goes back to the load. -/
def completeStep (result : IoResult ε) (r : IoRequest ε) : Pc ε → CallStep ε
  | .start =>
    if r.state.open then ⟨r, .store r.state, none, false⟩ else ⟨r, .returned false, none, false⟩
  | .store current => ⟨{ r with result := result }, .swap current, none, true⟩
  | .swap current =>
    match r.compareAndSwapState current .completed with
    | (r', true) => ⟨r', .wake, none, false⟩
    | (r', false) => ⟨r', .start, none, false⟩
  | .wake => ⟨r, .returned true, r.submitter, false⟩
  | pc => ⟨r, pc, none, false⟩

/-- The body of `cancel()`: it swaps first and writes afterwards. -/
def cancelStep (r : IoRequest ε) : Pc ε → CallStep ε
  | .start =>
    match r.compareAndSwapState .pending .cancelled with
    | (r', true) => ⟨r', .stamp, none, false⟩
    | (r', false) => ⟨r', .returned false, none, false⟩
  | .stamp => ⟨{ r with result := .cancelled }, .wake, none, true⟩
  | .wake => ⟨r, .returned true, r.submitter, false⟩
  | pc => ⟨r, pc, none, false⟩

/-- The load of `poll()` and `isDone()`, and the read after it. -/
def askStep (r : IoRequest ε) : Pc ε → CallStep ε
  | .start => ⟨r, if r.state.done then .read else .notDone, none, false⟩
  | .read => ⟨r, .answered r.result, none, false⟩
  | pc => ⟨r, pc, none, false⟩

/-- The body of `wait()`; `sched.block()` may return at any time, so that the loop is just tried
    again. -/
def waitStep (t : ThreadId) (r : IoRequest ε) : Pc ε → CallStep ε
  | .start => ⟨{ r with submitter := some t }, .loop, none, false⟩
  | .loop => ⟨r, if r.state.done then .read else .loop, none, false⟩
  | .read => ⟨r, .answered r.result, none, false⟩
  | pc => ⟨r, pc, none, false⟩

def callStep (c : Call ε) (r : IoRequest ε) (pc : Pc ε) : CallStep ε :=
  match c with
  | .complete result => completeStep result r pc
  | .cancel => cancelStep r pc
  | .poll => askStep r pc
  | .isDone => askStep r pc
  | .wait t => waitStep t r pc

/-! ## 3. All calls on one request -/

variable {κ : Type}

/-- The request and its calls `κ`. `writer`, the call that wrote `result` last, is a history
    variable. -/
structure Calls (ε κ : Type) where
  req : IoRequest ε
  pc : κ → Pc ε
  unblocked : List ThreadId := []
  writer : Option κ := none

def Calls.step [DecidableEq κ] (calls : κ → Call ε) (s : Calls ε κ) (k : κ) : Calls ε κ :=
  let c := callStep (calls k) s.req (s.pc k)
  { req := c.req
    pc := update s.pc k c.pc
    unblocked := s.unblocked ++ c.unblocked.toList
    writer := if c.wrote then some k else s.writer }

/-- The calls `calls` on one pending request, interleaved at their steps. -/
def requests [DecidableEq κ] (calls : κ → Call ε) : Machine (Calls ε κ) κ where
  start s := s.req.state = .pending ∧ (∀ k, s.pc k = .start) ∧ s.writer = none
  step s k := s.step calls k

/-! ## 4. The law -/

/-- The state and the result that a call leaves when it takes the request. -/
def Call.outcome : Call ε → Option (IoRequestState × IoResult ε)
  | .complete result => some (.completed, result)
  | .cancel => some (.cancelled, .cancelled)
  | _ => none

/-- The call has taken the request: its compare-and-swap succeeded. -/
def Pc.won : Pc ε → Bool
  | .stamp | .wake | .returned true => true
  | _ => false

/-- Every `complete()` and `cancel()` has returned. -/
def Calls.AllReturned (calls : κ → Call ε) (s : Calls ε κ) : Prop :=
  ∀ k, (calls k).outcome ≠ none → ∃ b, s.pc k = .returned b

structure SingleOutcome (calls : κ → Call ε) (s : Calls ε κ) : Prop where
  atMostOne : ∀ k k', s.pc k = .returned true → s.pc k' = .returned true → k = k'
  atLeastOne : s.AllReturned calls → (∃ k, (calls k).outcome ≠ none) → ∃ k, s.pc k = .returned true
  /-- The final state and result are those of the call that returned true. -/
  final : s.AllReturned calls → ∀ k, s.pc k = .returned true →
    (calls k).outcome = some (s.req.state, s.req.result)
  /-- A reader that saw the request done read the result of the call that took it. -/
  readers : ∀ k result, s.pc k = .answered result →
    ∃ k', (s.pc k').won = true ∧ (calls k').outcome.map (·.2) = some result

/-- **A step that keeps the single outcome.** -/
def KeepsOutcome (calls : κ → Call ε) (s : Calls ε κ) (k : κ) : Prop :=
  match calls k, s.pc k with
  | .complete _, .store _ => s.req.state.open = true
  | .complete _, .swap current => s.req.state = current → s.writer = some k
  | _, .read => ∀ k', s.pc k' ≠ .stamp
  | _, _ => True

/-! ## 5. The invariant -/

/-- What holds of the call `k` at its place, on the request `r`. -/
def Place (calls : κ → Call ε) (s : Calls ε κ) (k : κ) : Pc ε → Prop
  | .store current | .swap current => current = .pending ∧ ∃ result, calls k = .complete result
  | .stamp => calls k = .cancel ∧ s.req.state = .cancelled
  | .wake | .returned true =>
    (calls k).outcome.map (·.1) = some s.req.state ∧ s.req.state.done = true ∧ s.writer = some k
  | .returned false | .read => s.req.state.done = true
  | .answered result =>
    ∃ k', (s.pc k').won = true ∧ (calls k').outcome.map (·.2) = some result
  | _ => True

structure OutcomeInv (calls : κ → Call ε) (s : Calls ε κ) : Prop where
  places : ∀ k, Place calls s k (s.pc k)
  state : s.req.state = .pending ∨ s.req.state.done = true
  taken : s.req.state.done = true → ∃ k, (s.pc k).won = true
  unique : ∀ k k', (s.pc k).won = true → (s.pc k').won = true → k = k'
  written : ∀ k, s.writer = some k → (calls k).outcome.map (·.2) = some s.req.result

variable {calls : κ → Call ε} {s : Calls ε κ} {k : κ}

theorem OutcomeInv.start [DecidableEq κ] {s : Calls ε κ} (h : (requests calls).start s) : OutcomeInv calls s := by
  obtain ⟨hs, hpc, hw⟩ := h
  have hnone : ∀ k, (s.pc k).won = false := fun k => by rw [hpc k]; rfl
  refine ⟨fun k => ?_, .inl hs, fun hd => ?_, fun k _ h _ => ?_, fun k h => ?_⟩
  · rw [hpc k]; trivial
  · rw [hs] at hd; cases hd
  · rw [hnone k] at h; cases h
  · rw [hw] at h; cases h

variable {pc : Pc ε} {u : List ThreadId}

/-- A call that has taken the request stands at its end. -/
theorem Place.done (h : Place calls s k pc) (hw : pc.won = true) :
    s.req.state.done = true := by
  cases pc with
  | stamp => rw [h.2]; rfl
  | wake => exact h.2.1
  | returned b => cases b with
    | true => exact h.2.1
    | false => cases hw
  | _ => cases hw

/-- While the request is pending no call has taken it. -/
theorem OutcomeInv.not_won (h : OutcomeInv calls s) (hs : s.req.state = .pending) (k : κ) :
    (s.pc k).won = false := by
  by_contra hne
  have hd := (h.places k).done (Bool.not_eq_false _ ▸ hne)
  rw [hs] at hd
  cases hd

/-- While the request is pending, no place of a call speaks of the call that took it. -/
theorem OutcomeInv.place_pending (h : OutcomeInv calls s) (hs : s.req.state = .pending) {k : κ}
    {s' : Calls ε κ} : Place calls s' k (s.pc k) := by
  have hp := h.places k
  have hw := h.not_won hs
  have hdone : s.req.state.done ≠ true := by rw [hs]; decide
  generalize s.pc k = pc at hp
  cases pc with
  | returned b =>
    cases b with
    | true => exact absurd hp.2.1 hdone
    | false => exact absurd hp hdone
  | wake => exact absurd hp.2.1 hdone
  | stamp => exact absurd (by rw [hp.2]; rfl) hdone
  | read => exact absurd hp hdone
  | answered result =>
    obtain ⟨k', hk', -⟩ := hp
    rw [hw k'] at hk'
    cases hk'
  | _ => exact hp

variable [DecidableEq κ]

section

variable (h : OutcomeInv calls s)
include h

/-- **Steps that leave `state`, `result` and the claim on the request as they are.** -/
theorem OutcomeInv.move {r : IoRequest ε}
    (hstate : r.state = s.req.state) (hresult : r.result = s.req.result)
    (hwon : pc.won = (s.pc k).won) (hp : Place calls s k pc) :
    OutcomeInv calls ⟨r, update s.pc k pc, u, s.writer⟩ := by
  have hw : ∀ k', (update s.pc k pc k').won = (s.pc k').won := by
    intro k'
    by_cases e : k' = k
    · rw [e, update_self, hwon]
    · rw [update_of_ne e]
  have hplace : ∀ k' pc', Place calls s k' pc' →
      Place calls ⟨r, update s.pc k pc, u, s.writer⟩ k' pc' := by
    intro k' pc' hp'
    cases pc' with
    | returned b =>
      cases b with
      | true => exact ⟨hstate ▸ hp'.1, hstate ▸ hp'.2.1, hp'.2.2⟩
      | false =>
        change r.state.done = true
        rw [hstate]
        exact hp'
    | stamp => exact ⟨hp'.1, hstate ▸ hp'.2⟩
    | wake => exact ⟨hstate ▸ hp'.1, hstate ▸ hp'.2.1, hp'.2.2⟩
    | read =>
      change r.state.done = true
      rw [hstate]
      exact hp'
    | answered result =>
      obtain ⟨k₁, h₁, ho⟩ := hp'
      exact ⟨k₁, (hw k₁).trans h₁, ho⟩
    | _ => exact hp'
  refine ⟨fun k' => ?_, ?_, fun hd => ?_, fun k₁ k₂ h₁ h₂ => ?_, fun k' hk' => ?_⟩
  · refine hplace k' (update s.pc k pc k') ?_
    by_cases e : k' = k
    · rw [e, update_self]
      exact hp
    · rw [update_of_ne e]
      exact h.places k'
  · exact hstate ▸ h.state
  · obtain ⟨k', hk'⟩ := h.taken (hstate ▸ hd)
    exact ⟨k', (hw k').trans hk'⟩
  · exact h.unique _ _ ((hw k₁).symm.trans h₁) ((hw k₂).symm.trans h₂)
  · exact hresult ▸ h.written k' hk'

/-- **A `complete()` writes `result` of the pending request.** -/
theorem OutcomeInv.write (hs : s.req.state = .pending)
    {result : IoResult ε} (hc : calls k = .complete result) :
    OutcomeInv calls ⟨{ s.req with result := result }, update s.pc k (.swap .pending), u,
      some k⟩ := by
  have hw : ∀ k', (update s.pc k (.swap .pending) k').won = false := by
    intro k'
    by_cases e : k' = k
    · rw [e, update_self]; rfl
    · rw [update_of_ne e]; exact h.not_won hs k'
  refine ⟨fun k' => ?_, .inl hs, fun hd => ?_, fun k₁ k₂ h₁ _ => ?_, fun k' hk' => ?_⟩
  · change Place calls _ k' (update s.pc k (.swap .pending) k')
    by_cases e : k' = k
    · rw [e, update_self]
      exact ⟨rfl, result, hc⟩
    · rw [update_of_ne e]
      exact h.place_pending hs
  · change s.req.state.done = true at hd
    rw [hs] at hd
    cases hd
  · exact absurd ((hw k₁).symm.trans h₁) (by decide)
  · cases hk'
    rw [hc]
    rfl

/-- **The compare-and-swap that takes the pending request.** -/
theorem OutcomeInv.take (hs : s.req.state = .pending)
    {st : IoRequestState} (hd : st.done = true) (hwon : pc.won = true)
    (hp : Place calls ⟨{ s.req with state := st }, update s.pc k pc, u, s.writer⟩ k pc) :
    OutcomeInv calls ⟨{ s.req with state := st }, update s.pc k pc, u, s.writer⟩ := by
  have hw : ∀ k', (update s.pc k pc k').won = true → k' = k := by
    intro k' hk'
    by_contra e
    rw [update_of_ne e, h.not_won hs k'] at hk'
    cases hk'
  refine ⟨fun k' => ?_, .inr hd, fun _ => ⟨k, ?_⟩, fun k₁ k₂ h₁ h₂ => ?_, h.written⟩
  · change Place calls _ k' (update s.pc k pc k')
    by_cases e : k' = k
    · rw [e, update_self]
      exact hp
    · rw [update_of_ne e]
      exact h.place_pending hs
  · change (update s.pc k pc k).won = true
    rw [update_self, hwon]
  · rw [hw k₁ h₁, hw k₂ h₂]

/-- **`cancel()` writes `result` after its swap**: until then nobody else has taken the request. -/
theorem OutcomeInv.stamp (hpc : s.pc k = .stamp) :
    OutcomeInv calls ⟨{ s.req with result := .cancelled }, update s.pc k .wake, u,
      some k⟩ := by
  have hk := h.places k
  rw [hpc] at hk
  obtain ⟨hc, hs⟩ := hk
  have hwon : ∀ k', (update s.pc k .wake k').won = (s.pc k').won := by
    intro k'
    by_cases e : k' = k
    · rw [e, update_self, hpc]; rfl
    · rw [update_of_ne e]
  have hother : ∀ k', k' ≠ k → (s.pc k').won = false := by
    intro k' e
    by_contra hne
    exact e (h.unique k' k (Bool.not_eq_false _ ▸ hne) (by rw [hpc]; rfl))
  have hdone : s.req.state.done = true := by rw [hs]; rfl
  refine ⟨fun k' => ?_, .inr hdone, fun _ => ⟨k, ?_⟩, fun k₁ k₂ h₁ h₂ => ?_, fun k' hk' => ?_⟩
  · change Place calls _ k' (update s.pc k .wake k')
    by_cases e : k' = k
    · rw [e, update_self]
      exact ⟨by rw [hc]; exact congrArg some hs.symm, hdone, rfl⟩
    rw [update_of_ne e]
    have hp := h.places k'
    have hw := hother k' e
    generalize s.pc k' = pc at hp hw
    cases pc with
    | returned b =>
      cases b with
      | true => cases hw
      | false => exact hp
    | stamp => cases hw
    | wake => cases hw
    | answered result =>
      obtain ⟨k₁, h₁, ho⟩ := hp
      exact ⟨k₁, (hwon k₁).trans h₁, ho⟩
    | _ => exact hp
  · exact (hwon k).trans (by rw [hpc]; rfl)
  · exact h.unique _ _ ((hwon k₁).symm.trans h₁) ((hwon k₂).symm.trans h₂)
  · cases hk'
    rw [hc]
    rfl

end

/-! ## 6. The steps -/

theorem step_eq {c : CallStep ε} (hc : callStep (calls k) s.req (s.pc k) = c) :
    s.step calls k = ⟨c.req, update s.pc k c.pc, s.unblocked ++ c.unblocked.toList,
      if c.wrote then some k else s.writer⟩ := by
  rw [← hc]
  rfl

section

variable (h : OutcomeInv calls s)
include h

/-- A step that only looks: `OutcomeInv.move` on the machine. -/
theorem OutcomeInv.look {r : IoRequest ε}
    {u : Option ThreadId} (hc : callStep (calls k) s.req (s.pc k) = ⟨r, pc, u, false⟩)
    (hstate : r.state = s.req.state) (hresult : r.result = s.req.result)
    (hwon : pc.won = (s.pc k).won) (hp : Place calls s k pc) :
    OutcomeInv calls (s.step calls k) := by
  rw [step_eq hc]
  exact h.move hstate hresult hwon hp

theorem OutcomeInv.complete (hk : KeepsOutcome calls s k)
    {result : IoResult ε} (hc : calls k = .complete result) : OutcomeInv calls (s.step calls k) := by
  have hplace := h.places k
  unfold KeepsOutcome at hk
  rw [hc] at hk
  cases hp : s.pc k with
  | start =>
    have hcs : callStep (calls k) s.req (s.pc k) = completeStep result s.req .start := by
      rw [hc, hp]; rfl
    rcases h.state with hs | hs
    · have hstep : completeStep result s.req .start = ⟨s.req, .store .pending, none, false⟩ := by
        rw [completeStep, hs]; rfl
      exact h.look (hcs.trans hstep) rfl rfl (by rw [hp]; rfl) ⟨rfl, result, hc⟩
    have hstep : completeStep result s.req .start = ⟨s.req, .returned false, none, false⟩ := by
      rw [completeStep, if_neg]
      intro ho
      revert hs ho
      cases s.req.state <;> decide
    exact h.look (hcs.trans hstep) rfl rfl (by rw [hp]; rfl) hs
  | store current =>
    rw [hp] at hk hplace
    obtain ⟨rfl, -⟩ := hplace
    have hs : s.req.state = .pending := by
      refine h.state.resolve_right fun hd => ?_
      change s.req.state.open = true at hk
      revert hk hd
      cases s.req.state <;> decide
    rw [step_eq (c := completeStep result s.req (.store .pending)) (by rw [hc, hp]; rfl)]
    exact h.write hs hc
  | swap current =>
    rw [hp] at hk hplace
    obtain ⟨rfl, -⟩ := hplace
    have hcs : callStep (calls k) s.req (s.pc k) = completeStep result s.req (.swap .pending) := by
      rw [hc, hp]; rfl
    by_cases hs : s.req.state = .pending
    · have hstep : completeStep result s.req (.swap .pending) =
          ⟨{ s.req with state := .completed }, .wake, none, false⟩ := by
        rw [completeStep, IoRequest.compareAndSwapState, if_pos hs]
      rw [step_eq (hcs.trans hstep)]
      exact h.take hs rfl rfl ⟨by rw [hc]; rfl, rfl, hk hs⟩
    · have hstep : completeStep result s.req (.swap .pending) = ⟨s.req, .start, none, false⟩ := by
        rw [completeStep, IoRequest.compareAndSwapState, if_neg hs]
      exact h.look (hcs.trans hstep) rfl rfl (by rw [hp]; rfl) trivial
  | wake =>
    rw [hp] at hplace
    have hstep : callStep (calls k) s.req (s.pc k) =
        ⟨s.req, .returned true, s.req.submitter, false⟩ := by rw [hc, hp]; rfl
    exact h.look hstep rfl rfl (by rw [hp]; rfl) hplace
  | _ => exact h.look (by rw [hc, hp]; rfl) rfl rfl (by rw [hp]) (hp ▸ hplace)

theorem OutcomeInv.cancel (hc : calls k = .cancel) :
    OutcomeInv calls (s.step calls k) := by
  have hplace := h.places k
  cases hp : s.pc k with
  | start =>
    have hcs : callStep (calls k) s.req (s.pc k) = cancelStep s.req .start := by
      rw [hc, hp]; rfl
    rcases h.state with hs | hs
    · have hstep : cancelStep s.req .start =
          ⟨{ s.req with state := .cancelled }, .stamp, none, false⟩ := by
        rw [cancelStep, IoRequest.compareAndSwapState, if_pos hs]
      rw [step_eq (hcs.trans hstep)]
      exact h.take hs rfl rfl ⟨hc, rfl⟩
    have hstep : cancelStep s.req .start = ⟨s.req, .returned false, none, false⟩ := by
      rw [cancelStep, IoRequest.compareAndSwapState, if_neg]
      intro e
      rw [e] at hs
      cases hs
    exact h.look (hcs.trans hstep) rfl rfl (by rw [hp]; rfl) hs
  | stamp =>
    rw [step_eq (c := cancelStep s.req .stamp) (by rw [hc, hp]; rfl)]
    exact h.stamp hp
  | wake =>
    rw [hp] at hplace
    have hstep : callStep (calls k) s.req (s.pc k) =
        ⟨s.req, .returned true, s.req.submitter, false⟩ := by rw [hc, hp]; rfl
    exact h.look hstep rfl rfl (by rw [hp]; rfl) hplace
  | _ => exact h.look (by rw [hc, hp]; rfl) rfl rfl (by rw [hp]) (hp ▸ hplace)

omit [DecidableEq κ] in
/-- What a reader finds in `result` once it has seen the request done. -/
theorem OutcomeInv.answer (hp : s.pc k = .read)
    (hk : ∀ k', s.pc k' ≠ .stamp) : Place calls s k (.answered s.req.result) := by
  have hdone := h.places k
  rw [hp] at hdone
  obtain ⟨k', hk'⟩ := h.taken hdone
  refine ⟨k', hk', h.written k' ?_⟩
  have hplace := h.places k'
  have hne := hk k'
  generalize s.pc k' = pc at hk' hplace hne
  cases pc with
  | stamp => exact absurd rfl hne
  | wake => exact hplace.2.2
  | returned b =>
    cases b with
    | true => exact hplace.2.2
    | false => cases hk'
  | _ => cases hk'

/-- The load of a reader. -/
theorem OutcomeInv.see (pc : Pc ε) (hno : pc.won = false)
    (hpc : (s.pc k).won = false) (hp : Place calls s k pc) (u : Option ThreadId)
    (hc : callStep (calls k) s.req (s.pc k) = ⟨s.req, if s.req.state.done then .read else pc, u, false⟩) :
    OutcomeInv calls (s.step calls k) := by
  by_cases hd : s.req.state.done = true
  · rw [if_pos hd] at hc
    exact h.look hc rfl rfl hpc.symm hd
  · rw [if_neg hd] at hc
    exact h.look hc rfl rfl (hno.trans hpc.symm) hp

/-- `poll()` and `isDone()`. -/
theorem OutcomeInv.ask
    (hc : ∀ pc, callStep (calls k) s.req pc = askStep s.req pc)
    (hk : s.pc k = .read → ∀ k', s.pc k' ≠ .stamp) : OutcomeInv calls (s.step calls k) := by
  have hplace := h.places k
  cases hp : s.pc k with
  | start =>
    exact h.see .notDone rfl (by rw [hp]; rfl) trivial none (by rw [hc, hp]; rfl)
  | read =>
    have hstep : callStep (calls k) s.req (s.pc k) = ⟨s.req, .answered s.req.result, none, false⟩ := by
      rw [hc, hp]; rfl
    exact h.look hstep rfl rfl (by rw [hp]; rfl) (h.answer hp (hk hp))
  | _ => exact h.look (by rw [hc, hp]; rfl) rfl rfl (by rw [hp]) (hp ▸ hplace)

theorem OutcomeInv.wait {t : ThreadId} (hc : calls k = .wait t)
    (hk : s.pc k = .read → ∀ k', s.pc k' ≠ .stamp) : OutcomeInv calls (s.step calls k) := by
  have hplace := h.places k
  cases hp : s.pc k with
  | start =>
    have hstep : callStep (calls k) s.req (s.pc k) =
        ⟨{ s.req with submitter := some t }, .loop, none, false⟩ := by rw [hc, hp]; rfl
    exact h.look hstep rfl rfl (by rw [hp]; rfl) trivial
  | loop => exact h.see .loop rfl (by rw [hp]; rfl) trivial none (by rw [hc, hp]; rfl)
  | read =>
    have hstep : callStep (calls k) s.req (s.pc k) = ⟨s.req, .answered s.req.result, none, false⟩ := by
      rw [hc, hp]; rfl
    exact h.look hstep rfl rfl (by rw [hp]; rfl) (h.answer hp (hk hp))
  | _ => exact h.look (by rw [hc, hp]; rfl) rfl rfl (by rw [hp]) (hp ▸ hplace)

theorem OutcomeInv.step (hk : KeepsOutcome calls s k) :
    OutcomeInv calls (s.step calls k) := by
  have hread : (∀ result, calls k ≠ .complete result) → s.pc k = .read → ∀ k', s.pc k' ≠ .stamp := by
    intro hnc hp
    unfold KeepsOutcome at hk
    cases hc : calls k with
    | complete result => exact absurd hc (hnc result)
    | _ =>
      rw [hc, hp] at hk
      exact hk
  cases hc : calls k with
  | complete result => exact h.complete hk hc
  | cancel => exact h.cancel hc
  | poll => exact h.ask (fun _ => by rw [hc]; rfl) (hread fun _ e => nomatch hc.symm.trans e)
  | isDone => exact h.ask (fun _ => by rw [hc]; rfl) (hread fun _ e => nomatch hc.symm.trans e)
  | wait t => exact h.wait hc (hread fun _ e => nomatch hc.symm.trans e)

/-! ## 7. The law holds -/

omit [DecidableEq κ] in
theorem OutcomeInv.law : SingleOutcome calls s := by
  have hwriter : ∀ k, (s.pc k).won = true → (calls k).outcome ≠ none := by
    intro k hw
    have hp := h.places k
    generalize s.pc k = pc at hw hp
    cases pc with
    | stamp => rw [hp.1]; exact some_ne_none _
    | wake => exact fun e => by have hst := hp.1; rw [e] at hst; cases hst
    | returned b =>
      cases b with
      | true => exact fun e => by have hst := hp.1; rw [e] at hst; cases hst
      | false => cases hw
    | _ => cases hw
  refine ⟨fun k k' hk hk' => h.unique k k' (by rw [hk]; rfl) (by rw [hk']; rfl), ?_, ?_, ?_⟩
  · rintro hall ⟨k, hk⟩
    obtain ⟨b, hb⟩ := hall k hk
    cases b with
    | true => exact ⟨k, hb⟩
    | false =>
      have hdone := h.places k
      rw [hb] at hdone
      obtain ⟨k', hw⟩ := h.taken hdone
      obtain ⟨b', hb'⟩ := hall k' (hwriter k' hw)
      cases b' with
      | true => exact ⟨k', hb'⟩
      | false => rw [hb'] at hw; cases hw
  · intro _ k hk
    have hp := h.places k
    rw [hk] at hp
    have hres := h.written k hp.2.2
    obtain ⟨o, ho⟩ := ne_none_iff_exists'.mp (hwriter k (by rw [hk]; rfl))
    have hst := hp.1
    rw [ho] at hst hres ⊢
    exact congrArg some (Prod.ext (Option.some.inj hst) (Option.some.inj hres))
  · intro k result hk
    have hp := h.places k
    rw [hk] at hp
    exact hp

end

/-- **In every run of steps that keep it, the request has a single outcome**, whatever the calls
    and their number. -/
theorem singleOutcome {κ : Type} [DecidableEq κ] (calls : κ → Call ε) {s : Calls ε κ}
    (h : (requests calls).Reach (KeepsOutcome calls) s) : SingleOutcome calls s :=
  (h.invariant (fun _ => OutcomeInv.start) fun _ _ _ hi hk => hi.step hk).law

/-- A `complete()`, a `cancel()` and a `poll()`. -/
def oneOfEach : Fin 3 → Call Empty
  | 0 => .complete (.success 3)
  | 1 => .cancel
  | 2 => .poll

/-- The pending request before any call. -/
def pendingRequest (κ : Type) : Calls Empty κ := ⟨{ state := .pending }, fun _ => .start, [], none⟩

theorem pendingRequest_start (calls : κ → Call Empty) :
    (requests calls).start (pendingRequest κ) := ⟨rfl, fun _ => rfl, rfl⟩

theorem oneOfEach_unstamped : ∀ k : Fin 3, ((requests oneOfEach).exec (pendingRequest (Fin 3))
    [0, 0, 0, 0, 1, 2]).pc k ≠ .stamp := by decide

/-- `complete()` runs through, the others come after it. -/
theorem singleOutcome_oneOfEach :
    SingleOutcome oneOfEach
      ((requests oneOfEach).exec (pendingRequest (Fin 3)) [0, 0, 0, 0, 1, 2, 2]) :=
  singleOutcome oneOfEach
    (Machine.Reach.exec (.start (pendingRequest_start oneOfEach))
      ⟨trivial, rfl, fun _ => rfl, trivial, trivial, trivial, oneOfEach_unstamped, trivial⟩)

/-- Two `complete()` with different results. -/
def twoCompletes : Fin 2 → Call Empty
  | 0 => .complete (.success 1)
  | 1 => .complete (.success 2)

/-- **Not every interleaving has a single outcome**: both calls write before either swaps, and the
    one that wins has lost its result to the other. -/
theorem singleOutcome_refuted :
    ¬ ∀ (calls : Fin 2 → Call Empty) (s : Calls Empty (Fin 2)),
      (requests calls).Reachable s → SingleOutcome calls s := by
  intro h
  have hlaw := h twoCompletes _ (Machine.Reachable.exec
    (.start (pendingRequest_start twoCompletes)) [0, 0, 1, 1, 0, 0, 1, 1])
  have hall : ∀ k : Fin 2, ∃ b, ((requests twoCompletes).exec (pendingRequest (Fin 2))
      [0, 0, 1, 1, 0, 0, 1, 1]).pc k = .returned b := by
    intro k
    match k with
    | 0 => exact ⟨true, rfl⟩
    | 1 => exact ⟨false, rfl⟩
  have hfinal := hlaw.final (fun k _ => hall k) 0 rfl
  exact absurd (Prod.mk.inj (Option.some.inj hfinal)).2 (by decide)

end Zigk.Io
