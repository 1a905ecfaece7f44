/-
  Subject:   NO LOST WAKEUP: an `unblock(t)` after `t` last returned from `block()` makes `t`'s
             current or next `block()` return.

  * `WakeupHistory` -- which threads are inside `block()`, and which are owed a return;
  * `NoLostWakeup` -- a thread that is owed a return waits for a CPU only, if it is inside
    `block()`; otherwise its `pending_wakeup` is set, and its next `block()` returns at once;
  * `KeepsWakeups` -- where a step keeps it: `unblock(t)` finds `t` running, or inside `block()`, or
    with a wakeup pending already; a thread inside `block()` that is owed a return is not stopped;
    and no thread calls or is made ready that stands in a ready queue;
  * **`noLostWakeup`** -- in every run of such steps.
-/
import Zigk.Proc.SchedQueues

namespace Zigk.Sched

open Function Bool Scheduler

/-! ## 1. The history -/

structure WakeupHistory where
  inBlock : ThreadId → Bool := fun _ => false
  owed : ThreadId → Bool := fun _ => false

namespace WakeupHistory

/-- `unblock(t)` was executed. -/
def owe (h : WakeupHistory) (t : ThreadId) : WakeupHistory :=
  { h with owed := update h.owed t true }

def enter (h : WakeupHistory) (t : ThreadId) : WakeupHistory :=
  { h with inBlock := update h.inBlock t true }

/-- A call of `block()` has returned. -/
def leave (h : WakeupHistory) (t : ThreadId) : WakeupHistory :=
  { inBlock := update h.inBlock t false, owed := update h.owed t false }

/-- The thread runs on: if it was inside `block()`, the call has returned. -/
def goOn (h : WakeupHistory) (t : ThreadId) : WakeupHistory := if h.inBlock t then h.leave t else h

end WakeupHistory

def noteWakeups (h : WakeupHistory) (s : Scheduler) (i : CpuId × Op) : WakeupHistory :=
  match s.pc i.1, i.2 with
  | .running, .block =>
    match s.current i.1 with
    | some t =>
      if t = s.idle i.1 then h
      else if (s.threads t).pendingWakeup then h.leave t else h.enter t
    | none => h
  | .running, .exit =>
    match s.current i.1 with
    | some t => if t = s.idle i.1 then h else h.leave t
    | none => h
  | .running, .unblock t => if s.state t = .Zombie then h else h.owe t
  | .running, .expireAlarm t => if s.state t = .Blocked then h.owe t else h
  | .running, .interrupt =>
    match s.current i.1 with
    | some t => h.goOn t
    | none => h
  | .switching, .takeNext free =>
    match (s.removeFromReadyQueue i.1 free).2 with
    | some t => if (s.threads t).stopped then h else h.goOn t
    | none => h
  | _, _ => h

def waking : Machine (Scheduler × WakeupHistory) (CpuId × Op) := scheduler.track {} noteWakeups

/-! ## 2. The law -/

/-- `t` is linked in a ready queue. -/
def Scheduler.Queued (s : Scheduler) (t : ThreadId) : Prop := ∃ c, (s.ready.links c).Reaches t

structure NoLostWakeup (w : Scheduler × WakeupHistory) : Prop where
  /-- The current call returns as soon as a CPU takes the thread. -/
  current : ∀ t, w.2.owed t = true → w.2.inBlock t = true → w.1.state t = .Ready ∧ w.1.Queued t
  /-- The next call returns at once. -/
  next : ∀ t, w.2.owed t = true → w.2.inBlock t = false → (w.1.threads t).pendingWakeup = true

/-- A call of `block()` that finds a wakeup pending does not block. -/
theorem block_pending {s : Scheduler} {t : ThreadId} (h : (s.threads t).pendingWakeup = true) :
    (s.block t).state = s.state := by
  unfold block
  rw [if_pos h, state_mapThread]
  exact update_eq_self _ _

/-- `unblock(t)` is heard: `t` runs, is inside `block()`, has a wakeup pending, or has exited. -/
def Heard (w : Scheduler × WakeupHistory) (t : ThreadId) : Prop :=
  w.1.state t = .Running ∨ w.2.inBlock t = true ∨ (w.1.threads t).pendingWakeup = true ∨
    w.1.state t = .Zombie

/-- The caller of a blocking call stands in no ready queue. -/
def CallerNotReady (s : Scheduler) (c : CpuId) : Prop :=
  ∀ t, s.current c = some t → s.state t ≠ .Ready

/-- **A step that keeps the wakeups.** -/
def KeepsWakeups (w : Scheduler × WakeupHistory) (i : CpuId × Op) : Prop :=
  match i.2 with
  | .block | .sleepForTicks _ | .waitOn _ | .waitOnWithTimeout _ _ _ | .exit =>
    CallerNotReady w.1 i.1
  | .unblock t => Heard w t
  | .expireAlarm t => w.1.state t = .Blocked → Heard w t
  | .readyPopped => ∀ t, w.1.pc i.1 = .waking t → w.1.state t = .Blocked
  | .takeNext free =>
    ∀ t, (w.1.removeFromReadyQueue i.1 free).2 = some t → (w.1.threads t).stopped = true →
      w.2.inBlock t = true → w.2.owed t = false
  | _ => True

/-! ## 3. What a step does to the ready queues -/

/-- The ready queues hold exactly the ready threads, and the idle threads always run. -/
structure ReadyInv (s : Scheduler) (R : CpuId → List ThreadId) : Prop where
  ready : s.ready.Reads R
  readies : ∀ t, (∃ c, t ∈ R c) ↔ s.state t = .Ready
  idle : ∀ c, s.state (s.idle c) = .Running
  distinct : ∀ {c d}, s.idle c = s.idle d → c = d
  home : ∀ {c d}, s.current c = some (s.idle d) → c = d

variable {s s₁ s' : Scheduler} {R : CpuId → List ThreadId} {t : ThreadId} {c : CpuId}

theorem ReadyInv.queued_iff (h : ReadyInv s R) : s.Queued t ↔ s.state t = .Ready := by
  rw [← h.readies]
  exact exists_congr fun c => Links.linked_reaches_iff (h.ready.linked c)

theorem ReadyInv.not_mem (h : ReadyInv s R) (ht : s.state t ≠ .Ready) (c : CpuId) : t ∉ R c :=
  fun hm => ht ((h.readies t).mp ⟨c, hm⟩)

theorem ReadyInv.not_idle (h : ReadyInv s R) (ht : s.state t ≠ .Running) (c : CpuId) :
    t ≠ s.idle c := fun e => ht (e ▸ h.idle c)

theorem ReadyInv.caller (h : ReadyInv s R) (hc : s.current c = some t) (hne : t ≠ s.idle c)
    (d : CpuId) : t ≠ s.idle d := fun e =>
  hne (e.trans (congrArg s.idle (h.home (by rw [hc, e]) : c = d).symm))

/-- What is not the states and the ready queues: no CPU gets another thread, no wakeup that is
    pending is taken away. -/
structure Frame (s s' : Scheduler) : Prop where
  idle : s'.idle = s.idle
  current : ∀ c t, s'.current c = some t → s.current c = some t
  pending : ∀ t, (s.threads t).pendingWakeup = true → (s'.threads t).pendingWakeup = true

theorem Frame.refl (s : Scheduler) : Frame s s := ⟨rfl, fun _ _ => id, fun _ => id⟩

theorem Frame.trans (h : Frame s s₁) (h' : Frame s₁ s') : Frame s s' :=
  ⟨h'.idle.trans h.idle, fun c t => h.current c t ∘ h'.current c t,
    fun t => h'.pending t ∘ h.pending t⟩

/-- One thread is edited. -/
theorem Frame.edit {v : Thread} (hth : s'.threads = update s.threads t v)
    (hv : (s.threads t).pendingWakeup = true → v.pendingWakeup = true) (hidle : s'.idle = s.idle)
    (hcur : s'.current = s.current) : Frame s s' := by
  refine ⟨hidle, fun _ _ h => hcur ▸ h, fun u hu => ?_⟩
  rw [hth]
  by_cases e : u = t
  · rw [e, update_self]
    exact hv (e ▸ hu)
  · rwa [update_of_ne e]

theorem pending_mapThread (s : Scheduler) (t : ThreadId) (f : Thread → Thread)
    (hf : ∀ th : Thread, th.pendingWakeup = true → (f th).pendingWakeup = true) (u : ThreadId)
    (hu : (s.threads u).pendingWakeup = true) :
    ((s.mapThread t f).threads u).pendingWakeup = true :=
  (Frame.edit (t := t) rfl (hf _) rfl rfl : Frame s (s.mapThread t f)).pending u hu

theorem Frame.addToReadyQueue (s : Scheduler) (c : CpuId) (t : ThreadId) :
    Frame s (s.addToReadyQueue c t) := .edit (t := t) rfl id rfl rfl

theorem Frame.removeFromSleepList (s : Scheduler) (t : ThreadId) :
    Frame s (s.removeFromSleepList t) := .edit (t := t) rfl id rfl rfl

theorem state_of_threads {v : Thread} (hth : s'.threads = update s.threads t v) :
    s'.state = update s.state t v.state := by
  funext u
  unfold state
  rw [hth]
  by_cases e : u = t
  · rw [e, update_self, update_self]
  · rw [update_of_ne e, update_of_ne e]

/-- Another thread state, none of them `Ready`. -/
theorem ReadyInv.restate (h : ReadyInv s R) {v : ThreadState} (ht : s.state t ≠ .Ready)
    (hv : v ≠ .Ready) (hidle : ∀ c, t ≠ s.idle c) (hst : s'.state = update s.state t v)
    (hr : s'.ready = s.ready) (hf : Frame s s') : ReadyInv s' R := by
  refine ⟨hr ▸ h.ready, fun u => ?_, fun c => ?_, fun e => h.distinct (by rwa [hf.idle] at e),
    fun e => h.home (hf.current _ _ (by rwa [hf.idle] at e))⟩
  · rw [hst]
    by_cases e : u = t
    · rw [e, update_self]
      exact ⟨fun hu => absurd ((h.readies t).mp hu) ht, fun hu => absurd hu hv⟩
    · rw [update_of_ne e]
      exact h.readies u
  · rw [hst, hf.idle, update_of_ne (Ne.symm (hidle c))]
    exact h.idle c

/-- A thread becomes ready. -/
theorem ReadyInv.readied (h : ReadyInv s R) {k : CpuId} (ht : s.state t ≠ .Ready)
    (hidle : ∀ c, t ≠ s.idle c) (hst : s'.state = update s.state t .Ready)
    (hr : s'.ready = s.ready.append k t) (hf : Frame s s') :
    ReadyInv s' (update R k (R k ++ [t])) := by
  refine ⟨hr ▸ h.ready.append (q := k) (h.not_mem ht), fun u => ?_, fun c => ?_,
    fun e => h.distinct (by rwa [hf.idle] at e),
    fun e => h.home (hf.current _ _ (by rwa [hf.idle] at e))⟩
  · rw [hst]
    by_cases e : u = t
    · rw [e, update_self]
      exact ⟨fun _ => rfl, fun _ => ⟨k, by rw [update_self]; simp⟩⟩
    rw [update_of_ne e, ← h.readies u]
    refine exists_congr fun d => ?_
    by_cases ed : d = k
    · rw [ed, update_self, List.mem_append, List.mem_singleton]
      exact or_iff_left e
    · rw [update_of_ne ed]
  · rw [hst, hf.idle, update_of_ne (Ne.symm (hidle c))]
    exact h.idle c

/-! ## 4. What a step does to the states -/

/-- **What a step other than a switch and an exit does**: the states and the ready queues stay, or
    one thread blocks, or one becomes ready. -/
inductive Moves (s s' : Scheduler) : Prop where
  | same (hst : s'.state = s.state) (hr : s'.ready = s.ready)
  | blocks (t : ThreadId) (ht : s.state t ≠ .Ready) (hidle : ∀ c, t ≠ s.idle c)
      (hst : s'.state = update s.state t .Blocked) (hr : s'.ready = s.ready)
  | readied (t : ThreadId) (c : CpuId) (ht : s.state t ≠ .Ready) (hidle : ∀ c, t ≠ s.idle c)
      (hst : s'.state = update s.state t .Ready) (hr : s'.ready = s.ready.append c t)

structure Moved (s s' : Scheduler) : Prop extends Frame s s' where
  moves : Moves s s'

theorem Moved.refl (s : Scheduler) : Moved s s := ⟨.refl s, .same rfl rfl⟩

/-- An edit of fields that are no state comes first. -/
theorem Moved.after (hf : Frame s s₁) (hst : s₁.state = s.state) (hr : s₁.ready = s.ready)
    (h : Moved s₁ s') : Moved s s' := by
  refine ⟨hf.trans h.toFrame, ?_⟩
  cases h.moves with
  | same hst' hr' => exact .same (hst'.trans hst) (hr'.trans hr)
  | blocks t ht hidle hst' hr' =>
    exact .blocks t (hst ▸ ht) (hf.idle ▸ hidle) (hst ▸ hst') (hr'.trans hr)
  | readied t c ht hidle hst' hr' =>
    exact .readied t c (hst ▸ ht) (hf.idle ▸ hidle) (hst ▸ hst') (hr ▸ hr')

theorem Moved.edit {v : Thread} (hth : s'.threads = update s.threads t v)
    (hv : (s.threads t).pendingWakeup = true → v.pendingWakeup = true)
    (hst : v.state = s.state t) (hidle : s'.idle = s.idle) (hcur : s'.current = s.current)
    (hr : s'.ready = s.ready) : Moved s s' := by
  refine ⟨.edit hth hv hidle hcur, .same ?_ hr⟩
  rw [state_of_threads hth, hst]
  exact update_eq_self _ _

/-- An edit of fields that are no state follows. -/
theorem Moved.edit_after (h : Moved s s₁) {v : Thread}
    (hth : s'.threads = update s₁.threads t v) (hst : v.state = s₁.state t)
    (hv : (s₁.threads t).pendingWakeup = true → v.pendingWakeup = true) (hidle : s'.idle = s₁.idle)
    (hcur : s'.current = s₁.current) (hr : s'.ready = s₁.ready) : Moved s s' := by
  have hst' : s'.state = s₁.state := by
    rw [state_of_threads hth, hst]
    exact update_eq_self _ _
  refine ⟨h.toFrame.trans (.edit hth hv hidle hcur), ?_⟩
  cases h.moves with
  | same hst hr₁ => exact .same (hst'.trans hst) (hr.trans hr₁)
  | blocks t ht hid hst hr₁ => exact .blocks t ht hid (hst'.trans hst) (hr.trans hr₁)
  | readied t c ht hid hst hr₁ => exact .readied t c ht hid (hst'.trans hst) (hr.trans hr₁)

section

variable (ht : s.state t ≠ .Ready) (hidle : ∀ c, t ≠ s.idle c)
include ht hidle

theorem Moved.addToReadyQueue (c : CpuId) : Moved s (s.addToReadyQueue c t) :=
  ⟨.addToReadyQueue s c t, .readied t _ ht hidle (state_addToReadyQueue s t c) rfl⟩

/-- A thread blocks. -/
theorem Moved.blocks {v : Thread}
    (hth : s'.threads = update s.threads t v) (hst : v.state = .Blocked)
    (hv : (s.threads t).pendingWakeup = true → v.pendingWakeup = true) (hid : s'.idle = s.idle)
    (hcur : s'.current = s.current) (hr : s'.ready = s.ready) : Moved s s' :=
  ⟨.edit hth hv hid hcur, .blocks t ht hidle (by rw [state_of_threads hth, hst]) hr⟩

theorem Moved.block
    (hp : (s.threads t).pendingWakeup = false) : Moved s (s.block t) := by
  have hst := state_removeFromSleepList s t
  unfold Scheduler.block
  rw [if_neg (by rw [hp]; decide)]
  refine .after (.removeFromSleepList s t) hst rfl (.blocks (t := t) ?_ hidle rfl ?_ ?_ rfl rfl rfl)
  · rwa [hst]
  · rfl
  · exact id

theorem Moved.sleepForTicks (ticks : Nat) :
    Moved s (s.sleepForTicks ticks t) := by
  have hst := state_removeFromSleepList s t
  unfold Scheduler.sleepForTicks
  split
  · exact .refl s
  refine .after (.removeFromSleepList s t) hst rfl (.blocks (t := t) ?_ hidle rfl ?_ ?_ rfl rfl rfl)
  · rwa [hst]
  · rfl
  · exact id

theorem Moved.waitOn (q : QueueId) : Moved s (s.waitOn q t) :=
  .blocks (s := s) ht hidle rfl rfl id rfl rfl rfl

theorem Moved.waitOnWithTimeout (q : QueueId) (ticks : Nat) (bucket : Option (Fin BUCKET_COUNT)) :
    Moved s (s.waitOnWithTimeout q ticks bucket t) := by
  unfold Scheduler.waitOnWithTimeout
  simp only
  split
  · refine (Moved.waitOn ht hidle q).edit_after (t := t) rfl ?_ ?_ rfl rfl rfl
    · rfl
    · exact id
  · refine (Moved.waitOn ht hidle q).edit_after (t := t) rfl ?_ ?_ rfl rfl rfl
    · rfl
    · exact id

end

theorem Moved.unblock (h : ReadyInv s R) (c : CpuId) (t : ThreadId) : Moved s (s.unblock c t) := by
  have hst := state_removeFromSleepList s t
  unfold Scheduler.unblock
  split
  · rename_i hb
    refine .after (.removeFromSleepList s t) hst rfl (.addToReadyQueue ?_ ?_ c)
    · rw [hst, hb]
      decide
    · exact h.not_idle (by rw [hb]; decide)
  · split
    · exact .edit (t := t) rfl (fun _ => rfl) rfl rfl rfl rfl
    · exact .refl s

theorem Moved.cancelTimeoutAndWake (h : ReadyInv s R) (c : CpuId) (t : ThreadId) :
    Moved s (s.cancelTimeoutAndWake c t) := by
  unfold Scheduler.cancelTimeoutAndWake
  split
  · exact .refl s
  rename_i hb
  have hb : s.state t = .Blocked := not_not.mp hb
  have hni := h.not_idle (by rw [hb]; decide)
  have hwake : ∀ s₁ : Scheduler, s₁.state = s.state → s₁.ready = s.ready → Frame s s₁ →
      Moved s ((s₁.mapThread t fun th =>
        { th with futexBucket := none, futexWakeupReason := .woken }).addToReadyQueue c t) := by
    intro s₁ hst hr hf
    have hedit : Moved s₁ (s₁.mapThread t fun th =>
        { th with futexBucket := none, futexWakeupReason := .woken }) :=
      .edit (t := t) rfl id rfl rfl rfl rfl
    have hst₁ := (state_mapThread s₁ t fun th =>
      { th with futexBucket := none, futexWakeupReason := .woken }).trans
        ((update_eq_self t s₁.state).trans hst)
    exact .after (hf.trans hedit.toFrame) hst₁ hr
      (.addToReadyQueue (by rw [hst₁, hb]; decide) (hf.idle ▸ hni) c)
  by_cases hw : (s.threads t).wakeTime ≠ 0
  · rw [if_pos hw]
    exact hwake _ (state_removeFromSleepList s t) rfl (.removeFromSleepList s t)
  · rw [if_neg hw]
    exact hwake s rfl rfl (.refl s)

theorem Moved.readySleeper (hidle : s.state t = .Blocked → ∀ c, t ≠ s.idle c) (c : CpuId) :
    Moved s (s.readySleeper c t) := by
  unfold Scheduler.readySleeper
  split
  · rename_i hb
    exact .addToReadyQueue (by rw [hb]; decide) (hidle hb) c
  · exact .refl s

theorem Moved.removeThread (s : Scheduler) (q : QueueId) (t : ThreadId) :
    Moved s (s.removeThread q t).1 := by
  unfold Scheduler.removeThread
  split
  · exact ⟨⟨rfl, fun _ _ => id, fun _ => id⟩, .same rfl rfl⟩
  · exact .refl s

theorem Moved.pop (s : Scheduler) (q : QueueId) : Moved s (s.pop q).1 := by
  unfold Scheduler.pop
  split
  exact ⟨⟨rfl, fun _ _ => id, fun _ => id⟩, .same rfl rfl⟩

theorem Moved.wakeSleeper (h : ReadyInv s R) (c : CpuId) (now : Nat) (free : Bool) :
    Moved s (s.wakeSleeper c now free) := by
  unfold Scheduler.wakeSleeper
  cases hl : s.sleepList with
  | nil => exact .refl s
  | cons t l =>
    simp only
    split
    · exact .refl s
    have hst := state_removeFromSleepList s t
    have hni : s.state t = .Blocked → ∀ d, t ≠ s.idle d := fun hb =>
      h.not_idle (by rw [hb]; decide)
    refine .after (.removeFromSleepList s t) hst rfl ?_
    split
    · refine .readySleeper (fun hb => ?_) c
      rw [hst] at hb
      exact hni hb
    rename_i b _
    split
    · have hrem := Moved.removeThread (s.removeFromSleepList t) (.futex b) t
      have hrst : ((s.removeFromSleepList t).removeThread (.futex b) t).1.state = s.state := by
        unfold Scheduler.removeThread
        split
        · exact hst
        · exact hst
      have hrr : ((s.removeFromSleepList t).removeThread (.futex b) t).1.ready = s.ready := by
        unfold Scheduler.removeThread
        split <;> rfl
      generalize ((s.removeFromSleepList t).removeThread (.futex b) t).1 = s₂ at hrem hrst hrr
      have hfr : Frame s₂ (s₂.mapThread t fun th =>
          { th with futexWakeupReason := .timeout, futexBucket := none }) :=
        .edit (t := t) rfl id rfl rfl
      have hmap : (s₂.mapThread t fun th =>
          { th with futexWakeupReason := .timeout, futexBucket := none }).state = s.state := by
        rw [state_mapThread, ← hrst]
        exact update_eq_self _ _
      refine .after hrem.toFrame (hrst.trans hst.symm) hrr (.after hfr (hmap.trans hrst.symm) rfl ?_)
      refine .readySleeper (fun hb d => ?_) c
      rw [hmap] at hb
      exact fun e => hni hb d (e.trans (congrFun hrem.idle d))
    · refine .edit (t := t) rfl ?_ ?_ rfl rfl rfl
      · exact id
      · rfl

/-! ## 5. The invariant -/

structure WakeInv (s : Scheduler) (h : WakeupHistory) : Prop where
  ready : ∃ R, ReadyInv s R
  /-- A thread inside `block()` has not been taken by a CPU yet. -/
  inside : ∀ t, h.inBlock t = true → s.state t = .Blocked ∨ s.state t = .Ready
  current : ∀ t, h.owed t = true → h.inBlock t = true → s.state t = .Ready
  next : ∀ t, h.owed t = true → h.inBlock t = false → (s.threads t).pendingWakeup = true

variable {h : WakeupHistory}

theorem WakeInv.wakes (hw : WakeInv s h) : NoLostWakeup (s, h) := by
  obtain ⟨R, hR⟩ := hw.ready
  exact ⟨fun t ho hb => ⟨hw.current t ho hb, hR.queued_iff.mpr (hw.current t ho hb)⟩, hw.next⟩

theorem WakeInv.moved (hw : WakeInv s h) (hm : Moved s s') : WakeInv s' h := by
  obtain ⟨R, hR⟩ := hw.ready
  have hnext : ∀ t, h.owed t = true → h.inBlock t = false → (s'.threads t).pendingWakeup = true :=
    fun t ho hb => hm.pending t (hw.next t ho hb)
  cases hm.moves with
  | same hst hr =>
    have hR' : ReadyInv s' R := by
      refine ⟨hr ▸ hR.ready, fun u => hst ▸ hR.readies u, fun c => ?_,
        fun e => hR.distinct (by rwa [hm.idle] at e),
        fun e => hR.home (hm.toFrame.current _ _ (by rwa [hm.idle] at e))⟩
      rw [hst, hm.idle]
      exact hR.idle c
    exact ⟨⟨R, hR'⟩, fun t hb => hst ▸ hw.inside t hb, fun t ho hb => hst ▸ hw.current t ho hb, hnext⟩
  | blocks t ht hidle hst hr =>
    refine ⟨⟨R, hR.restate ht (by decide) hidle hst hr hm.toFrame⟩, fun u hb => ?_,
      fun u ho hb => ?_, hnext⟩
    · rw [hst]
      by_cases e : u = t
      · rw [e, update_self]
        exact .inl rfl
      · rw [update_of_ne e]
        exact hw.inside u hb
    have hu := hw.current u ho hb
    have hne : u ≠ t := by
      rintro rfl
      exact ht hu
    rw [hst, update_of_ne hne]
    exact hu
  | readied t c ht hidle hst hr =>
    refine ⟨⟨_, hR.readied ht hidle hst hr hm.toFrame⟩, fun u hb => ?_, fun u ho hb => ?_, hnext⟩
    · rw [hst]
      by_cases e : u = t
      · rw [e, update_self]
        exact .inr rfl
      · rw [update_of_ne e]
        exact hw.inside u hb
    have hu := hw.current u ho hb
    have hne : u ≠ t := by
      rintro rfl
      exact ht hu
    rw [hst, update_of_ne hne]
    exact hu

theorem WakeInv.pc (hw : WakeInv s h) (f : CpuId → CpuPc) : WakeInv { s with pc := f } h :=
  hw.moved ⟨⟨rfl, fun _ _ => id, fun _ => id⟩, .same rfl rfl⟩

/-- A call of `block()` has returned. -/
theorem WakeInv.leave (hw : WakeInv s h) (t : ThreadId) : WakeInv s (h.leave t) := by
  have hself : (h.leave t).inBlock t = false ∧ (h.leave t).owed t = false :=
    ⟨update_self _ _ _, update_self _ _ _⟩
  have hin : ∀ u, (h.leave t).inBlock u = true → h.inBlock u = true := by
    intro u hu
    by_cases e : u = t
    · rw [e, hself.1] at hu
      cases hu
    · exact (update_of_ne e _ _).symm.trans hu
  have howed : ∀ u, (h.leave t).owed u = true → u ≠ t ∧ h.owed u = true := by
    intro u hu
    by_cases e : u = t
    · rw [e, hself.2] at hu
      cases hu
    · exact ⟨e, (update_of_ne e _ _).symm.trans hu⟩
  refine ⟨hw.ready, fun u hb => hw.inside u (hin u hb),
    fun u ho hb => hw.current u (howed u ho).2 (hin u hb), fun u ho hb => ?_⟩
  obtain ⟨hne, ho⟩ := howed u ho
  exact hw.next u ho ((update_of_ne hne _ _).symm.trans hb)

theorem goOn_inBlock (h : WakeupHistory) (t : ThreadId) : (h.goOn t).inBlock t = false := by
  unfold WakeupHistory.goOn
  split
  · exact update_self _ _ _
  · exact eq_false_iff.mpr ‹_›

theorem WakeInv.goOn (hw : WakeInv s h) (t : ThreadId) : WakeInv s (h.goOn t) := by
  unfold WakeupHistory.goOn
  split
  · exact hw.leave t
  · exact hw

/-- The thread has blocked, and no return is owed to it. -/
theorem WakeInv.enter (hw : WakeInv s h) (hb : s.state t = .Blocked)
    (hp : (s.threads t).pendingWakeup = false) : WakeInv s (h.enter t) := by
  have hnot : h.owed t = false := by
    cases ho : h.owed t with
    | false => rfl
    | true =>
      cases hin : h.inBlock t with
      | false => rw [hw.next t ho hin] at hp; cases hp
      | true => rw [hw.current t ho hin] at hb; cases hb
  have hself : (h.enter t).inBlock t = true := update_self _ _ _
  refine ⟨hw.ready, fun u hu => ?_, fun u ho hu => ?_, fun u ho hu => ?_⟩
  · by_cases e : u = t
    · exact .inl (e ▸ hb)
    · exact hw.inside u ((update_of_ne e _ _).symm.trans hu)
  · have e : u ≠ t := fun e => by
      rw [e] at ho
      exact false_ne_true (hnot.symm.trans ho)
    exact hw.current u ho ((update_of_ne e _ _).symm.trans hu)
  · have e : u ≠ t := fun e => by
      rw [e, hself] at hu
      cases hu
    exact hw.next u ho ((update_of_ne e _ _).symm.trans hu)

/-- `unblock(t)` has done what it owes. -/
theorem WakeInv.owe (hw : WakeInv s h) (hin : h.inBlock t = true → s.state t = .Ready)
    (hout : h.inBlock t = false → (s.threads t).pendingWakeup = true) : WakeInv s (h.owe t) := by
  refine ⟨hw.ready, hw.inside, fun u ho hb => ?_, fun u ho hb => ?_⟩
  · by_cases e : u = t
    · exact e ▸ hin (e ▸ hb)
    · exact hw.current u ((update_of_ne e _ _).symm.trans ho) hb
  · by_cases e : u = t
    · exact e ▸ hout (e ▸ hb)
    · exact hw.next u ((update_of_ne e _ _).symm.trans ho) hb

/-! ## 6. Exit and switch -/

/-- A thread that has left `block()` exits. -/
theorem WakeInv.exit (hw : WakeInv s h) (ht : s.state t ≠ .Ready) (hidle : ∀ d, t ≠ s.idle d)
    (hin : h.inBlock t = false) (c : CpuId) : WakeInv (s.exit c t) h := by
  obtain ⟨R, hR⟩ := hw.ready
  have hst : ({ s.setState t .Zombie with current := update s.current c none } :
      Scheduler).state = update s.state t .Zombie := state_setState s t .Zombie
  have hframe : Frame s { s.setState t .Zombie with
      current := update s.current c none } := by
    refine ⟨rfl, fun d u hu => ?_, pending_mapThread s t (fun th =>
      { th with state := .Zombie }) fun _ => id⟩
    by_cases e : d = c
    · rw [e] at hu
      cases (update_self (f := s.current) c none).symm.trans hu
    · exact (update_of_ne e _ _).symm.trans hu
  have hleft : WakeInv { s.setState t .Zombie with
      current := update s.current c none } h := by
    have hne : ∀ u, h.inBlock u = true → u ≠ t := by
      rintro u hu rfl
      rw [hin] at hu
      cases hu
    refine ⟨⟨R, hR.restate ht (by decide) hidle hst rfl hframe⟩, fun u hb => ?_, fun u ho hb => ?_,
      fun u ho hb => hframe.pending u (hw.next u ho hb)⟩
    · rw [hst, update_of_ne (hne u hb)]
      exact hw.inside u hb
    · rw [hst, update_of_ne (hne u hb)]
      exact hw.current u ho hb
  unfold Scheduler.exit
  simp only
  cases hp : ((s.setState t .Zombie).threads t).parent with
  | none => exact hleft
  | some parent =>
    simp only
    split
    · rename_i hb
      obtain ⟨R', hR'⟩ := hleft.ready
      refine hleft.moved (.addToReadyQueue (fun e => ?_) (hR'.not_idle fun e => ?_) c)
      · cases hb.symm.trans e
      · cases hb.symm.trans e
    · split
      · exact hleft.moved (.edit (t := parent) rfl (fun _ => rfl) rfl rfl rfl rfl)
      · exact hleft

/-- The ready queues and the threads in them after a thread was taken and restated. -/
theorem ReadyInv.taken (hR : ReadyInv s R) {m : Queues CpuId ThreadId} {R' : CpuId → List ThreadId}
    (ht : Taken R m (some t) R') {v : ThreadState} (hv : v ≠ .Ready)
    (hst : s'.state = update s.state t v) (hr : s'.ready = m) (hid : s'.idle = s.idle)
    (hcur : ∀ d u, s'.current d = some u → s.current d = some u ∨ u = t) : ReadyInv s' R' := by
  obtain ⟨d, hd⟩ := ht.found t rfl
  have hready := (hR.readies t).mp ⟨d, hd⟩
  have hni := hR.not_idle (t := t) (by rw [hready]; decide)
  refine ⟨hr ▸ ht.reads, fun u => ?_, fun c => ?_, fun e => hR.distinct (by rwa [hid] at e),
    fun {c e} hce => ?_⟩
  · rw [ht.mem, hR.readies, hst]
    by_cases e : u = t
    · rw [e, update_self]
      exact ⟨fun hu => absurd rfl hu.2, fun hu => absurd hu hv⟩
    · rw [update_of_ne e]
      exact ⟨And.left, fun hu => ⟨hu, fun he => e (Option.some.inj he).symm⟩⟩
  · rw [hst, hid, update_of_ne (Ne.symm (hni c))]
    exact hR.idle c
  · rw [hid] at hce
    rcases hcur c _ hce with hc | he
    · exact hR.home hc
    · exact absurd he.symm (hni e)

theorem state_switchTo (s : Scheduler) (c : CpuId) (t : ThreadId) :
    (s.switchTo c t).state = update s.state t .Running :=
  state_mapThread s t fun th => { th with lastCpu := c, state := .Running }

theorem current_switchTo {u : ThreadId} {d : CpuId} (hu : (s.switchTo c t).current d = some u) :
    d = c ∧ u = t ∨ s.current d = some u := by
  by_cases e : d = c
  · have hself : (s.switchTo c t).current c = some t := update_self _ _ _
    rw [e, hself] at hu
    exact .inl ⟨e, (Option.some.inj hu).symm⟩
  · exact .inr ((update_of_ne e _ _).symm.trans hu)

/-- **The switch.** The thread that is taken runs, or it is stopped and blocks. -/
theorem WakeInv.takeNext (hw : WakeInv s h) {free : CpuId → Bool}
    (hk : ∀ t, (s.removeFromReadyQueue c free).2 = some t → (s.threads t).stopped = true →
      h.inBlock t = true → h.owed t = false) :
    WakeInv (s.takeNext c free) (match (s.removeFromReadyQueue c free).2 with
      | some t => if (s.threads t).stopped then h else h.goOn t
      | none => h) := by
  obtain ⟨R, hR⟩ := hw.ready
  obtain ⟨R', ht⟩ := taken_removeFromReadyQueue hR.ready c free
  unfold Scheduler.takeNext
  generalize s.removeFromReadyQueue c free = r at ht hk
  obtain ⟨m, o⟩ := r
  cases o with
  | none =>
    have hst : ({ s with ready := m }.switchTo c (s.idle c)).state = s.state := by
      rw [state_switchTo]
      exact update_eq_self_iff.mpr (hR.idle c).symm
    refine ⟨⟨R', ht.reads, fun u => ?_, fun d => ?_, fun {d e} => hR.distinct, fun {d e} hde => ?_⟩,
      fun u hb => hst ▸ hw.inside u hb, fun u ho hb => hst ▸ hw.current u ho hb, fun u ho hb => ?_⟩
    · rw [ht.mem, hR.readies, hst]
      exact and_iff_left (Option.some_ne_none u).symm
    · rw [hst]
      exact hR.idle d
    · rcases current_switchTo hde with ⟨rfl, he⟩ | hde
      · exact (hR.distinct he).symm
      · exact hR.home hde
    · exact pending_mapThread s (s.idle c) (fun th =>
        { th with lastCpu := c, state := .Running }) (fun _ => id) u (hw.next u ho hb)
  | some t =>
    simp only
    by_cases hstop : (s.threads t).stopped = true
    · rw [if_pos hstop, if_pos hstop]
      have hst : ({ s with ready := m }.setState t .Blocked).state =
          update s.state t .Blocked := state_setState { s with ready := m } t .Blocked
      have hpend : ∀ u, (s.threads u).pendingWakeup = true →
          ((s.setState t .Blocked).threads u).pendingWakeup = true :=
        pending_mapThread s t (fun th => { th with state := .Blocked }) fun _ => id
      refine ⟨⟨R', hR.taken ht (by decide) hst rfl rfl fun _ _ => .inl⟩, fun u hb => ?_,
        fun u ho hb => ?_, fun u ho hb => hpend u (hw.next u ho hb)⟩
      · rw [hst]
        by_cases e : u = t
        · rw [e, update_self]
          exact .inl rfl
        · rw [update_of_ne e]
          exact hw.inside u hb
      have hne : u ≠ t := by
        rintro rfl
        rw [hk u rfl hstop hb] at ho
        cases ho
      rw [hst, update_of_ne hne]
      exact hw.current u ho hb
    rw [if_neg hstop, if_neg hstop]
    have hst : ({ s with ready := m }.switchTo c t).state = update s.state t .Running :=
      state_switchTo { s with ready := m } c t
    have hpend : ∀ u, (s.threads u).pendingWakeup = true → ((s.mapThread t fun th =>
        { th with lastCpu := c, state := .Running }).threads u).pendingWakeup = true :=
      pending_mapThread s t _ fun _ => id
    have hg := hw.goOn t
    have hne : ∀ u, (h.goOn t).inBlock u = true → u ≠ t := by
      rintro u hu rfl
      rw [goOn_inBlock] at hu
      cases hu
    refine ⟨⟨R', hR.taken ht (by decide) hst rfl rfl fun d u hu => ?_⟩, fun u hb => ?_,
      fun u ho hb => ?_, fun u ho hb => hpend u (hg.next u ho hb)⟩
    · rcases current_switchTo hu with ⟨-, he⟩ | hu
      · exact .inr he
      · exact .inl hu
    · rw [hst, update_of_ne (hne u hb)]
      exact hg.inside u hb
    · rw [hst, update_of_ne (hne u hb)]
      exact hg.current u ho hb

/-! ## 7. Every run -/

/-- A call of the current thread that is no `block()` and no exit. -/
theorem WakeInv.call (hw : WakeInv s h) {f : ThreadId → Scheduler} (hk : CallerNotReady s c)
    (hf : ∀ t, s.state t ≠ .Ready → (∀ d, t ≠ s.idle d) → Moved s (f t)) :
    WakeInv (callOf s c f) h := by
  obtain ⟨R, hR⟩ := hw.ready
  unfold callOf
  cases hc : s.current c with
  | none => exact hw
  | some t =>
    simp only
    split
    · exact hw
    · exact hw.moved (hf t (hk t hc) (hR.caller hc ‹_›))

theorem WakeInv.callBlock (hw : WakeInv s h) (ht : s.state t ≠ .Ready) (hidle : ∀ d, t ≠ s.idle d) :
    WakeInv (s.block t) (if (s.threads t).pendingWakeup then h.leave t else h.enter t) := by
  cases hp : (s.threads t).pendingWakeup with
  | true =>
    rw [if_pos rfl]
    have hl := hw.leave t
    have hst := block_pending hp
    have hth : (s.block t).threads =
        update s.threads t { s.threads t with pendingWakeup := false } := by
      unfold block
      rw [if_pos hp]
      rfl
    have hrest : (s.block t).ready = s.ready ∧ (s.block t).idle = s.idle ∧
        (s.block t).current = s.current := by
      unfold block
      rw [if_pos hp]
      exact ⟨rfl, rfl, rfl⟩
    obtain ⟨R, hR⟩ := hw.ready
    refine ⟨⟨R, hrest.1 ▸ hR.ready, fun u => hst ▸ hR.readies u, fun d => ?_,
      fun {d e} hde => hR.distinct (by rwa [hrest.2.1] at hde),
      fun {d e} hde => hR.home (by rwa [hrest.2.1, hrest.2.2] at hde)⟩,
      fun u hb => hst ▸ hl.inside u hb, fun u ho hb => hst ▸ hl.current u ho hb, fun u ho hb => ?_⟩
    · rw [hst, hrest.2.1]
      exact hR.idle d
    have hne : u ≠ t := by
      rintro rfl
      have hself : (h.leave u).owed u = false := update_self _ _ _
      rw [hself] at ho
      cases ho
    rw [hth, update_of_ne hne]
    exact hl.next u ho hb
  | false =>
    have hm := Moved.block ht hidle hp
    refine (hw.moved hm).enter ?_ ?_
    · unfold block
      rw [if_neg (by rw [hp]; decide), state_mapThread, update_self]
    unfold block
    rw [if_neg (by rw [hp]; decide)]
    refine (congrArg Thread.pendingWakeup (threads_mapThread_self _ t _)).trans ?_
    exact (congrArg Thread.pendingWakeup (threads_mapThread_self s t
      fun th => { th with wakeTime := 0 })).trans hp

/-- `unblock(t)` makes a blocked thread ready, and leaves a token to a running one. -/
theorem WakeInv.unblock (hw : WakeInv s h) (hk : Heard (s, h) t) (c : CpuId) :
    WakeInv (s.unblock c t) (if s.state t = .Zombie then h else h.owe t) := by
  obtain ⟨R, hR⟩ := hw.ready
  have hm := hw.moved (Moved.unblock hR c t)
  by_cases hz : s.state t = .Zombie
  · rw [if_pos hz]
    exact hm
  rw [if_neg hz]
  refine hm.owe (fun hin => ?_) fun hout => ?_
  · unfold Scheduler.unblock
    rcases hw.inside t hin with hb | hb
    · rw [if_pos hb, state_addToReadyQueue, update_self]
    · rw [if_neg (by rw [hb]; decide), if_neg (by rw [hb]; decide)]
      exact hb
  rcases hk with hr | hin | hp | hz'
  · unfold Scheduler.unblock
    rw [if_neg (by rw [show s.state t = .Running from hr]; decide), if_pos hr]
    exact congrArg Thread.pendingWakeup (update_self t _ s.threads)
  · rw [show h.inBlock t = true from hin] at hout
    cases hout
  · exact (Moved.unblock hR c t).pending t hp
  · exact absurd hz' hz

theorem WakeInv.runOp (hw : WakeInv s h) (hpc : s.pc c = .running) (op : Op)
    (hk : KeepsWakeups (s, h) (c, op)) : WakeInv (runOp s c op) (noteWakeups h s (c, op)) := by
  obtain ⟨R, hR⟩ := hw.ready
  unfold noteWakeups
  simp only [hpc]
  cases op with
  | block =>
    unfold Sched.runOp callOf
    cases hc : s.current c with
    | none => exact hw
    | some t =>
      simp only
      by_cases hi : t = s.idle c
      · rw [if_pos hi, if_pos hi]
        exact hw
      · rw [if_neg hi, if_neg hi]
        exact hw.callBlock (hk t hc) (hR.caller hc hi)
  | sleepForTicks ticks => exact hw.call hk fun t ht hi => .sleepForTicks ht hi ticks
  | waitOn q => exact hw.call hk fun t ht hi => .waitOn ht hi q
  | waitOnWithTimeout q ticks bucket =>
    exact hw.call hk fun t ht hi => .waitOnWithTimeout ht hi q ticks bucket
  | exit =>
    unfold Sched.runOp callOf
    cases hc : s.current c with
    | none => exact hw
    | some t =>
      simp only
      by_cases hi : t = s.idle c
      · rw [if_pos hi, if_pos hi]
        exact hw
      · rw [if_neg hi, if_neg hi]
        exact (hw.leave t).exit (hk t hc) (hR.caller hc hi) (update_self _ _ _) c
  | unblock t => exact hw.unblock hk c
  | removeThread q t => exact hw.moved (.removeThread s q t)
  | pop q =>
    have hm := hw.moved (Moved.pop s q)
    dsimp only [Sched.runOp]
    generalize s.pop q = r at hm ⊢
    obtain ⟨s', o⟩ := r
    cases o with
    | none => exact hm
    | some t => exact hm.pc _
  | tick => exact hw.moved ⟨⟨rfl, fun _ _ => id, fun _ => id⟩, .same rfl rfl⟩
  | wakeSleeper now free => exact hw.moved (.wakeSleeper hR c now free)
  | expireAlarm t =>
    change WakeInv (s.expireAlarm c t) (if s.state t = .Blocked then h.owe t else h)
    unfold expireAlarm
    by_cases hb : s.state t = .Blocked
    · rw [if_pos hb, if_pos hb]
      have hu := hw.unblock (hk hb) c
      rwa [if_neg (by rw [hb]; decide)] at hu
    · rw [if_neg hb, if_neg hb]
      exact hw
  | putBack =>
    refine WakeInv.pc (s := s.putBack c) ?_ _
    unfold putBack
    cases hc : s.current c with
    | none => exact hw
    | some t =>
      simp only
      split
      · rename_i hr
        exact hw.moved (.addToReadyQueue (by rw [hr.1]; decide) (hR.caller hc hr.2) c)
      · exact hw
  | interrupt =>
    unfold Sched.runOp
    cases s.current c with
    | none => exact hw
    | some t => exact hw.goOn t
  | setStopped t b => exact hw.moved (.edit (t := t) rfl (fun hp => hp) rfl rfl rfl rfl)
  | setWait4Waiting t b => exact hw.moved (.edit (t := t) rfl (fun hp => hp) rfl rfl rfl rfl)
  | _ => exact hw

theorem WakeInv.step {i : CpuId × Op} (hw : WakeInv s h) (hk : KeepsWakeups (s, h) i) :
    WakeInv (schedStep s i) (noteWakeups h s i) := by
  obtain ⟨R, hR⟩ := hw.ready
  obtain ⟨c, op⟩ := i
  cases hpc : s.pc c with
  | running =>
    unfold schedStep
    simp only [hpc]
    exact hw.runOp hpc op hk
  | switching =>
    unfold schedStep noteWakeups
    simp only [hpc]
    cases op with
    | takeNext free => exact hw.takeNext hk
    | _ => exact hw
  | waking t =>
    unfold schedStep noteWakeups
    simp only [hpc]
    cases op with
    | readyPopped =>
      have hb : s.state t = .Blocked := hk t hpc
      exact (hw.moved (.addToReadyQueue (by rw [hb]; decide)
        (hR.not_idle (by rw [hb]; decide)) c)).pc _
    | cancelTimeoutAndWake => exact (hw.moved (.cancelTimeoutAndWake hR c t)).pc _
    | _ => exact hw

theorem Boots.wakeInv (hb : Boots s) : WakeInv s {} := by
  obtain ⟨R, hR, hmem⟩ := hb.ready
  refine ⟨⟨R, hR, hmem, fun c => (hb.idle c).2, fun e => hb.distinct _ _ e, fun {c d} h₁ => ?_⟩,
    fun _ he => (false_ne_true he).elim, fun _ he => (false_ne_true he).elim,
    fun _ he => (false_ne_true he).elim⟩
  rw [(hb.idle c).1] at h₁
  exact hb.distinct c d (Option.some.inj h₁)

/-- **No wakeup is lost in any run of such steps**, whatever the interleaving of the CPUs. -/
theorem noLostWakeup {w : Scheduler × WakeupHistory} (hr : waking.Reach KeepsWakeups w) :
    NoLostWakeup w := by
  have hinv : WakeInv w.1 w.2 := by
    refine hr.invariant (I := fun w : Scheduler × WakeupHistory => WakeInv w.1 w.2) (fun w hs => ?_)
      fun _ _ _ hw hk => hw.step hk
    rw [hs.2]
    exact hs.1.wakeInv
  exact hinv.wakes

/-- Thread 1 is unblocked while it runs, calls `block()`, which returns, calls it again, and is
    unblocked by the other CPU. -/
def unblockedTwice : List (CpuId × Op) :=
  [(0, .putBack), (0, .takeNext fun _ => true), (1, .unblock 1), (0, .block), (0, .block),
    (1, .unblock 1)]

theorem unblockedTwice_keeps : waking.Along KeepsWakeups (booted, {}) unblockedTwice := by
  refine ⟨trivial, fun t ht => ?_, .inl rfl, fun t ht => ?_, fun t ht => ?_, .inr (.inl rfl), trivial⟩
  · cases ht
    exact fun hs => (false_ne_true hs).elim
  · cases ht
    decide
  · cases ht
    decide

theorem booted_waking : waking.start (booted, {}) := ⟨booted_boots, rfl⟩

/-- There no wakeup is lost. -/
theorem noLostWakeup_unblockedTwice : NoLostWakeup (waking.exec (booted, {}) unblockedTwice) :=
  noLostWakeup (Machine.Reach.exec (.start booted_waking) unblockedTwice_keeps)

/-- Thread 1 is preempted, unblocked by the other CPU, and calls `block()` when it runs again. -/
def preemptedBeforeBlock : List (CpuId × Op) :=
  [(0, .putBack), (0, .takeNext fun _ => true), (0, .putBack), (1, .unblock 1),
    (0, .takeNext fun _ => true), (0, .putBack), (0, .takeNext fun _ => true), (0, .block),
    (0, .putBack), (0, .takeNext fun _ => true)]

/-- **Not every run keeps the wakeups**: thread 1 sleeps, and was unblocked before it slept. -/
theorem noLostWakeup_refuted : ¬ ∀ w, waking.Reachable w → NoLostWakeup w := by
  intro hall
  have hlost := hall _ (Machine.Reachable.exec (.start booted_waking) preemptedBeforeBlock)
  have hready := (hlost.current 1 rfl rfl).1
  have hblocked : (waking.exec (booted, {}) preemptedBeforeBlock).1.state 1 = .Blocked := rfl
  rw [hblocked] at hready
  cases hready

end Zigk.Sched
