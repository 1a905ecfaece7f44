/-
  Subject:   QUEUE INTEGRITY of the scheduler, over every interleaving of the CPUs.

  * `Integrity` -- a thread is in one place only (running on one CPU, in one ready queue, or
    blocked), no intrusive list holds a thread twice, a thread linked in a wait queue is blocked,
    and the counts are the lengths;
  * **`schedQueues`** -- in every run of such steps.
-/
import Zigk.Proc.Sched

namespace Zigk.Sched

open Function List Scheduler

/-! ## 1. The law -/

/-- `t` is found on the links of the wait queue `q`. -/
def Scheduler.WaitsIn (s : Scheduler) (q : QueueId) (t : ThreadId) : Prop :=
  (s.waits.links q).Reaches t

def Scheduler.RunsOn (s : Scheduler) (c : CpuId) (t : ThreadId) : Prop :=
  s.current c = some t ∧ s.state t = .Running

/-- The wait queues spell the lists `W`, the ready queues the lists `R`, without repetition and
    with the right counts. -/
structure IntegrityOf (s : Scheduler) (W : QueueId → List ThreadId) (R : CpuId → List ThreadId) :
    Prop where
  waits : s.waits.Reads W
  ready : s.ready.Reads R
  /-- A thread linked in a wait queue is blocked. -/
  blocked : ∀ {q t}, t ∈ W q → s.state t = .Blocked
  /-- A thread in a ready queue is neither blocked nor running. -/
  notRunning : ∀ {c t}, t ∈ R c → s.state t ≠ .Blocked ∧ ∀ d, ¬ s.RunsOn d t
  oneCpu : ∀ {c d t}, s.RunsOn c t → s.RunsOn d t → c = d
  sleepers : s.sleepList.Nodup

def Integrity (s : Scheduler) : Prop := ∃ W R, IntegrityOf s W R

/-- No wait queue holds the thread. -/
def Scheduler.Unlinked (s : Scheduler) (t : ThreadId) : Prop := ∀ q, ¬ s.WaitsIn q t

/-- Whoever finds `t` blocked and makes it ready finds it unlinked. -/
def WakesUnlinked (s : Scheduler) (t : ThreadId) : Prop := s.state t = .Blocked → s.Unlinked t

/-- The caller of a blocking call is running. -/
def CallerRuns (s : Scheduler) (c : CpuId) : Prop :=
  ∀ t, s.current c = some t → s.state t = .Running

/-- **A step that keeps the queues.** -/
def KeepsQueues (s : Scheduler) (i : CpuId × Op) : Prop :=
  match i.2 with
  | .block | .sleepForTicks _ | .waitOn _ => CallerRuns s i.1
  | .waitOnWithTimeout _ _ _ =>
    CallerRuns s i.1 ∧ ∀ t, s.current i.1 = some t → t ∉ s.sleepList
  | .exit =>
    CallerRuns s i.1 ∧ ∀ t parent, s.current i.1 = some t → (s.threads t).parent = some parent →
      WakesUnlinked s parent
  | .unblock t | .expireAlarm t => WakesUnlinked s t
  | .removeThread q t => ∀ q', s.WaitsIn q' t → q' = q
  | .readyPopped => ∀ t, s.pc i.1 = .waking t → s.state t = .Blocked ∧ s.Unlinked t
  | .cancelTimeoutAndWake => ∀ t, s.pc i.1 = .waking t → WakesUnlinked s t
  | .wakeSleeper now free =>
    ∀ t l, s.sleepList = t :: l → (s.threads t).wakeTime ≤ now →
      match (s.threads t).futexBucket with
      | none => WakesUnlinked s t
      | some b => free = true → ∀ q, s.WaitsIn q t → q = .futex b
  | .takeNext free =>
    ∀ t, (s.removeFromReadyQueue i.1 free).2 = some t → ∀ d, d ≠ i.1 → s.current d ≠ some t
  | _ => True

/-! ## 2. What an edit of a thread changes -/

variable {u : ThreadId}

section Projections

variable (s : Scheduler) (t : ThreadId) (f : Thread → Thread) (c : CpuId)

theorem threads_mapThread_self : (s.mapThread t f).threads t = f (s.threads t) := update_self _ _ _

theorem threads_mapThread_of_ne (hu : u ≠ t) :
    (s.mapThread t f).threads u = s.threads u := update_of_ne hu _ _

theorem threads_setState_self (st : ThreadState) :
    (s.setState t st).threads t = { s.threads t with state := st } := update_self _ _ _

theorem threads_setState_of_ne (st : ThreadState) (hu : u ≠ t) :
    (s.setState t st).threads u = s.threads u := update_of_ne hu _ _

theorem threads_insertSleepThread : (s.insertSleepThread t).threads = s.threads := rfl

theorem state_mapThread :
    (s.mapThread t f).state = update s.state t (f (s.threads t)).state := by
  funext u
  change (update s.threads t (f (s.threads t)) u).state = _
  by_cases e : u = t
  · rw [e, update_self, update_self]
  · rw [update_of_ne e, update_of_ne e]
    rfl

theorem state_setState (st : ThreadState) : (s.setState t st).state = update s.state t st :=
  state_mapThread s t _

theorem state_removeFromSleepList : (s.removeFromSleepList t).state = s.state := by
  change (s.mapThread t fun th => { th with wakeTime := 0 }).state = _
  rw [state_mapThread]
  exact update_eq_self _ _

theorem state_addToReadyQueue : (s.addToReadyQueue c t).state = update s.state t .Ready :=
  state_setState s t .Ready

end Projections

/-! ## 3. The invariant -/

structure QueuesInv (s : Scheduler) (W : QueueId → List ThreadId) (R : CpuId → List ThreadId) :
    Prop where
  waits : s.waits.Reads W
  ready : s.ready.Reads R
  blocked : ∀ {q t}, t ∈ W q → s.state t = .Blocked
  readies : ∀ {c t}, t ∈ R c → s.state t = .Ready
  sleepers : s.sleepList.Nodup
  idle : ∀ c, s.state (s.idle c) = .Running
  distinct : ∀ {c d}, s.idle c = s.idle d → c = d
  oneCpu : ∀ {c d t}, s.current c = some t → s.current d = some t → c = d
  home : ∀ {c d}, s.current c = some (s.idle d) → c = d

variable {s s' : Scheduler} {W : QueueId → List ThreadId} {R : CpuId → List ThreadId}
  {t : ThreadId} {c : CpuId} {q : QueueId}

section

variable (h : QueuesInv s W R)
include h

theorem QueuesInv.integrity : Integrity s := ⟨W, R, h.waits, h.ready, h.blocked,
    fun ht => ⟨by rw [h.readies ht]; decide, fun _ hr => by
      have hst := hr.2
      rw [h.readies ht] at hst
      cases hst⟩,
    fun h₁ h₂ => h.oneCpu h₁.1 h₂.1, h.sleepers⟩

theorem QueuesInv.waitsIn_iff : s.WaitsIn q t ↔ t ∈ W q :=
  Links.linked_reaches_iff (h.waits.linked q)

theorem QueuesInv.unlinked (hu : s.Unlinked t) : ∀ q, t ∉ W q :=
  fun q hm => hu q (h.waitsIn_iff.mpr hm)

/-- A thread that is not ready is in no ready queue. -/
theorem QueuesInv.not_ready (ht : s.state t ≠ .Ready) : ∀ c, t ∉ R c :=
  fun _ hm => ht (h.readies hm)

theorem QueuesInv.not_waiting (ht : s.state t ≠ .Blocked) : ∀ q, t ∉ W q :=
  fun _ hm => ht (h.blocked hm)

theorem QueuesInv.not_idle (ht : s.state t ≠ .Running) : ∀ c, t ≠ s.idle c :=
  fun c e => ht (e ▸ h.idle c)

/-- **A thread changes its state**: it leaves no list in which the new state is wrong. -/
theorem QueuesInv.restate {v : ThreadState}
    (hst : s'.state = update s.state t v) (hw : s'.waits = s.waits)
    (hr : s'.ready = s.ready) (hs : s'.sleepList.Nodup) (hc : s'.current = s.current)
    (hi : s'.idle = s.idle) (hW : v ≠ .Blocked → ∀ q, t ∉ W q) (hR : v ≠ .Ready → ∀ c, t ∉ R c)
    (hidle : v ≠ .Running → ∀ c, t ≠ s.idle c) : QueuesInv s' W R := by
  have hstate : ∀ u, s'.state u = if u = t then v else s.state u := fun u => by
    rw [hst, update_apply]
  refine ⟨hw ▸ h.waits, hr ▸ h.ready, fun {q u} hu => ?_, fun {c u} hu => ?_, hs, fun c => ?_,
    fun {c d} e => h.distinct (by rwa [hi] at e), fun {c d u} h₁ h₂ => ?_, fun {c d} h₁ => ?_⟩
  · rw [hstate]
    by_cases e : u = t
    · rw [if_pos e]
      by_contra hne
      exact hW hne q (e ▸ hu)
    · rw [if_neg e]
      exact h.blocked hu
  · rw [hstate]
    by_cases e : u = t
    · rw [if_pos e]
      by_contra hne
      exact hR hne c (e ▸ hu)
    · rw [if_neg e]
      exact h.readies hu
  · rw [hstate, hi]
    by_cases e : s.idle c = t
    · rw [if_pos e]
      by_contra hne
      exact hidle hne c e.symm
    · rw [if_neg e]
      exact h.idle c
  · rw [hc] at h₁ h₂
    exact h.oneCpu h₁ h₂
  · rw [hc, hi] at h₁
    exact h.home h₁

/-- An edit that leaves every state as it is. -/
theorem QueuesInv.keep (hst : s'.state = s.state) (hw : s'.waits = s.waits)
    (hr : s'.ready = s.ready) (hs : s'.sleepList.Nodup) (hc : s'.current = s.current)
    (hi : s'.idle = s.idle) : QueuesInv s' W R :=
  ⟨hw ▸ h.waits, hr ▸ h.ready, fun hu => hst ▸ h.blocked hu, fun hu => hst ▸ h.readies hu, hs,
    fun c => by rw [hst, hi]; exact h.idle c, fun e => h.distinct (by rwa [hi] at e),
    fun h₁ h₂ => h.oneCpu (hc ▸ h₁) (hc ▸ h₂), fun h₁ => h.home (by rwa [hc, hi] at h₁)⟩

theorem QueuesInv.pc (f : CpuId → CpuPc) : QueuesInv { s with pc := f } W R :=
  h.keep rfl rfl rfl h.sleepers rfl rfl

/-- **A thread becomes ready**: it is in no queue yet. -/
theorem QueuesInv.addToReadyQueue (hR : ∀ c, t ∉ R c) (hW : ∀ q, t ∉ W q)
    (hidle : ∀ c, t ≠ s.idle c) (c : CpuId) :
    ∃ R', QueuesInv (s.addToReadyQueue c t) W R' := by
  have hset : QueuesInv (s.setState t .Ready) W R :=
    h.restate (state_setState s t .Ready) rfl rfl h.sleepers rfl rfl (fun _ => hW)
      (fun hne => absurd rfl hne) fun _ => hidle
  set target := (s.setState t .Ready).getTargetCpu c t
  refine ⟨update R target (R target ++ [t]),
    { hset with ready := hset.ready.append hR, readies := fun {d u} hu => ?_ }⟩
  by_cases e : d = target
  · rw [e, update_self] at hu
    rcases mem_append.mp hu with hu | hu
    · exact hset.readies hu
    · rw [mem_singleton.mp hu, state_addToReadyQueue, update_self]
  · rw [update_of_ne e] at hu
    exact hset.readies hu

/-- A blocked thread that is in no wait queue becomes ready. -/
theorem QueuesInv.wake (hb : s.state t = .Blocked) (hW : ∀ q, t ∉ W q)
    (c : CpuId) : ∃ R', QueuesInv (s.addToReadyQueue c t) W R' :=
  h.addToReadyQueue (h.not_ready (by rw [hb]; decide)) hW (h.not_idle (by rw [hb]; decide)) c

/-- **A running thread lines up in a wait queue and blocks.** -/
theorem QueuesInv.append (hr : s.state t = .Running)
    (hidle : ∀ c, t ≠ s.idle c) (hst : s'.state = update s.state t .Blocked)
    (hw : s'.waits = s.waits.append q t) (hre : s'.ready = s.ready) (hs : s'.sleepList.Nodup)
    (hc : s'.current = s.current) (hi : s'.idle = s.idle) :
    QueuesInv s' (update W q (W q ++ [t])) R := by
  have hW := h.not_waiting (t := t) (by rw [hr]; decide)
  have hset : QueuesInv { s' with waits := s.waits } W R :=
    h.restate hst rfl hre hs hc hi (fun hne => absurd rfl hne)
      (fun _ => h.not_ready (by rw [hr]; decide)) fun _ => hidle
  refine { hset with waits := hw ▸ h.waits.append hW, blocked := fun {q' u} hu => ?_ }
  by_cases e : q' = q
  · rw [e, update_self] at hu
    rcases mem_append.mp hu with hu | hu
    · exact hset.blocked hu
    · rw [mem_singleton.mp hu, hst, update_self]
  · rw [update_of_ne e] at hu
    exact hset.blocked hu

/-- A thread leaves its wait queue. -/
theorem QueuesInv.remove (hm : t ∈ W q) :
    QueuesInv { s with waits := s.waits.remove q t } (update W q ((W q).erase t)) R := by
  refine { h with waits := h.waits.remove hm, blocked := fun {q' u} hu => h.blocked (q := q') ?_ }
  by_cases e : q' = q
  · rw [e, update_self] at hu
    exact e ▸ mem_of_mem_erase hu
  · rwa [update_of_ne e] at hu

end

/-! ## 4. The calls of a thread -/

theorem insertBy_perm (wake : ThreadId → Nat) (t : ThreadId) (l : List ThreadId) :
    (insertBy wake t l).Perm (t :: l) := by
  induction l with
  | nil => exact List.Perm.refl _
  | cons u l ih =>
    unfold insertBy
    split
    · exact List.Perm.refl _
    · exact (ih.cons u).trans (List.Perm.swap t u l)

variable {l : List ThreadId}

theorem nodup_insertBy {wake : ThreadId → Nat} (hl : l.Nodup) (ht : t ∉ l) :
    (insertBy wake t l).Nodup :=
  (insertBy_perm wake t l).nodup_iff.mpr (nodup_cons.mpr ⟨ht, hl⟩)

section

variable (h : QueuesInv s W R)
include h

/-- The thread that makes a call is no idle thread. -/
theorem QueuesInv.caller (hc : s.current c = some t) (hne : t ≠ s.idle c) :
    ∀ d, t ≠ s.idle d := by
  intro d e
  have hcd : c = d := h.home (by rw [hc, e])
  exact hne (hcd ▸ e)

theorem QueuesInv.sleepRemove (t : ThreadId) : QueuesInv (s.removeFromSleepList t) W R :=
  h.keep (state_removeFromSleepList s t) rfl rfl (h.sleepers.erase t) rfl rfl

theorem QueuesInv.sleepInsert (ht : t ∉ s.sleepList) : QueuesInv (s.insertSleepThread t) W R :=
  h.keep rfl rfl rfl (nodup_insertBy h.sleepers ht) rfl rfl

/-- An edit of a thread that is not about its state. -/
theorem QueuesInv.edit {f : Thread → Thread}
    (hf : (f (s.threads t)).state = (s.threads t).state) : QueuesInv (s.mapThread t f) W R := by
  refine h.keep ?_ rfl rfl h.sleepers rfl rfl
  rw [state_mapThread, hf]
  exact update_eq_self _ _

theorem QueuesInv.block (hr : s.state t = .Running)
    (hidle : ∀ d, t ≠ s.idle d) : QueuesInv (s.block t) W R := by
  unfold Scheduler.block
  split
  · exact h.edit rfl
  · refine (h.sleepRemove t).restate (v := .Blocked) (state_mapThread _ _ _) rfl rfl
      (h.sleepers.erase t) rfl rfl (fun hne => absurd rfl hne)
      (fun _ => h.not_ready (by rw [hr]; decide)) fun _ => hidle

theorem QueuesInv.sleepForTicks (hr : s.state t = .Running)
    (hidle : ∀ d, t ≠ s.idle d) (ticks : Nat) : QueuesInv (s.sleepForTicks ticks t) W R := by
  unfold Scheduler.sleepForTicks
  split
  · exact h
  have hnot : t ∉ s.sleepList.erase t := h.sleepers.not_mem_erase
  have hblocked := (h.sleepRemove t).restate (v := .Blocked)
    (state_mapThread _ t fun th => { th with
      state := .Blocked
      wakeTime := if Scheduler.maxTick - s.tickCount < ticks then Scheduler.maxTick
        else s.tickCount + ticks })
    rfl rfl (h.sleepers.erase t) rfl rfl (fun hne => absurd rfl hne)
    (fun _ => h.not_ready (by rw [hr]; decide)) fun _ => hidle
  exact hblocked.sleepInsert hnot

theorem QueuesInv.waitOn (hr : s.state t = .Running) (hidle : ∀ d, t ≠ s.idle d) (q : QueueId) :
    QueuesInv (s.waitOn q t) (update W q (W q ++ [t])) R :=
  h.append hr hidle (state_setState _ t .Blocked) rfl rfl h.sleepers rfl rfl

theorem QueuesInv.waitOnWithTimeout (hr : s.state t = .Running)
    (hidle : ∀ d, t ≠ s.idle d) (hs : t ∉ s.sleepList) (q : QueueId) (ticks : Nat)
    (bucket : Option (Fin BUCKET_COUNT)) :
    QueuesInv (s.waitOnWithTimeout q ticks bucket t) (update W q (W q ++ [t])) R := by
  have hwait := h.waitOn hr hidle q
  unfold Scheduler.waitOnWithTimeout
  split
  · exact (hwait.edit (t := t) rfl).sleepInsert hs
  · exact hwait.edit rfl

/-! ## 5. Waking -/

theorem QueuesInv.unblock (hw : WakesUnlinked s t) (c : CpuId) :
    ∃ R', QueuesInv (s.unblock c t) W R' := by
  unfold Scheduler.unblock
  split
  · rename_i hb
    exact (h.sleepRemove t).wake ((congrFun (state_removeFromSleepList s t) t).trans hb)
      (h.unlinked (hw hb)) c
  · split
    · exact ⟨R, h.edit rfl⟩
    · exact ⟨R, h⟩

theorem QueuesInv.expireAlarm (hw : WakesUnlinked s t) (c : CpuId) :
    ∃ R', QueuesInv (s.expireAlarm c t) W R' := by
  unfold Scheduler.expireAlarm
  split
  · exact h.unblock hw c
  · exact ⟨R, h⟩

theorem QueuesInv.cancelTimeoutAndWake (hw : WakesUnlinked s t) (c : CpuId) :
    ∃ R', QueuesInv (s.cancelTimeoutAndWake c t) W R' := by
  unfold Scheduler.cancelTimeoutAndWake
  by_cases hb : s.state t = .Blocked
  · rw [if_neg (not_not_intro hb)]
    have hcancel : ∀ s₁ : Scheduler, QueuesInv s₁ W R → s₁.state t = .Blocked →
        ∃ R', QueuesInv ((s₁.mapThread t fun th => { th with
          futexBucket := none
          futexWakeupReason := .woken }).addToReadyQueue c t) W R' := by
      intro s₁ h₁ hb₁
      have hstate : (s₁.mapThread t fun th => { th with
          futexBucket := none
          futexWakeupReason := .woken }).state = s₁.state :=
        (state_mapThread _ _ _).trans (update_eq_self _ _)
      exact (h₁.keep hstate rfl rfl h₁.sleepers rfl rfl).wake ((congrFun hstate t).trans hb₁)
        (h.unlinked (hw hb)) c
    split
    · exact hcancel _ (h.sleepRemove t) ((congrFun (state_removeFromSleepList s t) t).trans hb)
    · exact hcancel _ h hb
  · rw [if_pos hb]
    exact ⟨R, h⟩

theorem QueuesInv.readySleeper (hw : s.state t = .Blocked → ∀ q, t ∉ W q) (c : CpuId) :
    ∃ R', QueuesInv (s.readySleeper c t) W R' := by
  unfold Scheduler.readySleeper
  split
  · rename_i hb
    exact h.wake hb (hw hb) c
  · exact ⟨R, h⟩

/-- `removeThread` unlinks a thread that waits in this queue, or nowhere. -/
theorem QueuesInv.removeThread (hw : ∀ q', s.WaitsIn q' t → q' = q) :
    ∃ W', QueuesInv (s.removeThread q t).1 W' R ∧ ∀ q', t ∉ W' q' := by
  have honly : ∀ q', t ∈ W q' → q' = q := fun q' hm => hw q' (h.waitsIn_iff.mpr hm)
  have hholds := h.waits.holds_iff honly
  unfold Scheduler.removeThread
  split
  · rename_i hh
    have hm := hholds.mp hh
    refine ⟨_, h.remove hm, fun q' hin => ?_⟩
    by_cases e : q' = q
    · rw [e, update_self] at hin
      exact (h.waits.nodup q).not_mem_erase hin
    · rw [update_of_ne e] at hin
      exact e (honly q' hin)
  · rename_i hh
    refine ⟨W, h, fun q' hin => ?_⟩
    exact hh (hholds.mpr (honly q' hin ▸ hin))

theorem QueuesInv.wakeSleeper {now : Nat} {free : Bool}
    (hk : ∀ t l, s.sleepList = t :: l → (s.threads t).wakeTime ≤ now →
      match (s.threads t).futexBucket with
      | none => WakesUnlinked s t
      | some b => free = true → ∀ q, s.WaitsIn q t → q = .futex b) (c : CpuId) :
    ∃ W' R', QueuesInv (s.wakeSleeper c now free) W' R' := by
  unfold Scheduler.wakeSleeper
  cases hl : s.sleepList with
  | nil => exact ⟨W, R, h⟩
  | cons t l =>
    simp only
    by_cases hnow : now < (s.threads t).wakeTime
    · rw [if_pos hnow]
      exact ⟨W, R, h⟩
    rw [if_neg hnow]
    have hrem := h.sleepRemove t
    have hst : (s.removeFromSleepList t).state = s.state := state_removeFromSleepList s t
    have hbucket : ((s.removeFromSleepList t).threads t).futexBucket =
        (s.threads t).futexBucket := by
      change (update s.threads t _ t).futexBucket = _
      rw [update_self]
    have hkt := hk t l hl (Nat.le_of_not_lt hnow)
    rw [hbucket]
    cases hb : (s.threads t).futexBucket with
    | none =>
      rw [hb] at hkt
      obtain ⟨R', h'⟩ := hrem.readySleeper
        (fun hblk => h.unlinked (hkt (hst ▸ hblk))) c
      exact ⟨W, R', h'⟩
    | some b =>
      rw [hb] at hkt
      cases free with
      | true =>
        obtain ⟨W', h', hno⟩ := hrem.removeThread (q := .futex b) (hkt rfl)
        obtain ⟨R', h''⟩ := (h'.edit (t := t) (f := fun th => { th with
          futexWakeupReason := .timeout
          futexBucket := none }) rfl).readySleeper (t := t) (fun _ => hno) c
        exact ⟨W', R', h''⟩
      | false =>
        have hnot : t ∉ s.sleepList.erase t := h.sleepers.not_mem_erase
        exact ⟨W, R, (hrem.edit (t := t) (f := fun th => { th with wakeTime := now + 1 })
          rfl).sleepInsert hnot⟩

/-- A popped thread is in no wait queue any more. -/
theorem QueuesInv.pop (q : QueueId) :
    ∃ W', QueuesInv (s.pop q).1 W' R := by
  unfold Scheduler.pop
  cases hW : W q with
  | nil =>
    rw [h.waits.popFirst_nil hW]
    exact ⟨W, h⟩
  | cons t l =>
    obtain ⟨heq, -⟩ := h.waits.popFirst hW
    rw [heq]
    exact ⟨_, h.remove (by rw [hW]; exact .head _)⟩

theorem QueuesInv.exit (hr : s.state t = .Running) (hidle : ∀ d, t ≠ s.idle d)
    (hw : ∀ parent, (s.threads t).parent = some parent → WakesUnlinked s parent) :
    ∃ R', QueuesInv (s.exit c t) W R' := by
  have hzombie : QueuesInv (s.setState t .Zombie) W R :=
    h.restate (state_setState s t .Zombie) rfl rfl h.sleepers rfl rfl
      (fun _ => h.not_waiting (by rw [hr]; decide)) (fun _ => h.not_ready (by rw [hr]; decide))
      fun _ => hidle
  have hleft : QueuesInv { s.setState t .Zombie with
      current := update s.current c none } W R := by
    refine { hzombie with oneCpu := fun {d e u} h₁ h₂ => ?_, home := fun {d e} h₁ => ?_ }
    · by_cases ed : d = c
      · rw [ed] at h₁
        exact absurd ((update_self (f := s.current) c none).symm.trans h₁) (by simp)
      by_cases ee : e = c
      · rw [ee] at h₂
        exact absurd ((update_self (f := s.current) c none).symm.trans h₂) (by simp)
      · exact h.oneCpu ((update_of_ne ed _ _).symm.trans h₁) ((update_of_ne ee _ _).symm.trans h₂)
    · by_cases ed : d = c
      · rw [ed] at h₁
        exact absurd ((update_self (f := s.current) c none).symm.trans h₁) (by simp)
      · exact h.home ((update_of_ne ed _ _).symm.trans h₁)
  have hparent : ((s.setState t .Zombie).threads t).parent = (s.threads t).parent := by
    change (update s.threads t _ t).parent = _
    rw [update_self]
  unfold Scheduler.exit
  simp only
  rw [hparent]
  cases hp : (s.threads t).parent with
  | none => exact ⟨R, hleft⟩
  | some parent =>
    simp only
    split
    · rename_i hb
      have hb' : s.state parent = .Blocked := by
        change (s.setState t .Zombie).state parent = .Blocked at hb
        rw [state_setState] at hb
        by_cases e : parent = t
        · rw [e, update_self] at hb
          cases hb
        · rwa [update_of_ne e] at hb
      exact hleft.wake hb (h.unlinked (hw parent hp hb')) c
    · split
      · exact ⟨R, hleft.edit rfl⟩
      · exact ⟨R, hleft⟩

end

/-! ## 6. Taking the next thread -/

/-- The ready queues after a thread, or none, was taken from them. -/
structure Taken (R : CpuId → List ThreadId) (m : Queues CpuId ThreadId) (o : Option ThreadId)
    (R' : CpuId → List ThreadId) : Prop where
  reads : m.Reads R'
  mem : ∀ u, (∃ d, u ∈ R' d) ↔ (∃ d, u ∈ R d) ∧ o ≠ some u
  found : ∀ u, o = some u → ∃ d, u ∈ R d

variable {m : Queues CpuId ThreadId} {d : CpuId}

theorem Taken.none (h : m.Reads R) : Taken R m none R :=
  ⟨h, fun _ => ⟨fun hu => ⟨hu, Option.some_ne_none _ ∘ Eq.symm⟩, And.left⟩, fun _ h => nomatch h⟩

/-- Taking `u` out of the queue `d`. -/
theorem Taken.of_erase {m' : Queues CpuId ThreadId} (h : m.Reads R)
    (hu : u ∈ R d) (hl : ∀ x, x ∈ l ↔ x ∈ R d ∧ x ≠ u)
    (hm : m'.Reads (update R d l)) : Taken R m' (some u) (update R d l) := by
  refine ⟨hm, fun x => ⟨?_, ?_⟩, fun x hx => ⟨d, Option.some.inj hx ▸ hu⟩⟩
  · rintro ⟨e, he⟩
    by_cases hed : e = d
    · rw [hed, update_self, hl] at he
      exact ⟨⟨d, he.1⟩, fun hx => he.2 (Option.some.inj hx).symm⟩
    · rw [update_of_ne hed] at he
      exact ⟨⟨e, he⟩, fun hx => hed (h.apart he (Option.some.inj hx ▸ hu))⟩
  rintro ⟨⟨e, he⟩, hx⟩
  refine ⟨e, ?_⟩
  by_cases hed : e = d
  · rw [hed, update_self, hl]
    exact ⟨hed ▸ he, fun hxu => hx (congrArg some hxu.symm)⟩
  · rwa [update_of_ne hed]

theorem taken_popFirst (h : m.Reads R) (hl : R d = u :: l) :
    Taken R (m.popFirst d).1 (some u) (update R d l) := by
  have hnodup := h.nodup d
  rw [hl] at hnodup
  refine .of_erase h (by rw [hl]; exact .head _) (fun x => ?_) (h.popFirst hl).2
  rw [hl, mem_cons]
  constructor
  · exact fun hx => ⟨.inr hx, fun e => (nodup_cons.mp hnodup).1 (e ▸ hx)⟩
  · rintro ⟨rfl | hx, hne⟩
    · exact absurd rfl hne
    · exact hx

theorem taken_popLast (h : m.Reads R) (hl : R d = l ++ [u]) :
    Taken R (m.popLast d).1 (some u) (update R d l) := by
  have hnodup := h.nodup d
  rw [hl] at hnodup
  refine .of_erase h (by rw [hl]; simp) (fun x => ?_) (h.popLast hl).2
  rw [hl, mem_append, mem_singleton]
  constructor
  · exact fun hx => ⟨.inl hx, (nodup_append.mp hnodup).2.2 x hx u (.head _)⟩
  · rintro ⟨hx | rfl, hne⟩
    · exact hx
    · exact absurd rfl hne

/-- A stolen thread that may not run here goes back to the end of its queue. -/
theorem reads_putAway (h : m.Reads R)
    (hl : R d = l ++ [u]) : ((m.popLast d).1.append d u).Reads R := by
  have htaken := taken_popLast h hl
  have hno : ∀ e, u ∉ update R d l e := fun e hu => ((htaken.mem u).mp ⟨e, hu⟩).2 rfl
  have happ := htaken.reads.append (q := d) hno
  rwa [update_self, update_idem, ← hl, update_eq_self] at happ

theorem taken_steal (s : Scheduler) (c : CpuId) (free : CpuId → Bool) (attempts : Nat)
    (victim : CpuId) (h : m.Reads R) :
    ∃ R', Taken R (s.steal c free attempts victim m).1 (s.steal c free attempts victim m).2 R' := by
  induction attempts generalizing victim m with
  | zero => exact ⟨R, .none h⟩
  | succ attempts ih =>
    unfold steal
    simp only
    by_cases hv : victim ≠ c ∧ s.initialized victim = true ∧ free victim = true
    · rw [if_pos hv]
      rcases eq_nil_or_concat' (R victim) with hl | ⟨l, u, hl⟩
      · rw [h.popLast_nil hl]
        exact ih _ h
      obtain ⟨heq, -⟩ := h.popLast hl
      have htaken := taken_popLast h hl
      have hback := reads_putAway h hl
      rw [heq] at htaken hback ⊢
      simp only at htaken hback ⊢
      by_cases hal : s.allows u c = true
      · rw [if_pos hal]
        exact ⟨_, htaken⟩
      · rw [if_neg hal]
        exact ih _ hback
    · rw [if_neg hv]
      exact ih _ h

theorem taken_removeFromReadyQueue (h : s.ready.Reads R) (c : CpuId) (free : CpuId → Bool) :
    ∃ R', Taken R (s.removeFromReadyQueue c free).1 (s.removeFromReadyQueue c free).2 R' := by
  unfold removeFromReadyQueue
  cases hl : R c with
  | nil =>
    rw [h.popFirst_nil hl]
    exact taken_steal s c free _ _ h
  | cons u l =>
    have htaken := taken_popFirst h hl
    rw [(h.popFirst hl).1] at htaken ⊢
    exact ⟨_, htaken⟩

section

variable (h : QueuesInv s W R)
include h

/-- The ready queues after the taking. -/
theorem QueuesInv.taken {o : Option ThreadId}
    {R' : CpuId → List ThreadId} (ht : Taken R m o R') : QueuesInv { s with ready := m } W R' := by
  refine { h with ready := ht.reads, readies := fun {c u} hu => ?_ }
  obtain ⟨d, hd⟩ := ((ht.mem u).mp ⟨c, hu⟩).1
  exact h.readies hd

/-- **A CPU switches to a thread** that is in no queue and current nowhere else. -/
theorem QueuesInv.switchTo (hW : ∀ q, t ∉ W q) (hR : ∀ d, t ∉ R d)
    (hother : ∀ d, d ≠ c → s.current d ≠ some t) (hidle : ∀ d, t = s.idle d → d = c) :
    QueuesInv (s.switchTo c t) W R := by
  have hset : QueuesInv (s.mapThread t fun th => { th with lastCpu := c, state := .Running }) W R :=
    h.restate (state_mapThread s t _) rfl rfl h.sleepers rfl rfl (fun _ => hW) (fun _ => hR)
      fun hne => absurd rfl hne
  have hcur : ∀ d u, update s.current c (some t) d = some u →
      d = c ∧ u = t ∨ d ≠ c ∧ s.current d = some u := by
    intro d u hu
    by_cases e : d = c
    · rw [e, update_self] at hu
      exact .inl ⟨e, (Option.some.inj hu).symm⟩
    · rw [update_of_ne e] at hu
      exact .inr ⟨e, hu⟩
  refine ⟨hset.waits, hset.ready, hset.blocked, hset.readies, hset.sleepers, hset.idle,
    hset.distinct, fun {d e u} h₁ h₂ => ?_, fun {d e} h₁ => ?_⟩
  · rcases hcur d u h₁ with ⟨e₁, e₁'⟩ | ⟨hd, g₁⟩ <;> rcases hcur e u h₂ with ⟨e₂, e₂'⟩ | ⟨he, g₂⟩
    · exact e₁.trans e₂.symm
    · exact absurd (e₁' ▸ g₂) (hother e he)
    · exact absurd (e₂' ▸ g₁) (hother d hd)
    · exact h.oneCpu g₁ g₂
  · rcases hcur d _ h₁ with ⟨rfl, e'⟩ | ⟨hd, h₁⟩
    · exact (hidle e e'.symm).symm
    · exact h.home h₁

theorem QueuesInv.takeNext {free : CpuId → Bool}
    (hk : ∀ t, (s.removeFromReadyQueue c free).2 = some t → ∀ d, d ≠ c → s.current d ≠ some t) :
    ∃ R', QueuesInv (s.takeNext c free) W R' := by
  obtain ⟨R', ht⟩ := taken_removeFromReadyQueue h.ready c free
  have hinv := h.taken ht
  unfold Scheduler.takeNext
  generalize hr : s.removeFromReadyQueue c free = r at ht hinv hk
  obtain ⟨m, o⟩ := r
  cases o with
  | none =>
    refine ⟨R', hinv.switchTo (hinv.not_waiting ?_) (hinv.not_ready ?_) (fun d hd hcur => ?_)
      fun d e => (h.distinct e).symm⟩
    · change s.state (s.idle c) ≠ .Blocked
      rw [h.idle]
      decide
    · change s.state (s.idle c) ≠ .Ready
      rw [h.idle]
      decide
    · exact hd (h.home hcur)
  | some t =>
    obtain ⟨d, hd⟩ := ht.found t rfl
    have hready := h.readies hd
    have hnot : ∀ e, t ∉ R' e := fun e he => ((ht.mem t).mp ⟨e, he⟩).2 rfl
    have hwait : ∀ q, t ∉ W q := h.not_waiting (by rw [hready]; decide)
    have hidle : ∀ e, t ≠ s.idle e := h.not_idle (by rw [hready]; decide)
    refine ⟨R', ?_⟩
    simp only
    split
    · exact hinv.restate (state_setState _ t .Blocked) rfl rfl hinv.sleepers rfl rfl
        (fun hne => absurd rfl hne) (fun _ => hnot) fun _ => hidle
    · exact hinv.switchTo hwait hnot (hk t rfl) fun e he => absurd he (hidle e)

theorem QueuesInv.putBack (c : CpuId) :
    ∃ R', QueuesInv (s.putBack c) W R' := by
  unfold Scheduler.putBack
  cases hc : s.current c with
  | none => exact ⟨R, h⟩
  | some t =>
    simp only
    split
    · rename_i hr
      exact h.addToReadyQueue (h.not_ready (by rw [hr.1]; decide))
        (h.not_waiting (by rw [hr.1]; decide)) (h.caller hc hr.2) c
    · exact ⟨R, h⟩

/-! ## 7. Every run -/

/-- The invariant, with some reading of the queues. -/
def Queued (s : Scheduler) : Prop := ∃ W R, QueuesInv s W R

/-- A call of the current thread. -/
theorem QueuesInv.call {f : ThreadId → Scheduler} (hk : CallerRuns s c)
    (hf : ∀ t, s.current c = some t → s.state t = .Running → (∀ d, t ≠ s.idle d) → Queued (f t)) :
    Queued (callOf s c f) := by
  unfold callOf
  cases hc : s.current c with
  | none => exact ⟨W, R, h⟩
  | some t =>
    simp only
    split
    · exact ⟨W, R, h⟩
    · rename_i hne
      exact hf t hc (hk t hc) (h.caller hc hne)

theorem QueuesInv.runOp (op : Op) (hk : KeepsQueues s (c, op)) :
    Queued (runOp s c op) := by
  cases op with
  | block => exact h.call hk fun t _ hr hi => ⟨W, R, h.block hr hi⟩
  | sleepForTicks ticks => exact h.call hk fun t _ hr hi => ⟨W, R, h.sleepForTicks hr hi ticks⟩
  | waitOn q => exact h.call hk fun t _ hr hi => ⟨_, R, h.waitOn hr hi q⟩
  | waitOnWithTimeout q ticks bucket =>
    exact h.call hk.1 fun t hc hr hi => ⟨_, R, h.waitOnWithTimeout hr hi (hk.2 t hc) q ticks bucket⟩
  | exit => exact h.call hk.1 fun t hc hr hi => ⟨W, h.exit hr hi fun p hp => hk.2 t p hc hp⟩
  | unblock t => exact ⟨W, h.unblock hk c⟩
  | removeThread q t =>
    obtain ⟨W', h', -⟩ := h.removeThread hk
    exact ⟨W', R, h'⟩
  | pop q =>
    obtain ⟨W', h'⟩ := h.pop q
    dsimp only [Sched.runOp]
    generalize s.pop q = r at h' ⊢
    obtain ⟨s', o⟩ := r
    cases o with
    | none => exact ⟨W', R, h'⟩
    | some t => exact ⟨W', R, h'.pc _⟩
  | tick => exact ⟨W, R, h.keep rfl rfl rfl h.sleepers rfl rfl⟩
  | wakeSleeper now free => exact h.wakeSleeper hk c
  | expireAlarm t => exact ⟨W, h.expireAlarm hk c⟩
  | putBack =>
    obtain ⟨R', h'⟩ := h.putBack c
    exact ⟨W, R', h'.pc _⟩
  | setStopped t b => exact ⟨W, R, h.edit (f := fun th => { th with stopped := b }) rfl⟩
  | setWait4Waiting t b => exact ⟨W, R, h.edit (f := fun th => { th with wait4Waiting := b }) rfl⟩
  | _ => exact ⟨W, R, h⟩

end

theorem Queued.step {i : CpuId × Op} (h : Queued s) (hk : KeepsQueues s i) :
    Queued (schedStep s i) := by
  obtain ⟨W, R, h⟩ := h
  obtain ⟨c, op⟩ := i
  unfold schedStep
  cases hpc : s.pc c with
  | running => exact h.runOp op hk
  | switching =>
    cases op with
    | takeNext free => exact ⟨W, h.takeNext hk⟩
    | _ => exact ⟨W, R, h⟩
  | waking t =>
    cases op with
    | readyPopped =>
      obtain ⟨hb, hu⟩ := hk t hpc
      obtain ⟨R', h'⟩ := h.wake hb (h.unlinked hu) c
      exact ⟨W, R', h'.pc _⟩
    | cancelTimeoutAndWake =>
      obtain ⟨R', h'⟩ := h.cancelTimeoutAndWake (hk t hpc) c
      exact ⟨W, R', h'.pc _⟩
    | _ => exact ⟨W, R, h⟩

theorem Boots.queued (h : Boots s) : Queued s := by
  obtain ⟨R, hR, hmem⟩ := h.ready
  refine ⟨fun _ => [], R, h.waits ▸ Queues.reads_empty, hR, fun hu => (not_mem_nil hu).elim,
    fun {c u} hu => (hmem u).mp ⟨c, hu⟩, by rw [h.sleepers]; exact nodup_nil,
    fun c => (h.idle c).2, fun e => h.distinct _ _ e, fun {c d u} h₁ h₂ => ?_, fun {c d} h₁ => ?_⟩
  · rw [(h.idle c).1] at h₁
    rw [(h.idle d).1] at h₂
    exact h.distinct c d (Option.some.inj (h₁.trans h₂.symm))
  · rw [(h.idle c).1] at h₁
    exact h.distinct c d (Option.some.inj h₁)

/-- **The queues are sound in every run of such steps**, whatever the interleaving of the CPUs. -/
theorem schedQueues (h : scheduler.Reach KeepsQueues s) : Integrity s := by
  obtain ⟨W, R, hinv⟩ := h.invariant (I := Queued) (fun _ => Boots.queued)
    fun _ _ _ hq hk => hq.step hk
  exact hinv.integrity

/-- The first CPU runs thread 1, which waits; then thread 2, which wakes it. -/
def waitAndWake : List (CpuId × Op) :=
  [(0, .putBack), (0, .takeNext fun _ => true), (0, .waitOn (.other 0)), (0, .putBack),
    (0, .takeNext fun _ => true), (0, .pop (.other 0)), (0, .readyPopped)]

/-- A queue without a head holds nothing. -/
theorem not_waitsIn_of_head (h : s.waits.head q = none) : ¬ s.WaitsIn q t := by
  intro hr
  obtain ⟨u, hu⟩ : ∃ u, s.waits.head q = some u := by
    induction hr with
    | head hp => exact ⟨_, hp⟩
    | next _ _ ih => exact ih
  rw [h] at hu
  cases hu

theorem waitAndWake_keeps : scheduler.Along KeepsQueues booted waitAndWake := by
  have hidle : ∀ u d : Nat, u < 1000 → some (1000 + d) ≠ some u := by
    intro u d hu e
    have hid := Option.some.inj e
    omega
  have hcurrent : ∀ u v d : Nat, u < 1000 → d ≠ 0 →
      update (fun c => some (1000 + c)) 0 (some v) d ≠ some u := by
    intro u v d hu hd
    rw [update_of_ne hd]
    exact hidle u d hu
  refine ⟨trivial, fun t ht d _ => ?_, fun t ht => ?_, trivial, fun t ht d hd => ?_, trivial,
    fun t ht => ?_, trivial⟩
  · cases ht
    exact hidle 1 d (by decide)
  · cases ht
    rfl
  · cases ht
    exact hcurrent 2 1 d (by decide) hd
  cases ht
  refine ⟨rfl, fun q => not_waitsIn_of_head ?_⟩
  by_cases e : q = .other 0
  · rw [e]
    rfl
  · change update (update (fun _ => none) (QueueId.other 0) _) _ _ q = none
    rw [update_of_ne e, update_of_ne e]

/-- There the queues are sound. -/
theorem schedQueues_waitAndWake : Integrity (scheduler.exec booted waitAndWake) :=
  schedQueues (Machine.Reach.exec (.start booted_boots) waitAndWake_keeps)

/-- Thread 1 waits; an alarm of it expires on the other CPU. -/
def waitAndAlarm : List (CpuId × Op) :=
  [(0, .putBack), (0, .takeNext fun _ => true), (0, .waitOn (.other 0)), (1, .expireAlarm 1)]

/-- **Not every run keeps the queues**: the alarm makes thread 1 ready, and the wait queue still
    holds it. -/
theorem schedQueues_refuted : ¬ ∀ s, scheduler.Reachable s → Integrity s := by
  intro hall
  obtain ⟨W, R, h⟩ := hall _ (Machine.Reachable.exec (.start booted_boots) waitAndAlarm)
  have hhead : (scheduler.exec booted waitAndAlarm).waits.head (.other 0) = some 1 := rfl
  have hstate : (scheduler.exec booted waitAndAlarm).state 1 = .Ready := rfl
  have hmem : 1 ∈ W (.other 0) := mem_of_head? ((h.waits.linked (.other 0)).head.symm.trans hhead)
  rw [h.blocked hmem] at hstate
  cases hstate

end Zigk.Sched
