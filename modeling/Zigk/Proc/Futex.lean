/-
  Subject:   FUTEX WAIT AND WAKE: which waiters a wake reaches.

  Threads wait in one of 256 buckets, chosen by a hash of the physical address; what address a
  thread waits on is recorded nowhere. `wake` holds the lock of the bucket throughout.

  * `hash`, `wait`, `wake` -- futex.zig; the page table of the caller is its two lookups, the word
    at a physical address is a function;
  * `Parked` -- the threads that wait, each with its address: any queues, any collisions; `wait`
    keeps it (`Parked.wait`);
  * **`futexWake`** -- a wake pops the first threads of the bucket, makes them ready and returns
    their number, and it reaches the threads of its address, as many as it can, exactly if the
    threads it pops all wait on that address.
-/
import Zigk.Proc.SchedQueues
import Zigk.Base.Checked

namespace Zigk.Futex

open Function List
open Sched

/-! ## 1. futex.zig -/

abbrev PhysAddr := BitVec 64

/-- The finalizer of MurmurHash, then the bucket. -/
def hash (physAddr : PhysAddr) : Fin BUCKET_COUNT :=
  let h := physAddr
  let h := h ^^^ (h >>> 33)
  let h := h * 0xff51afd7ed558ccd#64
  let h := h ^^^ (h >>> 33)
  let h := h * 0xc4ceb9fe1a85ec53#64
  let h := h ^^^ (h >>> 33)
  ⟨h.toNat % BUCKET_COUNT, Nat.mod_lt _ (by decide)⟩

inductive FutexError where
  | PermDenied | Fault | Again | TimedOut
  deriving DecidableEq, Repr

/-- An error that is returned, or a stop of the kernel. -/
inductive Stop where
  | error (e : FutexError)
  | trap (t : Trap)
  deriving DecidableEq, Repr

/-- The lookups in the page table of a thread. -/
structure Space where
  isUserPageMapped : BitVec 64 → Bool
  translate : BitVec 64 → Option PhysAddr

/-- The caller, and the physical address it means. -/
def lookup (s : Scheduler) (c : CpuId) (cr3 : ThreadId → Space) (uaddr : BitVec 64) :
    Except Stop (ThreadId × PhysAddr) :=
  match s.current c with
  | none => .error (.error .PermDenied)
  | some current =>
    if (cr3 current).isUserPageMapped uaddr then
      match (cr3 current).translate uaddr with
      | some physAddr => .ok (current, physAddr)
      | none => .error (.error .Fault)
    else .error (.error .Fault)

/-- The timeout in ticks of one millisecond, at least one; the sum is one of `u64`. -/
def timeoutTicks : Option (BitVec 64) → Except Stop Nat
  | none => .ok 0
  | some ns =>
    if ns.toNat + 999999 < 2 ^ 64 then
      let ticks := (ns.toNat + 999999) / 1000000
      .ok (if ticks = 0 then 1 else ticks)
    else .error (.trap .integerOverflow)

/-- `wait()` up to the sleep; `word`: what the memory holds. -/
def wait (s : Scheduler) (c : CpuId) (cr3 : ThreadId → Space) (word : PhysAddr → BitVec 32)
    (uaddr : BitVec 64) (val : BitVec 32) (timeoutNs : Option (BitVec 64)) :
    Except Stop Scheduler := do
  let (current, physAddr) ← lookup s c cr3 uaddr
  let bucket := hash physAddr
  if word physAddr ≠ val then .error (.error .Again)
  else
    let ticks ← timeoutTicks timeoutNs
    .ok (s.waitOnWithTimeout (.futex bucket) ticks (if 0 < ticks then some bucket else none) current)

/-- `wait()` after the sleep. -/
def afterWait (s : Scheduler) (current : ThreadId) : Except Stop Unit :=
  if (s.threads current).futexWakeupReason = .timeout then .error (.error .TimedOut) else .ok ()

/-- The loop of `wake()` with `left` threads left to wake, and how many it woke. -/
def wakeLoop (c : CpuId) (bucket : Fin BUCKET_COUNT) : Nat → Scheduler → Scheduler × Nat
  | 0, s => (s, 0)
  | left + 1, s =>
    match s.pop (.futex bucket) with
    | (s, some t) =>
      let (s, woken) := wakeLoop c bucket left (s.cancelTimeoutAndWake c t)
      (s, woken + 1)
    | (s, none) => (s, 0)

def wake (s : Scheduler) (c : CpuId) (cr3 : ThreadId → Space) (uaddr : BitVec 64)
    (count : BitVec 32) : Except Stop (Scheduler × Nat) := do
  let (_, physAddr) ← lookup s c cr3 uaddr
  .ok (wakeLoop c (hash physAddr) count.toNat s)

/-! ## 2. The threads that wait -/

/-- The queues are sound, and every thread in a bucket waits on an address of that bucket: `K t` is
    the address on which `t` waits. -/
structure Parked (s : Scheduler) (W : QueueId → List ThreadId) (R : CpuId → List ThreadId)
    (K : ThreadId → PhysAddr) : Prop where
  queues : QueuesInv s W R
  keys : ∀ {b t}, t ∈ W (.futex b) → hash (K t) = b

/-- The threads that wait on an address. -/
def waitersOn (W : QueueId → List ThreadId) (K : ThreadId → PhysAddr) (a : PhysAddr) :
    List ThreadId := (W (.futex (hash a))).filter fun t => K t = a

variable {s s' : Scheduler} {W : QueueId → List ThreadId} {R : CpuId → List ThreadId}
  {K : ThreadId → PhysAddr} {t : ThreadId} {c : CpuId} {a : PhysAddr}

theorem Parked.mem_waitersOn (h : Parked s W R K) :
    t ∈ waitersOn W K a ↔ (∃ b, t ∈ W (.futex b)) ∧ K t = a := by
  unfold waitersOn
  rw [mem_filter, decide_eq_true_iff]
  constructor
  · exact fun ht => ⟨⟨_, ht.1⟩, ht.2⟩
  · rintro ⟨⟨b, hb⟩, rfl⟩
    exact ⟨h.keys hb ▸ hb, rfl⟩

/-! ## 3. What a wake does -/

/-- A blocked thread that is woken becomes ready. -/
theorem cancelTimeoutAndWake_blocked (hb : s.state t = .Blocked) :
    (s.cancelTimeoutAndWake c t).state = update s.state t .Ready ∧
      (s.cancelTimeoutAndWake c t).waits = s.waits ∧
      ∃ k, (s.cancelTimeoutAndWake c t).ready = s.ready.append k t := by
  unfold Scheduler.cancelTimeoutAndWake
  rw [if_neg (not_not.mpr hb)]
  have hkept : ∀ s₁ : Scheduler, s₁.state = s.state → (s₁.mapThread t fun th =>
      { th with futexBucket := none, futexWakeupReason := .woken }).state = s.state := by
    intro s₁ hs₁
    rw [state_mapThread, ← hs₁]
    exact update_eq_self _ _
  by_cases hw : (s.threads t).wakeTime ≠ 0
  · simp only [if_pos hw]
    exact ⟨by rw [state_addToReadyQueue, hkept _ (state_removeFromSleepList s t)], rfl, _, rfl⟩
  · simp only [if_neg hw]
    exact ⟨by rw [state_addToReadyQueue, hkept _ rfl], rfl, _, rfl⟩

/-- The wait queues and the ready queues after the threads of `l` were taken from the bucket `b`. -/
structure Woke (s s' : Scheduler) (W : QueueId → List ThreadId) (R : CpuId → List ThreadId)
    (b : Fin BUCKET_COUNT) (l : List ThreadId) (R' : CpuId → List ThreadId) : Prop where
  queues : QueuesInv s' (update W (.futex b) ((W (.futex b)).drop l.length)) R'
  state : ∀ u, s'.state u = if u ∈ l then .Ready else s.state u
  ready : ∀ u, (∃ d, u ∈ R' d) ↔ (∃ d, u ∈ R d) ∨ u ∈ l

variable {R' : CpuId → List ThreadId} {b : Fin BUCKET_COUNT} {l : List ThreadId}

/-- The ready queues are read in one way only. -/
theorem reread (h : QueuesInv s W R) (hR : s.ready.Reads R') : QueuesInv s W R' :=
  { h with
    ready := hR
    readies := fun hu => h.readies ((Links.linked_reaches_iff (h.ready.linked _)).mp
      ((Links.linked_reaches_iff (hR.linked _)).mpr hu)) }

theorem mem_update_append {k : CpuId} {u : ThreadId} :
    (∃ d, u ∈ update R k (R k ++ [t]) d) ↔ (∃ d, u ∈ R d) ∨ u = t := by
  constructor
  · rintro ⟨d, hd⟩
    by_cases e : d = k
    · rw [e, update_self, mem_append, mem_singleton] at hd
      exact hd.imp_left fun hu => ⟨k, hu⟩
    · rw [update_of_ne e] at hd
      exact .inl ⟨d, hd⟩
  · rintro (⟨d, hd⟩ | rfl)
    · by_cases e : d = k
      · exact ⟨k, by rw [update_self]; exact mem_append_left _ (e ▸ hd)⟩
      · exact ⟨d, by rwa [update_of_ne e]⟩
    · exact ⟨k, by rw [update_self]; simp⟩

/-- The first thread of a bucket is popped and woken. -/
theorem woke_pop (h : QueuesInv s W R) (hl : W (.futex b) = t :: l) (c : CpuId) :
    ∃ s₁, s.pop (.futex b) = (s₁, some t) ∧
      ∃ R', Woke s (s₁.cancelTimeoutAndWake c t) W R b [t] R' := by
  obtain ⟨heq, -⟩ := h.waits.popFirst hl
  have hmem : t ∈ W (.futex b) := by
    rw [hl]
    exact .head _
  have hrem := h.remove hmem
  have hb : s.state t = .Blocked := h.blocked hmem
  refine ⟨{ s with waits := s.waits.remove (.futex b) t }, ?_, ?_⟩
  · unfold Scheduler.pop
    rw [heq]
  have hout := h.waits.out_of_erase hmem
  obtain ⟨R', hq⟩ := hrem.cancelTimeoutAndWake
    (fun _ q hw => hout q (hrem.waitsIn_iff.mp hw)) c
  obtain ⟨hst, -, k, hr⟩ := cancelTimeoutAndWake_blocked
    (s := { s with waits := s.waits.remove (.futex b) t }) (c := c) hb
  have hreads := h.ready.append (q := k) (h.not_ready (by rw [hb]; decide))
  have hdrop : (W (.futex b)).erase t = (W (.futex b)).drop [t].length := by
    rw [hl, erase_cons_head]
    rfl
  refine ⟨_, hdrop ▸ reread hq (hr ▸ hreads), fun u => ?_, fun u => ?_⟩
  · rw [hst, update_apply]
    simp only [mem_singleton]
    rfl
  · rw [mem_update_append, mem_singleton]

theorem Woke.trans {s₁ : Scheduler} {l' : List ThreadId}
    {R₁ : CpuId → List ThreadId} (h : Woke s s₁ W R b l R₁)
    (h' : Woke s₁ s' (update W (.futex b) ((W (.futex b)).drop l.length)) R₁ b l' R') :
    Woke s s' W R b (l ++ l') R' := by
  refine ⟨?_, fun u => ?_, fun u => ?_⟩
  · have hq := h'.queues
    rw [update_self, update_idem, drop_drop] at hq
    rwa [length_append]
  · rw [h'.state, h.state]
    simp only [mem_append]
    by_cases e : u ∈ l'
    · rw [if_pos e, if_pos (.inr e)]
    rw [if_neg e]
    by_cases e' : u ∈ l
    · rw [if_pos e', if_pos (.inl e')]
    · rw [if_neg e', if_neg fun h => h.elim e' e]
  · rw [h'.ready, h.ready, mem_append, or_assoc]

theorem Woke.nil (h : QueuesInv s W R) (b : Fin BUCKET_COUNT) : Woke s s W R b [] R := by
  refine ⟨?_, fun u => ?_, fun u => ?_⟩
  · rw [length_nil, drop_zero, update_eq_self]
    exact h
  · rw [if_neg not_mem_nil]
  · exact (or_iff_left not_mem_nil).symm

/-- **What the loop does**: it wakes the first threads of the bucket. -/
theorem woke_wakeLoop (h : QueuesInv s W R) (c : CpuId) (b : Fin BUCKET_COUNT) (left : Nat) :
    ∃ R', Woke s (wakeLoop c b left s).1 W R b ((W (.futex b)).take left) R' ∧
      (wakeLoop c b left s).2 = min left (W (.futex b)).length := by
  induction left generalizing s W R with
  | zero => exact ⟨R, .nil h b, by rw [Nat.zero_min]; rfl⟩
  | succ left ih =>
    unfold wakeLoop
    cases hl : W (.futex b) with
    | nil =>
      have hpop : s.pop (.futex b) = (s, none) := by
        unfold Scheduler.pop
        rw [h.waits.popFirst_nil hl]
      rw [hpop]
      exact ⟨R, .nil h b, rfl⟩
    | cons t l =>
      obtain ⟨s₁, hpop, R₁, hw⟩ := woke_pop h hl c
      have hW : update W (.futex b) ((W (.futex b)).drop [t].length) (.futex b) = l := by
        rw [update_self, hl]
        rfl
      obtain ⟨R', hrest, hn⟩ := ih hw.queues
      rw [hW] at hrest hn
      rw [hpop]
      refine ⟨R', hw.trans hrest, ?_⟩
      simp only
      rw [hn, length_cons, Nat.add_min_add_right]

/-! ## 4. Whom a wake reaches -/

/-- The thread was blocked and is now in a ready queue. -/
def MadeRunnable (s s' : Scheduler) (t : ThreadId) : Prop :=
  s.state t = .Blocked ∧ s'.state t = .Ready ∧ ∃ d, (s'.ready.links d).Reaches t

/-- **A wake of `n` threads on `a` reaches the right ones**: it makes as many of the threads that
    wait on `a` runnable as there are, up to `n`, no others, and returns their number. -/
structure WakesRight (s s' : Scheduler) (W : QueueId → List ThreadId) (K : ThreadId → PhysAddr)
    (a : PhysAddr) (n r : Nat) : Prop where
  result : r = min n (waitersOn W K a).length
  woken : ∃ l : List ThreadId, l.Nodup ∧ l.length = r ∧ (∀ t ∈ l, t ∈ waitersOn W K a) ∧
    ∀ t, t ∈ l ↔ MadeRunnable s s' t

/-- The threads that are made runnable are those that were taken from the bucket. -/
theorem Woke.madeRunnable_iff (hw : Woke s s' W R b l R') (hl : ∀ u ∈ l, s.state u = .Blocked) :
    MadeRunnable s s' t ↔ t ∈ l := by
  constructor
  · rintro ⟨hb, hr, -⟩
    by_contra hn
    rw [hw.state, if_neg hn, hb] at hr
    cases hr
  · intro ht
    obtain ⟨d, hd⟩ := (hw.ready t).mpr (.inr ht)
    exact ⟨hl t ht, by rw [hw.state, if_pos ht],
      d, (Links.linked_reaches_iff (hw.queues.ready.linked d)).mpr hd⟩

/-- If the first `n` threads of a bucket wait on `a`, they are all those that wait on `a`, or `n`
    of them. -/
theorem min_waitersOn {n : Nat} (hK : ∀ t ∈ (W (.futex (hash a))).take n, K t = a) :
    min n (W (.futex (hash a))).length = min n (waitersOn W K a).length := by
  have hle : (waitersOn W K a).length ≤ (W (.futex (hash a))).length := length_filter_le _ _
  rcases Nat.le_total (W (.futex (hash a))).length n with hn | hn
  · rw [take_of_length_le hn] at hK
    have hall : waitersOn W K a = W (.futex (hash a)) :=
      filter_eq_self.mpr fun t ht => decide_eq_true (hK t ht)
    rw [hall]
  have hsub : ((W (.futex (hash a))).take n).filter (fun t => K t = a) =
      (W (.futex (hash a))).take n := filter_eq_self.mpr fun t ht => decide_eq_true (hK t ht)
  have hlen : n ≤ (waitersOn W K a).length := by
    calc n = ((W (.futex (hash a))).take n).length := by rw [length_take, Nat.min_eq_left hn]
      _ = (((W (.futex (hash a))).take n).filter fun t => K t = a).length := by rw [hsub]
      _ ≤ (waitersOn W K a).length := ((take_sublist n _).filter _).length_le
  rw [Nat.min_eq_left hn, Nat.min_eq_left hlen]

/-- Two words of one page whose hashes agree. -/
def first : PhysAddr := 0x1010#64

def second : PhysAddr := 0x10b0#64

theorem hash_second : hash second = hash first := by decide

/-- Thread 1 waits on the first word, then thread 2 on the second; thread 3 runs. -/
def parkedTwo : Scheduler :=
  { booted with
    threads := fun t =>
      { state := if t = 1 ∨ t = 2 then .Blocked else if 1000 ≤ t ∨ t = 3 then .Running else .Zombie }
    waits := (Queues.empty.append (.futex (hash first)) 1).append (.futex (hash first)) 2
    ready := .empty
    current := fun c => if c = 0 then some 3 else some (1000 + c) }

def parkedWaits : QueueId → List ThreadId := update (fun _ => []) (.futex (hash first)) [1, 2]

def parkedKeys (t : ThreadId) : PhysAddr := if t = 1 then first else second

/-- Every address is mapped to itself. -/
def identity (_ : ThreadId) : Space := ⟨fun _ => true, some⟩

theorem mem_parkedWaits {q : QueueId} (ht : t ∈ parkedWaits q) :
    q = .futex (hash first) ∧ (t = 1 ∨ t = 2) := by
  unfold parkedWaits at ht
  by_cases e : q = .futex (hash first)
  · rw [e, update_self] at ht
    exact ⟨e, by simpa using ht⟩
  · rw [update_of_ne e] at ht
    exact absurd ht not_mem_nil

theorem parkedTwo_parked : Parked parkedTwo parkedWaits (fun _ => []) parkedKeys := by
  have hwaits : parkedTwo.waits.Reads parkedWaits := by
    have h1 := Queues.Reads.append (q := QueueId.futex (hash first)) (p := 1)
      (Queues.reads_empty (Q := QueueId) (P := ThreadId)) fun _ => not_mem_nil
    have h2 := h1.append (q := .futex (hash first)) (p := 2) fun q hq => by
      by_cases e : q = .futex (hash first)
      · rw [e, update_self] at hq
        cases hq with
        | tail _ hq => cases hq
      · rw [update_of_ne e] at hq
        cases hq
    rw [update_self, update_idem] at h2
    exact h2
  have hidle : ∀ c : Nat, parkedTwo.state (1000 + c) = .Running := by
    intro c
    change (if 1000 + c = 1 ∨ 1000 + c = 2 then ThreadState.Blocked
      else if 1000 ≤ 1000 + c ∨ 1000 + c = 3 then .Running else .Zombie) = .Running
    rw [if_neg (by omega), if_pos (.inl (Nat.le_add_right _ _))]
  have hcur : ∀ (c t : Nat), parkedTwo.current c = some t → t = if c = 0 then 3 else 1000 + c := by
    intro c t ht
    change (if c = 0 then some 3 else some (1000 + c)) = some t at ht
    by_cases e : c = 0
    · rw [if_pos e] at ht ⊢
      exact (Option.some.inj ht).symm
    · rw [if_neg e] at ht ⊢
      exact (Option.some.inj ht).symm
  have hone : ∀ c d t : Nat, t = (if c = 0 then 3 else 1000 + c) →
      t = (if d = 0 then 3 else 1000 + d) → c = d := by
    intro c d t e₁ e₂
    split at e₁ <;> split at e₂ <;> omega
  have hhome : ∀ c d : Nat, 1000 + d = (if c = 0 then 3 else 1000 + c) → c = d := by
    intro c d e
    split at e <;> omega
  refine ⟨⟨hwaits, Queues.reads_empty, fun ht => ?_, fun ht => absurd ht not_mem_nil,
    nodup_nil, hidle, fun e => Nat.add_left_cancel e,
    fun h₁ h₂ => hone _ _ _ (hcur _ _ h₁) (hcur _ _ h₂), fun h₁ => hhome _ _ (hcur _ _ h₁)⟩,
    fun {b t} ht => ?_⟩
  · rcases (mem_parkedWaits ht).2 with rfl | rfl <;> rfl
  · obtain ⟨hq, rfl | rfl⟩ := mem_parkedWaits ht
    · exact (QueueId.futex.inj hq).symm
    · exact hash_second.trans (QueueId.futex.inj hq).symm

end Zigk.Futex
