/-
  Subject:   QUEUED SIGNALS OF A THREAD: the ring of entries beside the mask of pending bits.

  Five paths put an entry into the ring and set the bit, three take the bit away with one entry, and
  one (`tryDequeueSignal`) leaves the bit where a real-time signal has more entries.

  * `items_enqueue`, `items_removeAt`, `dequeueBySignal_spec` -- what the ring operations do to the
    list of the entries: the entry goes to the end, and the FIRST one of a number is taken;
  * `QueueInv` -- **per number, what was queued is what was taken followed by what is in the ring,
    and an entry in the ring has its bit**;
  * `Drains`, `Fits` -- the condition on a step: it does not take the bit from a number of which a
    further entry stays, and a real-time entry finds room in the ring;
  * **`signalsQueued`** -- in every run whose steps all meet it, the invariant holds.
-/
import Zigk.Proc.SignalMask

namespace Zigk.Proc

open List Option SigInfoQueue

/-! ## 1. The ring -/

namespace SigInfoQueue

variable {q q' : SigInfoQueue} {i j n : Nat} {info : KernelSigInfo}

theorem length_items (q : SigInfoQueue) : q.items.length = q.count := by
  rw [items, length_map, length_range]

theorem getElem_items (h : i < q.items.length) : q.items[i] = q.entries (q.slot i) := by
  simp only [items, getElem_map, getElem_range]

/-- The places of different entries are different. -/
theorem slot_ne (hi : i < SIGINFO_QUEUE_CAPACITY) (hj : j < SIGINFO_QUEUE_CAPACITY) (h : i ≠ j) :
    q.slot i ≠ q.slot j := by
  have := q.head_lt
  unfold slot SIGINFO_QUEUE_CAPACITY at *
  omega

theorem items_enqueue (h : q.enqueue info = some q') : q'.items = q.items ++ [info] := by
  unfold enqueue at h
  split at h
  · cases h
  next hc =>
    cases h
    have hlt : q.count < SIGINFO_QUEUE_CAPACITY := Nat.lt_of_not_le hc
    have htail : q.slot q.count = q.tail := q.tail_eq.symm
    refine ext_getElem (by simp [length_items]) fun k h₁ h₂ => ?_
    rw [getElem_items]
    rw [length_items] at h₁
    by_cases hk : k = q.count
    · subst hk
      rw [getElem_append_right (by rw [length_items])]
      simp only [length_items, Nat.sub_self, getElem_singleton]
      exact if_pos htail
    · have hk' : k < q.count := by dsimp only at h₁; omega
      rw [getElem_append_left (by rwa [length_items]), getElem_items]
      exact if_neg fun e => slot_ne (q := q) (by omega) hlt hk (e.trans htail.symm)

/-- After the loop from `i` on over `n` places. -/
theorem compact_slot (entries : Nat → KernelSigInfo) (hn : i + n < SIGINFO_QUEUE_CAPACITY)
    (hj : j < SIGINFO_QUEUE_CAPACITY) :
    q.compact entries i n (q.slot j) =
      if i ≤ j ∧ j < i + n then entries (q.slot (j + 1)) else entries (q.slot j) := by
  induction n generalizing entries i with
  | zero => rw [compact, if_neg (by omega)]
  | succ n ih =>
    rw [compact, ih _ (by omega)]
    by_cases hij : i = j
    · subst hij
      rw [if_neg (by omega), if_pos rfl, if_pos (by omega)]
    have hsj : q.slot j ≠ q.slot i := slot_ne hj (by omega) (Ne.symm hij)
    by_cases hlt : i + 1 ≤ j ∧ j < i + 1 + n
    · have hs : q.slot (j + 1) ≠ q.slot i := slot_ne (by omega) (by omega) (by omega)
      rw [if_pos hlt, if_neg hs, if_pos (by omega)]
    · rw [if_neg hlt, if_neg hsj, if_neg (by omega)]

theorem items_removeAt (hi : i < q.count) : (q.removeAt i).items = q.items.eraseIdx i := by
  have hle := q.count_le
  have hlen : (q.items.eraseIdx i).length = q.count - 1 := by
    rw [length_eraseIdx_of_lt (by rwa [length_items]), length_items]
  refine ext_getElem (by rw [length_items, hlen]; rfl) fun k h₁ h₂ => ?_
  rw [hlen] at h₂
  rw [getElem_items]
  show q.compact q.entries i (q.count - 1 - i) (q.slot k) = _
  rw [compact_slot _ (by omega) (by omega), getElem_eraseIdx]
  by_cases hk : k < i
  · rw [if_neg (by omega), dif_pos hk, getElem_items]
  · rw [if_pos (by omega), dif_neg hk, getElem_items]

/-- The entries with a number. -/
def queuedOf (l : List KernelSigInfo) (n : Nat) : List KernelSigInfo := l.filter fun e => e.signo = n

theorem findSignal_none : q.findSignal n = none ↔ queuedOf q.items n = [] := by
  rw [findSignal, find?_eq_none, queuedOf, filter_eq_nil_iff]
  simp [items]

/-- **The first entry with the number is taken**, and no other entry is touched. -/
theorem dequeueBySignal_spec (q : SigInfoQueue) (n m : Nat) : queuedOf q.items m =
      (if m = n then (q.dequeueBySignal n).1.toList else []) ++
        queuedOf (q.dequeueBySignal n).2.items m := by
  cases hi : q.findSignal n with
  | none =>
    have hd : q.dequeueBySignal n = (none, q) := by rw [dequeueBySignal, hi]
    simp [hd]
  | some i =>
    have hd : q.dequeueBySignal n = (some (q.entries (q.slot i)), q.removeAt i) := by
      rw [dequeueBySignal, hi]
    rw [findSignal, find?_range_eq_some] at hi
    obtain ⟨hn, hlt, hbefore⟩ := hi
    rw [mem_range] at hlt
    have hlen : i < q.items.length := by rwa [length_items]
    have hsigno : (q.items[i]).signo = n := by rw [getElem_items]; simpa using hn
    have htake : queuedOf (q.items.take i) n = [] := by
      rw [queuedOf, filter_eq_nil_iff]
      intro e he
      obtain ⟨k, hk, rfl⟩ := mem_iff_getElem.mp he
      rw [length_take] at hk
      rw [getElem_take, getElem_items]
      simpa using hbefore k (by omega)
    have hitems : q.items = q.items.take i ++ q.items[i] :: q.items.drop (i + 1) := by
      rw [getElem_cons_drop, take_append_drop]
    rw [hd]
    show queuedOf q.items m = (if m = n then [q.entries (q.slot i)] else []) ++
      queuedOf (q.removeAt i).items m
    rw [items_removeAt hlt, eraseIdx_eq_take_drop_succ, ← getElem_items hlen]
    conv_lhs => rw [hitems]
    unfold queuedOf at *
    rw [filter_append, filter_cons, filter_append]
    by_cases hm : m = n
    · subst hm
      rw [htake]
      simp [hsigno]
    · have hne : ¬ (q.items[i]).signo = m := fun e => hm (e.symm.trans hsigno)
      simp [hm, hne]

theorem dequeueBySignal_none (h : (q.dequeueBySignal n).1 = none) : queuedOf q.items n = [] := by
  refine findSignal_none.mp ?_
  unfold dequeueBySignal at h
  split at h
  · next hf => exact hf
  · cases h

/-- Where one entry at most has the number, none is left. -/
theorem dequeueBySignal_last (h : (queuedOf q.items n).length ≤ 1) :
    queuedOf (q.dequeueBySignal n).2.items n = [] := by
  have hs := dequeueBySignal_spec q n n
  rw [if_pos rfl] at hs
  cases hd : (q.dequeueBySignal n).1 with
  | none =>
    rw [hd, dequeueBySignal_none hd] at hs
    exact hs.symm
  | some e =>
    rw [hd] at hs
    rw [hs] at h
    exact length_eq_zero_iff.mp (by simpa using h)

/-- What is taken under a number has that number. -/
theorem dequeueBySignal_signo {e : KernelSigInfo} (h : (q.dequeueBySignal n).1 = some e) :
    e.signo = n := by
  have hs := dequeueBySignal_spec q n n
  rw [if_pos rfl, h] at hs
  have : e ∈ queuedOf q.items n := by rw [hs]; exact .head _
  simpa using (mem_filter.mp this).2

theorem hasSignal_iff : q.hasSignal n = true ↔ queuedOf q.items n ≠ [] := by
  rw [hasSignal, isSome_iff_ne_none, Ne, findSignal_none]

end SigInfoQueue

open SigInfoQueue (queuedOf)

/-! ## 2. The events of a thread -/

/-- The system calls that only touch masks, actions and frames. -/
def SigOp.isCall : SigOp → Bool
  | .sigprocmask _ _ _ _ _ | .sigaction _ _ _ _ _ | .sigsuspend _ _ _ | .woken | .sigreturn _ _ _ => true
  | _ => false

inductive QueueEvent where
  /-- kill, tkill, tgkill and the signals of the kernel itself. -/
  | send (signum : Nat) (info : Option KernelSigInfo)
  /-- rt_sigqueueinfo and rt_tgsigqueueinfo. -/
  | queueInfo (signum : Nat) (info : KernelSigInfo)
  /-- A POSIX timer expires. -/
  | timer (signo : Nat) (value : Word)
  /-- alarm and the interval timers set the bit only. -/
  | alarm (signum : Nat)
  | interrupt (c : Cpu) (cr2 : Word) (m : ByteMemory) (f : InterruptFrame)
  | syscallExit (c : Cpu) (m : ByteMemory) (f : SyscallFrame)
  | sigtimedwait (waitSet : SigSet)
  | signalfdRead (mask : SigSet)
  | call (o : SigOp)

/-- What every caller checks before it sends. -/
def validSignal (signum : Nat) : Bool := 0 < signum && signum ≤ 64

/-- Callers fill in the number themselves. -/
def filled (signum : Nat) (info : KernelSigInfo) : KernelSigInfo := { info with signo := signum }

/-- A send: its entry, the thread afterwards, and whether it reports success. -/
def sending (t : SigThread) : QueueEvent → Option (KernelSigInfo × SigThread × Bool)
  | .send signum info =>
    if validSignal signum then
      some ((info.map (filled signum)).getD ⟨signum, SI_KERNEL, 0, 0, 0, 0⟩,
        deliverSignalToThreadWithInfo t signum (info.map (filled signum)), true)
    else none
  | .queueInfo signum info =>
    if validSignal signum then
      some (filled signum info, (queueSignal t signum (filled signum info)).1,
        (queueSignal t signum (filled signum info)).2.isOk)
    else none
  | .timer signo value =>
    if validSignal signo then
      some (⟨signo, SI_TIMER, 0, 0, value, 0⟩, posixTimerSignal t signo value, true)
    else none
  | _ => none

namespace Task

def runQueue (k : Task) (e : QueueEvent) : Except Stop Task :=
  match e with
  | .send _ _ | .queueInfo _ _ | .timer _ _ =>
    match sending k.thread e with
    | some (_, t, _) => .ok (k.withThread t)
    | none => .ok k
  | .alarm signum =>
    .ok (if validSignal signum then k.withThread (wake (setPending k.thread signum)) else k)
  | .interrupt c cr2 m f => k.run (.interrupt c cr2 m f)
  | .syscallExit c m f => k.run (.syscallExit c m f)
  | .sigtimedwait waitSet =>
    match tryDequeueSignal k.thread waitSet with
    | some (_, t) => .ok (k.withThread t)
    | none => .ok k
  | .signalfdRead mask =>
    match signalfdTake k.thread mask with
    | some (_, _, t) => .ok (k.withThread t)
    | none => .ok k
  | .call o => if o.isCall then k.run o else .ok k

end Task

/-- One thread; `none` where it has ended. -/
def queueMachine : Machine (Option Task) QueueEvent where
  start s := ∃ t, s = some (newTask t)
  step s e := s.bind fun k => (k.runQueue e).toOption

/-- A consumption: the number, and the entry that was found under it. -/
def consuming (t : SigThread) : QueueEvent → Option (Nat × Option KernelSigInfo)
  | .interrupt _ _ _ _ | .syscallExit _ _ _ => (takeSignal t).map fun r => (r.1, r.2.1)
  | .sigtimedwait waitSet =>
    (tryDequeueSignal t waitSet).map fun r =>
      (r.1.signo, (t.siginfoQueue.dequeueBySignal r.1.signo).1)
  | .signalfdRead mask => (signalfdTake t mask).map fun r => (r.1, r.2.1)
  | _ => none

/-- What happened to the thread's signals so far. -/
structure SignalHistory where
  /-- The entries of the sends that reported success. -/
  sent : List KernelSigInfo := []
  /-- Those that went into the ring. -/
  queued : List KernelSigInfo := []
  /-- Those that a handler call, a sigtimedwait or a signalfd read took. -/
  taken : List KernelSigInfo := []

open SignalHistory

namespace SignalHistory

/-- A send in the history: its entry is in the ring if the ring grew. -/
def addSend (h : SignalHistory) (t : SigThread) : KernelSigInfo × SigThread × Bool → SignalHistory
  | (info, t', success) =>
    let admitted := t.siginfoQueue.count < t'.siginfoQueue.count
    { h with
      sent := if success then h.sent ++ [info] else h.sent
      queued := if admitted then h.queued ++ [info] else h.queued }

def update (h : SignalHistory) (s : Option Task) (e : QueueEvent) : SignalHistory :=
  match s with
  | none => h
  | some k =>
    match sending k.thread e with
    | some r => h.addSend k.thread r
    | none => { h with taken := h.taken ++ ((consuming k.thread e).bind Prod.snd).toList }

end SignalHistory

/-- Only `rt_sigtimedwait` looks for further entries of a real-time signal. -/
def QueueEvent.keepsBit (e : QueueEvent) (n : Nat) : Bool :=
  match e with
  | .sigtimedwait _ => 32 ≤ n
  | _ => false

/-- The consumption leaves no entry of its number behind, or leaves the bit with it. -/
def Drains (s : Option Task) (e : QueueEvent) : Prop :=
  ∀ k ∈ s, ∀ c ∈ consuming k.thread e,
    (queuedOf k.thread.siginfoQueue.items c.1).length ≤ 1 ∨ e.keepsBit c.1 = true

instance (k : Task) (e : QueueEvent) : Decidable (∀ c ∈ consuming k.thread e,
    (queuedOf k.thread.siginfoQueue.items c.1).length ≤ 1 ∨ e.keepsBit c.1 = true) :=
  match h : consuming k.thread e with
  | none => .isTrue nofun
  | some c => decidable_of_iff ((queuedOf k.thread.siginfoQueue.items c.1).length ≤ 1 ∨
      e.keepsBit c.1 = true) (by simp)

instance (s : Option Task) (e : QueueEvent) : Decidable (Drains s e) :=
  match s with
  | none => .isTrue fun _ h => nomatch h
  | some k => decidable_of_iff (∀ c ∈ consuming k.thread e,
      (queuedOf k.thread.siginfoQueue.items c.1).length ≤ 1 ∨ e.keepsBit c.1 = true)
      (by simp [Drains])

/-- A real-time signal whose sender does not hear of a full ring. -/
def QueueEvent.bestEffort : QueueEvent → Bool
  | .send n _ | .timer n _ => 32 ≤ n
  | _ => false

/-- An entry that may not be lost finds room. -/
def Fits (s : Option Task) (e : QueueEvent) : Prop :=
  ∀ k ∈ s, e.bestEffort = true → k.thread.siginfoQueue.count < SIGINFO_QUEUE_CAPACITY

instance (s : Option Task) (e : QueueEvent) : Decidable (Fits s e) :=
  match s with
  | none => .isTrue fun _ h => nomatch h
  | some k => decidable_of_iff (e.bestEffort = true →
      k.thread.siginfoQueue.count < SIGINFO_QUEUE_CAPACITY) (by simp [Fits])

/-- **Every entry is taken once, in the order of the sends of its number, and waits with its bit
    set.** Of the real-time numbers, the sends with success are those that were queued. -/
structure QueueInv (t : SigThread) (h : SignalHistory) : Prop where
  bits (n : Nat) : 0 < n → n ≤ 64 → queuedOf t.siginfoQueue.items n ≠ [] → isPending t n
  fifo (n : Nat) : queuedOf h.queued n = queuedOf h.taken n ++ queuedOf t.siginfoQueue.items n
  sent (n : Nat) : 32 ≤ n → queuedOf h.sent n = queuedOf h.queued n

/-! ## 3. Pending bits -/

variable {t t' t₁ : SigThread} {m n : Nat}

theorem isPending_iff (h0 : 0 < n) (hn : n ≤ 64) :
    isPending t n = true ↔ t.pendingSignals.getLsbD (n - 1) = true := by
  unfold isPending
  rw [decide_eq_true_iff, Ne, and_sigBit_eq_zero hn h0, Bool.not_eq_false]

theorem isPending_setPending (hm0 : 0 < m) (hm : m ≤ 64) (h0 : 0 < n) (hn : n ≤ 64) :
    isPending (setPending t m) n = true ↔ n = m ∨ isPending t n = true := by
  rw [isPending_iff h0 hn, isPending_iff h0 hn, setPending]
  simp only [BitVec.getLsbD_or, getLsbD_sigBit hm hm0, Bool.or_eq_true, decide_eq_true_iff]
  rw [or_comm, show n - 1 = m - 1 ↔ n = m by omega]

/-- A bit that is taken away is the only one. -/
theorem getLsbD_clear {w : Word} {b i : Nat} (hb : b < 64) (hi : i < 64) :
    (w &&& ~~~((1 : Word) <<< b)).getLsbD i = (w.getLsbD i && !decide (i = b)) := by
  have hbit : ((1 : Word) <<< b).getLsbD i = decide (b = i) := by
    have := BitVec.getLsbD_twoPow (w := 64) b i
    rw [BitVec.twoPow] at this
    simpa [hb] using this
  rw [BitVec.getLsbD_and, BitVec.getLsbD_not, hbit]
  by_cases h : i = b
  · subst h
    simp [hi]
  · simp [hi, h, Ne.symm h]

/-- Neither the ring nor the bits change. -/
structure SameQueue (t t' : SigThread) : Prop where
  pending : t'.pendingSignals = t.pendingSignals
  ring : t'.siginfoQueue = t.siginfoQueue

theorem SameQueue.refl (t : SigThread) : SameQueue t t := ⟨rfl, rfl⟩

theorem SameQueue.trans (h : SameQueue t t₁) (h' : SameQueue t₁ t') : SameQueue t t' :=
  ⟨h'.pending.trans h.pending, h'.ring.trans h.ring⟩

theorem SameQueue.isPending (h : SameQueue t t') (n : Nat) : isPending t' n = isPending t n := by
  unfold Proc.isPending
  rw [h.pending]

theorem wake_sameQueue (t : SigThread) : SameQueue t (wake t) := by
  unfold wake
  split_ifs <;> exact ⟨rfl, rfl⟩

theorem resume_sameQueue (t : SigThread) : SameQueue t (resume t) := by
  unfold resume
  dsimp only
  split_ifs <;> exact ⟨rfl, rfl⟩

theorem saveFpu_sameQueue (c : Cpu) (t : SigThread) : SameQueue t (saveFpu c t).2 := by
  unfold saveFpu saveState handleFpuAccess SigThread.withThread
  split_ifs <;> exact ⟨rfl, rfl⟩

theorem restoreSavedMask_sameQueue (t : SigThread) : SameQueue t (restoreSavedMask t) := by
  unfold restoreSavedMask
  split_ifs <;> exact ⟨rfl, rfl⟩

theorem handleDefaultAction_sameQueue (h : handleDefaultAction t n = .ok t') : SameQueue t t' := by
  unfold handleDefaultAction at h
  split at h <;> cases h <;> exact ⟨rfl, rfl⟩

/-- Whatever the disposition, a check only takes a signal. -/
theorem Delivers.sameQueue {c : Cpu} (h : Delivers c t t') :
    (takeSignal t = none ∧ SameQueue t t') ∨
      ∃ n info t₁, takeSignal t = some (n, info, t₁) ∧ SameQueue t₁ t' := by
  cases h with
  | idle h => exact .inl ⟨h, .refl t⟩
  | default h hd ha => exact .inr ⟨_, _, _, h, handleDefaultAction_sameQueue ha⟩
  | ignored h => exact .inr ⟨_, _, _, h, .refl _⟩
  | handled h hd hi =>
    exact .inr ⟨_, _, _, h, (saveFpu_sameQueue c _).trans ⟨rfl, rfl⟩⟩

theorem sysRtSigprocmask_sameQueue {m : ByteMemory} {how set old size : Word} :
    SameQueue t (sysRtSigprocmask t m how set old size).1 := by
  unfold sysRtSigprocmask
  split_ifs
  · exact .refl t
  · cases writeOut m old [t.sigmask] <;> exact .refl t
  cases writeOut m old [t.sigmask] with
  | error e => exact .refl t
  | ok m₁ =>
    dsimp only
    cases readWord m₁ set with
    | none => exact .refl t
    | some new =>
      dsimp only
      cases changeMask how t.sigmask new <;> exact ⟨rfl, rfl⟩

theorem sysRtSigaction_sameQueue {m : ByteMemory} {signum act old size : Word} :
    SameQueue t (sysRtSigaction t m signum act old size).1 := by
  unfold sysRtSigaction
  dsimp only
  split_ifs
  · exact .refl t
  · exact .refl t
  · exact .refl t
  · cases writeOut m old (t.action signum.toNat).toWords <;> exact .refl t
  cases writeOut m old (t.action signum.toNat).toWords with
  | error e => exact .refl t
  | ok m₁ =>
    dsimp only
    cases readWords m₁ act.toNat 4 <;> exact ⟨rfl, rfl⟩

theorem sysRtSigreturn_sameQueue {c c' : Cpu} {m : ByteMemory} {f f' : SyscallFrame}
    (h : sysRtSigreturn c t m f = .ok (c', t', f')) : SameQueue t t' := by
  unfold sysRtSigreturn at h
  obtain ⟨l, -, h⟩ := (Except.bind_ok_iff _ _).mp h
  dsimp only at h
  split_ifs at h
  obtain ⟨⟨c₁, t₁⟩, h₁, h⟩ := (Except.bind_ok_iff _ _).mp h
  cases h
  unfold restoreFpu at h₁
  dsimp only at h₁
  split_ifs at h₁
  · cases h₁
    exact ⟨rfl, rfl⟩
  · obtain ⟨b, -, h₁⟩ := (Except.bind_ok_iff _ _).mp h₁
    cases h₁
    exact ⟨rfl, rfl⟩

theorem call_sameQueue {k k' : Task} {o : SigOp} (ho : o.isCall = true) (h : k.run o = .ok k') :
    SameQueue k.thread k'.thread := by
  cases o with
  | sigprocmask m how set old size =>
    cases h
    exact sysRtSigprocmask_sameQueue
  | sigaction m signum act old size =>
    cases h
    exact sysRtSigaction_sameQueue
  | sigsuspend m mask size =>
    simp only [Task.run, sysRtSigsuspend] at h
    split_ifs at h
    · cases h
      exact .refl _
    · cases hr : readWord m mask <;> rw [hr] at h <;> cases h <;> exact ⟨rfl, rfl⟩
  | woken =>
    simp only [Task.run] at h
    split at h <;> cases h <;> exact ⟨rfl, rfl⟩
  | sigreturn c m f =>
    obtain ⟨⟨c', t', f'⟩, h₁, h⟩ := (Except.bind_ok_iff _ _).mp h
    cases h
    exact sysRtSigreturn_sameQueue h₁
  | interrupt | syscallExit | send | queueInfo | timer => cases ho

/-! ## 4. Sends -/

/-- What a send does: the entry goes into the ring and the bit is set, or the ring stays as it
    is. -/
structure Sends (t : SigThread) (info : KernelSigInfo) (t' : SigThread) (success : Bool) : Prop where
  kept (n : Nat) : 0 < n → n ≤ 64 → isPending t n → isPending t' n
  ring : t'.siginfoQueue = t.siginfoQueue ∨
    (t.siginfoQueue.enqueue info = some t'.siginfoQueue ∧ isPending t' info.signo = true)
  fails : success = false → t'.siginfoQueue = t.siginfoQueue

/-- The bit is set in a thread whose ring may have grown. -/
theorem Sends.of_setPending {info : KernelSigInfo} (t₁ : SigThread) (hn0 : 0 < info.signo) (hn : info.signo ≤ 64)
    (hp : t₁.pendingSignals = t.pendingSignals)
    (hr : t₁.siginfoQueue = t.siginfoQueue ∨ t.siginfoQueue.enqueue info = some t₁.siginfoQueue)
    (hs : SameQueue (setPending t₁ info.signo) t') : Sends t info t' true := by
  have hpend : ∀ k, isPending t₁ k = isPending t k := fun k => by unfold isPending; rw [hp]
  have hring : t'.siginfoQueue = t₁.siginfoQueue := hs.ring
  refine ⟨fun k h0 hk h => ?_, ?_, fun h => nomatch h⟩
  · rw [hs.isPending, isPending_setPending hn0 hn h0 hk, hpend]
    exact .inr h
  rw [hring]
  refine hr.imp_right fun h => ⟨h, ?_⟩
  rw [hs.isPending, isPending_setPending hn0 hn hn0 hn]
  exact .inl rfl

variable {success : Bool} {e : QueueEvent} {h : SignalHistory}

theorem Sends.of_same {info : KernelSigInfo} (h : SameQueue t t') : Sends t info t' success :=
  ⟨fun k _ _ hk => by rw [h.isPending]; exact hk, .inl h.ring, fun _ => h.ring⟩

theorem enqueueOrDrop_or (q : SigInfoQueue) (info : KernelSigInfo) :
    enqueueOrDrop q info = q ∨ q.enqueue info = some (enqueueOrDrop q info) := by
  unfold enqueueOrDrop
  cases h : q.enqueue info with
  | none => exact .inl rfl
  | some q' => exact .inr rfl

theorem deliverSignal_sends {n : Nat} (h0 : 0 < n) (hn : n ≤ 64) (info : Option KernelSigInfo)
    (hi : (info.getD ⟨n, SI_KERNEL, 0, 0, 0, 0⟩).signo = n) :
    Sends t (info.getD ⟨n, SI_KERNEL, 0, 0, 0, 0⟩) (deliverSignalToThreadWithInfo t n info) true := by
  have hres : SameQueue t (if n = SIGCONT then resume t else t) := by
    split_ifs
    · exact resume_sameQueue t
    · exact .refl t
  unfold deliverSignalToThreadWithInfo
  dsimp only
  generalize (if n = SIGCONT then resume t else t) = t₀ at hres
  generalize info.getD ⟨n, SI_KERNEL, 0, 0, 0, 0⟩ = i at hi
  subst hi
  by_cases hstop : stopsThread t₀ i.signo = true
  · rw [if_pos hstop]
    exact .of_same (hres.trans ⟨rfl, rfl⟩)
  rw [if_neg hstop]
  by_cases hq : queues t₀ i.signo = true
  · rw [if_pos hq]
    refine .of_setPending _ h0 hn ?_ ?_ (wake_sameQueue _)
    · exact hres.pending
    · show enqueueOrDrop t₀.siginfoQueue i = _ ∨ _
      rw [hres.ring]
      exact enqueueOrDrop_or _ i
  · rw [if_neg hq]
    exact .of_setPending t₀ h0 hn hres.pending (.inl hres.ring) (wake_sameQueue _)

theorem queueSignal_sends (info : KernelSigInfo) (h0 : 0 < info.signo) (hn : info.signo ≤ 64) :
    Sends t info (queueSignal t info.signo info).1 (queueSignal t info.signo info).2.isOk := by
  unfold queueSignal
  split
  · cases he : t.siginfoQueue.enqueue info with
    | none => exact .of_same (.refl t)
    | some q =>
      exact .of_setPending { t with siginfoQueue := q } h0 hn rfl (.inr he) (wake_sameQueue _)
  · exact .of_setPending t h0 hn rfl (.inl rfl) (wake_sameQueue _)

theorem posixTimer_sends {n : Nat} (h0 : 0 < n) (hn : n ≤ 64) (value : Word) :
    Sends t ⟨n, SI_TIMER, 0, 0, value, 0⟩ (posixTimerSignal t n value) true := by
  have hr := enqueueOrDrop_or t.siginfoQueue ⟨n, SI_TIMER, 0, 0, value, 0⟩
  exact .of_setPending { t with
    siginfoQueue := enqueueOrDrop t.siginfoQueue ⟨n, SI_TIMER, 0, 0, value, 0⟩ } h0 hn rfl hr ⟨rfl, rfl⟩

theorem validSignal_iff {n : Nat} : validSignal n = true ↔ 0 < n ∧ n ≤ 64 := by
  simp [validSignal]

theorem sending_sends {info : KernelSigInfo}
    (h : sending t e = some (info, t', success)) : Sends t info t' success := by
  cases e with
  | send n i =>
    simp only [sending] at h
    split_ifs at h with hv
    obtain ⟨h0, hn⟩ := validSignal_iff.mp hv
    cases h
    refine deliverSignal_sends h0 hn _ ?_
    cases i <;> rfl
  | queueInfo n i =>
    simp only [sending] at h
    split_ifs at h with hv
    obtain ⟨h0, hn⟩ := validSignal_iff.mp hv
    cases h
    exact queueSignal_sends (filled n i) h0 hn
  | timer n value =>
    simp only [sending] at h
    split_ifs at h with hv
    obtain ⟨h0, hn⟩ := validSignal_iff.mp hv
    cases h
    exact posixTimer_sends h0 hn value
  | alarm | interrupt | syscallExit | sigtimedwait | signalfdRead | call => cases h

theorem enqueueOrDrop_count {q : SigInfoQueue} (h : q.count < SIGINFO_QUEUE_CAPACITY)
    (info : KernelSigInfo) : (enqueueOrDrop q info).count = q.count + 1 := by
  rw [enqueueOrDrop, enqueue, dif_neg (Nat.not_le_of_lt h)]
  rfl

theorem stopsThread_realtime (t : SigThread) (h : 32 ≤ n) : stopsThread t n = false := by
  have : n ∉ [SIGSTOP, SIGTSTP, SIGTTIN, SIGTTOU] := by
    simp only [SIGSTOP, SIGTSTP, SIGTTIN, SIGTTOU, mem_cons, not_mem_nil, or_false]
    omega
  simp [stopsThread, this]

theorem queues_realtime (t : SigThread) (h : 32 ≤ n) : queues t n = true := by
  simp [queues, h]

/-- A real-time signal that is sent with success is queued, where it fits. -/
theorem sending_admits {info : KernelSigInfo}
    (h : sending t e = some (info, t', true)) (hrt : 32 ≤ info.signo)
    (hfit : e.bestEffort = true → t.siginfoQueue.count < SIGINFO_QUEUE_CAPACITY) :
    t.siginfoQueue.count < t'.siginfoQueue.count := by
  cases e with
  | send n i =>
    simp only [sending] at h
    split_ifs at h with hv
    have hsigno : info.signo = n := by cases h; cases i <;> rfl
    have ht' : t' = deliverSignalToThreadWithInfo t n (i.map (filled n)) := by cases h; rfl
    rw [hsigno] at hrt
    have hcont : n ≠ SIGCONT := by unfold SIGCONT; omega
    rw [ht', deliverSignalToThreadWithInfo]
    simp only [if_neg hcont, stopsThread_realtime t hrt, queues_realtime t hrt, if_true,
      Bool.false_eq_true, if_false]
    rw [(wake_sameQueue _).ring]
    show _ < (enqueueOrDrop t.siginfoQueue _).count
    rw [enqueueOrDrop_count (hfit (decide_eq_true hrt))]
    exact Nat.lt_succ_self _
  | queueInfo n i =>
    simp only [sending] at h
    split_ifs at h with hv
    simp only [Option.some.injEq, Prod.mk.injEq] at h
    obtain ⟨hinfo, ht', hok⟩ := h
    have hsigno : info.signo = n := by rw [← hinfo]; rfl
    rw [hsigno] at hrt
    unfold queueSignal at ht' hok
    rw [if_pos (queues_realtime t hrt)] at ht' hok
    cases he : t.siginfoQueue.enqueue (filled n i) with
    | none =>
      rw [he] at hok
      cases hok
    | some q =>
      rw [he] at ht'
      rw [← ht', (wake_sameQueue _).ring]
      have := congrArg List.length (items_enqueue he)
      rw [length_append, length_items, length_items] at this
      show _ < q.count
      simp only [length_singleton] at this
      omega
  | timer n value =>
    simp only [sending] at h
    split_ifs at h with hv
    cases h
    show _ < (enqueueOrDrop t.siginfoQueue _).count
    rw [enqueueOrDrop_count (hfit (decide_eq_true hrt))]
    exact Nat.lt_succ_self _
  | alarm | interrupt | syscallExit | sigtimedwait | signalfdRead | call => cases h

section Filters

variable {l : List KernelSigInfo} {info : KernelSigInfo} {k : Nat}

theorem queuedOf_append (l l' : List KernelSigInfo) (k : Nat) :
    queuedOf (l ++ l') k = queuedOf l k ++ queuedOf l' k := filter_append ..

theorem queuedOf_single (info : KernelSigInfo) (k : Nat) :
    queuedOf [info] k = if info.signo = k then [info] else [] := by
  simp [queuedOf, filter_cons]

end Filters

/-- A send keeps the invariant. -/
theorem QueueInv.send {info : KernelSigInfo} (hi : QueueInv t h) (hs : Sends t info t' success)
    (hq : success = true → 32 ≤ info.signo → t.siginfoQueue.count < t'.siginfoQueue.count) :
    QueueInv t' (h.addSend t (info, t', success)) := by
  rcases hs.ring with hr | ⟨hr, hp⟩
  · have hadm : ¬ t.siginfoQueue.count < t'.siginfoQueue.count := by rw [hr]; exact lt_irrefl _
    refine ⟨fun k h0 hk hne => ?_, fun k => ?_, fun k hk => ?_⟩
    · rw [hr] at hne
      exact hs.kept k h0 hk (hi.bits k h0 hk hne)
    · simp only [addSend, hadm, if_false]
      rw [hr]
      exact hi.fifo k
    simp only [addSend, hadm, if_false]
    cases success with
    | false => exact hi.sent k hk
    | true =>
      have hne : info.signo ≠ k := by
        rintro rfl
        exact hadm (hq rfl hk)
      simp only [if_true]
      rw [queuedOf_append, queuedOf_single, if_neg hne, append_nil]
      exact hi.sent k hk
  have hitems := items_enqueue hr
  have hadm : t.siginfoQueue.count < t'.siginfoQueue.count := by
    have := congrArg List.length hitems
    rw [length_append, length_items, length_items] at this
    simp only [length_singleton] at this
    omega
  have hsucc : success = true := by
    cases success with
    | true => rfl
    | false =>
      rw [hs.fails rfl] at hadm
      exact absurd hadm (lt_irrefl _)
  subst hsucc
  refine ⟨fun k h0 hk hne => ?_, fun k => ?_, fun k hk => ?_⟩
  · rw [hitems, queuedOf_append, queuedOf_single] at hne
    by_cases he : info.signo = k
    · exact he ▸ hp
    · rw [if_neg he, append_nil] at hne
      exact hs.kept k h0 hk (hi.bits k h0 hk hne)
  · simp only [addSend, hadm, if_true]
    rw [hitems, queuedOf_append, queuedOf_append, hi.fifo k, append_assoc]
  · simp only [addSend, hadm, if_true]
    rw [queuedOf_append, queuedOf_append, hi.sent k hk]

/-! ## 5. Consumptions -/

/-- What a consumption does: the first entry of the number goes, and so does the bit, unless an
    entry of the number stays. -/
structure Consumes (t : SigThread) (n : Nat) (info : Option KernelSigInfo) (t' : SigThread) :
    Prop where
  info : info = (t.siginfoQueue.dequeueBySignal n).1
  ring : t'.siginfoQueue = (t.siginfoQueue.dequeueBySignal n).2
  others (k : Nat) : 0 < k → k ≤ 64 → k ≠ n → isPending t k → isPending t' k
  bit : isPending t' n = true ∨ queuedOf t'.siginfoQueue.items n = []

theorem QueueInv.consume {info : Option KernelSigInfo} (hi : QueueInv t h)
    (hc : Consumes t n info t') : QueueInv t' { h with taken := h.taken ++ info.toList } := by
  have hspec := fun k => dequeueBySignal_spec t.siginfoQueue n k
  rw [← hc.ring, ← hc.info] at hspec
  refine ⟨fun k h0 hk hne => ?_, fun k => ?_, hi.sent⟩
  · by_cases hkn : k = n
    · subst hkn
      exact hc.bit.resolve_right hne
    · refine hc.others k h0 hk hkn (hi.bits k h0 hk ?_)
      rw [hspec k, if_neg hkn]
      exact hne
  show queuedOf h.queued k = queuedOf (h.taken ++ info.toList) k ++ _
  rw [hi.fifo k, hspec k, queuedOf_append, append_assoc]
  have hinfo : queuedOf info.toList k = if k = n then info.toList else [] := by
    cases hq : info with
    | none => simp [queuedOf]
    | some e =>
      have he := dequeueBySignal_signo (hc.info.symm.trans hq)
      show queuedOf [e] k = _
      rw [queuedOf_single, he]
      by_cases hk : k = n
      · simp [hk]
      · simp [hk, Ne.symm hk]
  rw [hinfo]

/-- Taking the bit `b` away, and the first entry of its number. -/
theorem Consumes.of_clear {b : Nat} (hb : b < 64)
    (hlast : (queuedOf t.siginfoQueue.items (b + 1)).length ≤ 1)
    (hp : t'.pendingSignals = t.pendingSignals &&& ~~~((1 : Word) <<< b))
    (hr : t'.siginfoQueue = (t.siginfoQueue.dequeueBySignal (b + 1)).2) :
    Consumes t (b + 1) (t.siginfoQueue.dequeueBySignal (b + 1)).1 t' := by
  refine ⟨rfl, hr, fun k h0 hk hne hpend => ?_, .inr ?_⟩
  · rw [isPending_iff h0 hk] at hpend ⊢
    rw [hp, getLsbD_clear hb (by omega), hpend]
    simp
    omega
  · rw [hr]
    exact dequeueBySignal_last hlast

theorem takeSignal_consumes {info : Option KernelSigInfo} (h : takeSignal t = some (n, info, t'))
    (hlast : (queuedOf t.siginfoQueue.items n).length ≤ 1) : Consumes t n info t' := by
  unfold takeSignal at h
  dsimp only at h
  split_ifs at h with hp
  cases h
  exact .of_clear (ctz_spec hp).1 hlast rfl rfl

theorem signalfdTake_consumes {mask : SigSet} {info : Option KernelSigInfo}
    (h : signalfdTake t mask = some (n, info, t'))
    (hlast : (queuedOf t.siginfoQueue.items n).length ≤ 1) : Consumes t n info t' := by
  unfold signalfdTake at h
  dsimp only at h
  split_ifs at h with hp
  cases h
  exact .of_clear (ctz_spec hp).1 hlast rfl rfl

/-- A real-time signal keeps its bit where an entry stays. -/
theorem tryDequeueSignal_consumes {waitSet : SigSet} {info : KernelSigInfo}
    (h : tryDequeueSignal t waitSet = some (info, t'))
    (hlast : (queuedOf t.siginfoQueue.items info.signo).length ≤ 1 ∨ 32 ≤ info.signo) :
    Consumes t info.signo (t.siginfoQueue.dequeueBySignal info.signo).1 t' := by
  simp only [tryDequeueSignal] at h
  split at h
  · cases h
  next hp =>
    obtain ⟨hb, hset, -⟩ := ctz_spec hp
    generalize ctz (t.pendingSignals &&& waitSet) = b at h hb hset
    simp only [Option.some.injEq, Prod.mk.injEq] at h
    obtain ⟨hinfo, rfl⟩ := h
    have hsigno : info.signo = b + 1 := by
      rw [← hinfo]
      cases hd : (t.siginfoQueue.dequeueBySignal (b + 1)).1 with
      | none => rfl
      | some e => exact dequeueBySignal_signo hd
    have hpend : isPending t (b + 1) = true := by
      rw [isPending_iff (by omega) (by omega), Nat.add_sub_cancel]
      simp only [BitVec.getLsbD_and, Bool.and_eq_true] at hset
      exact hset.1
    rw [hsigno] at hlast ⊢
    generalize hcl : (if b + 1 ≥ 32 then
      !(t.siginfoQueue.dequeueBySignal (b + 1)).2.hasSignal (b + 1) else true) = clears
    cases clears with
    | false => exact ⟨rfl, rfl, fun k h0 hk hne hkp => hkp, .inl hpend⟩
    | true =>
      refine ⟨rfl, rfl, fun k h0 hk hne hkp => ?_, .inr ?_⟩
      · rw [isPending_iff h0 hk] at hkp ⊢
        show BitVec.getLsbD (t.pendingSignals &&& ~~~((1 : Word) <<< b)) (k - 1) = true
        rw [getLsbD_clear hb (by omega), hkp]
        simp
        omega
      · split at hcl
        · have hn := mt hasSignal_iff.mpr (by simpa using hcl)
          simpa using hn
        · next hrt => exact dequeueBySignal_last (hlast.resolve_right hrt)

/-! ## 6. Every run -/

theorem QueueInv.sameQueue (hi : QueueInv t h) (hs : SameQueue t t') :
    QueueInv t' h := by
  refine ⟨fun k h0 hk hne => ?_, fun k => ?_, hi.sent⟩
  · rw [hs.isPending]
    exact hi.bits k h0 hk (hs.ring ▸ hne)
  · rw [hs.ring]
    exact hi.fifo k

/-- Nothing is sent and nothing is taken. -/
theorem update_none {k : Task} (hs : sending k.thread e = none)
    (hc : consuming k.thread e = none) : h.update (some k) e = h := by
  simp only [update, hs, hc]
  simp

theorem update_consuming {k : Task} {info : Option KernelSigInfo}
    (hs : sending k.thread e = none) (hc : consuming k.thread e = some (n, info)) :
    h.update (some k) e = { h with taken := h.taken ++ info.toList } := by
  simp only [update, hs, hc]
  rfl

theorem QueueInv.delivers {k : Task} {c : Cpu}
    (hi : QueueInv k.thread h) (hd : Drains (some k) e) (hw : ∀ n, e.keepsBit n = false)
    (hs : sending k.thread e = none)
    (hc : consuming k.thread e = (takeSignal k.thread).map fun r => (r.1, r.2.1))
    (hr : Delivers c k.thread t') : QueueInv t' (h.update (some k) e) := by
  rcases hr.sameQueue with ⟨hn, hsame⟩ | ⟨n, info, t₁, ht, hsame⟩
  · rw [update_none hs (by rw [hc, hn]; rfl)]
    exact hi.sameQueue hsame
  have hc' : consuming k.thread e = some (n, info) := by rw [hc, ht]; rfl
  rw [update_consuming hs hc']
  have hlast := (hd k rfl (n, info) hc').resolve_right (by rw [hw]; exact Bool.false_ne_true)
  exact (hi.consume (takeSignal_consumes ht hlast)).sameQueue hsame

/-- **The invariant of a thread is kept by every event that drains and fits.** -/
theorem QueueInv.step {k k' : Task} (hi : QueueInv k.thread h)
    (hd : Drains (some k) e) (hf : Fits (some k) e) (hr : k.runQueue e = .ok k') :
    QueueInv k'.thread (h.update (some k) e) := by
  have hsend : (∃ r, sending k.thread e = some r ∧ k' = k.withThread r.2.1) →
      QueueInv k'.thread (h.update (some k) e) := by
    rintro ⟨⟨info, t', success⟩, hs, rfl⟩
    simp only [update, hs]
    refine hi.send (sending_sends hs) fun hsucc hrt => ?_
    subst hsucc
    exact sending_admits hs hrt (hf k rfl)
  have hsends : ∀ (hc : consuming k.thread e = none), (match sending k.thread e with
      | some (_, t, _) => Except.ok (k.withThread t)
      | none => Except.ok (ε := Stop) k) = .ok k' → QueueInv k'.thread (h.update (some k) e) := by
    intro hc hr
    cases hs : sending k.thread e with
    | none =>
      rw [hs] at hr
      cases hr
      rw [update_none hs hc]
      exact hi
    | some r =>
      rw [hs] at hr
      cases hr
      exact hsend ⟨r, hs, rfl⟩
  cases e with
  | send n info => exact hsends rfl hr
  | queueInfo n info => exact hsends rfl hr
  | timer n value => exact hsends rfl hr
  | alarm n =>
    rw [update_none rfl rfl]
    simp only [Task.runQueue] at hr
    split_ifs at hr with hv
    · obtain ⟨h0, hn⟩ := validSignal_iff.mp hv
      cases hr
      have hs : Sends k.thread ⟨n, 0, 0, 0, 0, 0⟩ (wake (setPending k.thread n)) true :=
        .of_setPending k.thread h0 hn rfl (.inl rfl) (wake_sameQueue _)
      have hring : (k.withThread (wake (setPending k.thread n))).thread.siginfoQueue =
          k.thread.siginfoQueue := (wake_sameQueue (setPending k.thread n)).ring
      refine ⟨fun m hm0 hm hne => ?_, fun m => ?_, hi.sent⟩
      · rw [hring] at hne
        exact hs.kept m hm0 hm (hi.bits m hm0 hm hne)
      · rw [hring]
        exact hi.fifo m
    · cases hr
      exact hi
  | interrupt c cr2 m f =>
    obtain ⟨⟨c', t', m', f'⟩, h₁, hr⟩ := (Except.bind_ok_iff _ _).mp hr
    cases hr
    exact hi.delivers hd (fun _ => rfl) rfl rfl (checkSignals_delivers h₁)
  | syscallExit c m f =>
    obtain ⟨⟨c', t', m', f'⟩, h₁, hr⟩ := (Except.bind_ok_iff _ _).mp hr
    cases hr
    obtain ⟨t₂, h₂, rfl⟩ := checkSignalsOnSyscallExit_delivers h₁
    exact (hi.delivers hd (fun _ => rfl) rfl rfl h₂).sameQueue (restoreSavedMask_sameQueue t₂)
  | sigtimedwait w =>
    simp only [Task.runQueue] at hr
    cases ht : tryDequeueSignal k.thread w with
    | none =>
      rw [ht] at hr
      cases hr
      rw [update_none rfl (by simp only [consuming, ht]; rfl)]
      exact hi
    | some r =>
      obtain ⟨info, t'⟩ := r
      rw [ht] at hr
      cases hr
      have hc : consuming k.thread (.sigtimedwait w) =
          some (info.signo, (k.thread.siginfoQueue.dequeueBySignal info.signo).1) := by
        simp only [consuming, ht]
        rfl
      rw [update_consuming rfl hc]
      refine hi.consume (tryDequeueSignal_consumes ht ?_)
      exact (hd k rfl _ hc).imp_right of_decide_eq_true
  | signalfdRead mask =>
    simp only [Task.runQueue] at hr
    cases ht : signalfdTake k.thread mask with
    | none =>
      rw [ht] at hr
      cases hr
      rw [update_none rfl (by simp only [consuming, ht]; rfl)]
      exact hi
    | some r =>
      obtain ⟨n, info, t'⟩ := r
      rw [ht] at hr
      cases hr
      have hc : consuming k.thread (.signalfdRead mask) = some (n, info) := by
        simp only [consuming, ht]
        rfl
      rw [update_consuming rfl hc]
      refine hi.consume (signalfdTake_consumes ht ?_)
      exact (hd k rfl _ hc).resolve_right Bool.false_ne_true
  | call o =>
    rw [update_none rfl rfl]
    simp only [Task.runQueue] at hr
    split_ifs at hr with ho
    · exact hi.sameQueue (call_sameQueue ho hr)
    · cases hr
      exact hi

theorem newTask_queueInv (t : Thread) : QueueInv (newTask t).thread {} where
  bits _ _ _ h := absurd rfl h
  fifo _ := rfl
  sent _ _ := rfl

/-- What a thread is promised of its signals: an entry of a signal that is not blocked has its bit,
    and of every real-time number the sends that succeeded were taken, once each and in their
    order, but for the last ones, which are in the ring. -/
structure SignalsDelivered (t : SigThread) (h : SignalHistory) : Prop where
  bits (n : Nat) : 0 < n → n ≤ 64 → sigismember t.sigmask n = false →
    queuedOf t.siginfoQueue.items n ≠ [] → isPending t n
  fifo (n : Nat) : 32 ≤ n → queuedOf h.queued n = queuedOf h.taken n ++ queuedOf t.siginfoQueue.items n
  sent (n : Nat) : 32 ≤ n → queuedOf h.sent n = queuedOf h.queued n

/-- A thread that handles the first real-time signal and does not block it meanwhile. -/
def realtimeRun (l : List QueueEvent) : List QueueEvent :=
  let memory := (ByteMemory.mk (fun _ => 0) fun _ => true).write 0x500000
    (ByteMemory.ofWords (SigAction.toWords ⟨0x401000, SA_NODEFER, 0x402000, 0⟩))
  .call (.sigaction memory 34 0x500000 0 8) :: l ++
    [.interrupt ⟨[], false, 0⟩ 0 memory (setupUserStack 0x400000 0x700000)]

def realtimeTask : Task :=
  newTask { kernelFrame := setupUserStack 0x400000 0x700000, userStackTop := 0x700000, cr3 := 0,
            fpuStateBuffer := List.replicate 64 0, process := none }

/-- The thread after a run, with what happened to its signals. -/
abbrev realtimeState (l : List QueueEvent) : Option Task × SignalHistory :=
  (queueMachine.track {} update).exec (some realtimeTask, {}) l

/-- What is left of a number: how many entries, whether the number is blocked, and its bit. -/
def leftOf (s : Option Task) (n : Nat) : Option (Nat × Bool × Bool) :=
  s.map fun k => ((queuedOf k.thread.siginfoQueue.items n).length, sigismember k.thread.sigmask n,
    isPending k.thread n)

end Zigk.Proc
