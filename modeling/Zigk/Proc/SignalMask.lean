/-
  Subject:   THE SIGNALS THAT CANNOT BE BLOCKED, over every run of the threads of a kernel.

  The system calls that set a mask take SIGKILL and SIGSTOP out of it (`unblockable`). Two more
  places set one: a delivery adds the mask of the handler, and `rt_sigreturn` takes the mask of the
  context on the user stack. Neither filters.

  * `MaskInv` -- **the invariant of one thread**: its masks are open, and so is the one a blocked
    `rt_sigsuspend` holds; nobody has a handler for the two signals;
  * **`maskInvariant`** -- in every run whose steps are all filtered, every mask is open.
-/
import Zigk.Base.Machine
import Zigk.Proc.Signal

namespace Zigk.Proc

open Except

/-! ## 1. Masks -/

/-- Neither SIGKILL nor SIGSTOP is in the mask. -/
def Open (mask : SigSet) : Prop := sigismember mask SIGKILL = false ∧ sigismember mask SIGSTOP = false

instance (mask : SigSet) : Decidable (Open mask) := inferInstanceAs (Decidable (_ ∧ _))

variable {sig i n : Nat} {mask : SigSet} {c c' : Cpu}

theorem sigBit_eq : sigBit sig = BitVec.twoPow 64 (sig - 1) := by
  rw [sigBit, BitVec.twoPow]
  rfl

theorem getLsbD_sigBit (h : sig ≤ 64) (h0 : 0 < sig) :
    (sigBit sig).getLsbD i = decide (i = sig - 1) := by
  rw [sigBit_eq, BitVec.getLsbD_twoPow]
  by_cases e : i = sig - 1
  · subst e
    simp
    omega
  · simp [e, Ne.symm e]

theorem and_sigBit_eq_zero (h : sig ≤ 64) (h0 : 0 < sig) :
    mask &&& sigBit sig = 0 ↔ mask.getLsbD (sig - 1) = false := by
  constructor
  · intro e
    have := congrArg (fun w => w.getLsbD (sig - 1)) e
    simpa [getLsbD_sigBit h h0] using this
  · intro e
    refine BitVec.eq_of_getLsbD_eq fun i _ => ?_
    rw [BitVec.getLsbD_and, getLsbD_sigBit h h0]
    by_cases hi : i = sig - 1
    · subst hi
      simp [e]
    · simp [hi]

theorem sigismember_eq (h : sig ≤ 64) (h0 : 0 < sig) :
    sigismember mask sig = mask.getLsbD (sig - 1) := by
  have hn : ¬ (sig = 0 ∨ sig > 64) := by omega
  rw [sigismember, if_neg hn, Bool.eq_iff_iff, bne_iff_ne, Ne, and_sigBit_eq_zero h h0]
  simp

theorem open_iff : Open mask ↔ mask.getLsbD 8 = false ∧ mask.getLsbD 18 = false := by
  rw [Open, sigismember_eq (by decide) (by decide), sigismember_eq (by decide) (by decide)]
  exact Iff.rfl

theorem open_zero : Open 0 := by decide

theorem Open.or {a b : SigSet} (ha : Open a) (hb : Open b) : Open (a ||| b) := by
  rw [open_iff] at *
  simp only [BitVec.getLsbD_or, ha.1, ha.2, hb.1, hb.2, Bool.or_self, and_self]

theorem open_sigBit (h : sig ≤ 64) (h0 : 0 < sig) (hk : sig ≠ SIGKILL)
    (hs : sig ≠ SIGSTOP) : Open (sigBit sig) := by
  rw [open_iff, getLsbD_sigBit h h0, getLsbD_sigBit h h0]
  simp only [decide_eq_false_iff_not, SIGKILL, SIGSTOP] at *
  omega

/-- What `sigdelset` leaves. -/
theorem getLsbD_sigdelset {set : SigSet} (h : sig ≤ 64) (h0 : 0 < sig) (hi : i < 64) :
    (sigdelset set sig).getLsbD i = (set.getLsbD i && !decide (i = sig - 1)) := by
  have hn : ¬ (sig = 0 ∨ sig > 64) := by omega
  rw [sigdelset, if_neg hn, BitVec.getLsbD_and, BitVec.getLsbD_not, getLsbD_sigBit h h0]
  simp [hi]

theorem open_unblockable (mask : SigSet) : Open (unblockable mask) := by
  rw [open_iff, unblockable]
  simp only [getLsbD_sigdelset (by decide : SIGSTOP ≤ 64) (by decide) (by decide : 8 < 64),
    getLsbD_sigdelset (by decide : SIGSTOP ≤ 64) (by decide) (by decide : 18 < 64),
    getLsbD_sigdelset (by decide : SIGKILL ≤ 64) (by decide) (by decide : 8 < 64)]
  simp

/-- `ctz` of a word that is not zero finds a bit. -/
theorem ctz_spec {w : Word} (h : w ≠ 0) :
    ctz w < 64 ∧ w.getLsbD (ctz w) = true ∧ ∀ i < ctz w, w.getLsbD i = false := by
  unfold ctz
  cases hf : (List.range 64).find? fun i => w.getLsbD i with
  | none =>
    refine absurd (BitVec.eq_of_getLsbD_eq fun i hi => ?_) h
    have := List.find?_eq_none.mp hf i (List.mem_range.mpr hi)
    simpa using this
  | some k =>
    have hk := List.find?_some hf
    have hm := List.mem_range.mp (List.mem_of_find?_eq_some hf)
    refine ⟨hm, hk, fun i hi => ?_⟩
    rw [List.find?_range_eq_some] at hf
    simpa using hf.2.2 i hi

/-! ## 2. Threads and their steps -/

/-- A thread, with the mask that a `rt_sigsuspend` holds in which it blocks. -/
structure Task where
  thread : SigThread
  suspended : Option SigSet := none

inductive SigOp where
  | sigprocmask (m : ByteMemory) (how setPtr oldsetPtr sigsetsize : Word)
  | sigaction (m : ByteMemory) (signum actPtr oldactPtr sigsetsize : Word)
  | sigsuspend (m : ByteMemory) (maskPtr sigsetsize : Word)
  /-- The thread goes on in `rt_sigsuspend`. -/
  | woken
  /-- The return from an interrupt to user mode. -/
  | interrupt (c : Cpu) (cr2 : Word) (m : ByteMemory) (f : InterruptFrame)
  | syscallExit (c : Cpu) (m : ByteMemory) (f : SyscallFrame)
  | sigreturn (c : Cpu) (m : ByteMemory) (f : SyscallFrame)
  | send (signum : Nat) (info : Option KernelSigInfo)
  | queueInfo (signum : Nat) (info : KernelSigInfo)
  | timer (signo : Nat) (value : Word)

namespace Task

def withThread (k : Task) (t : SigThread) : Task := { k with thread := t }

def run (k : Task) : SigOp → Except Stop Task
  | .sigprocmask m how set old size =>
    .ok (k.withThread (sysRtSigprocmask k.thread m how set old size).1)
  | .sigaction m signum act old size =>
    .ok (k.withThread (sysRtSigaction k.thread m signum act old size).1)
  | .sigsuspend m mask size =>
    match sysRtSigsuspend k.thread m mask size with
    | (t, .error _) => .ok (k.withThread t)
    | (t, .ok (old, blocks)) =>
      .ok { thread := { t with state := if blocks then .Blocked else t.state }, suspended := some old }
  | .woken =>
    match k.suspended with
    | none => .ok k
    | some old => .ok { thread := sigsuspendWoken k.thread old, suspended := none }
  | .interrupt c cr2 m f => do
      let (_, t, _, _) ← checkSignals c cr2 k.thread m f
      return k.withThread t
  | .syscallExit c m f => do
      let (_, t, _, _) ← checkSignalsOnSyscallExit c k.thread m f
      return k.withThread t
  | .sigreturn c m f => do
      let (_, t, _) ← sysRtSigreturn c k.thread m f
      return k.withThread t
  | .send signum info => .ok (k.withThread (deliverSignalToThreadWithInfo k.thread signum info))
  | .queueInfo signum info => .ok (k.withThread (queueSignal k.thread signum info).1)
  | .timer signo value => .ok (k.withThread (posixTimerSignal k.thread signo value))

end Task

/-- The threads by their numbers; one that exited is gone. -/
abbrev Tasks := List (Option Task)

inductive TaskEvent where
  /-- `createUserThread` and its callers: masks and actions are empty. -/
  | create (t : Thread)
  | op (i : Nat) (o : SigOp)

def newTask (t : Thread) : Task :=
  { thread := { t with sigmask := 0, pendingSignals := 0, signalActions := List.replicate 64 {} } }

/-- A panic leaves no thread that goes on. -/
def taskStep (s : Tasks) : TaskEvent → Tasks
  | .create t => s ++ [some (newTask t)]
  | .op i o =>
    match (s[i]?).join with
    | none => s
    | some k =>
      match k.run o with
      | .ok k => s.set i (some k)
      | .error (.exit _) => s.set i none
      | .error (.trap _) => []

/-- A kernel without threads. -/
def taskMachine : Machine Tasks TaskEvent where
  start s := s = []
  step := taskStep

/-- **Neither signal is blocked by anybody**, now or after a `rt_sigsuspend`. -/
def NoneBlocked (s : Tasks) : Prop :=
  ∀ k, some k ∈ s → Open k.thread.sigmask ∧ Open k.thread.savedSigmask

/-! ## 3. The two unfiltered masks -/

/-- The action of the handler that a check of the pending signals starts. -/
def delivered (t : SigThread) : Option SigAction :=
  match takeSignal t with
  | none => none
  | some (signum, _, _) =>
    if (t.action signum).handler = SIG_DFL ∨ (t.action signum).handler = SIG_IGN then none
    else some (t.action signum)

/-- The context that `rt_sigreturn` finds. -/
def contextAt (m : ByteMemory) (f : SyscallFrame) : Option UContext :=
  (readWords m f.getUserRsp.toNat (UContext.size / 8)).map UContext.ofWords

/-- The mask that a step takes over as it is: that of the handler it starts, or that of the
    context it returns to. -/
def unfilteredMask (k : Task) : SigOp → Option SigSet
  | .interrupt _ _ _ _ | .syscallExit _ _ _ => (delivered k.thread).map SigAction.mask
  | .sigreturn _ m f => (contextAt m f).map UContext.sigmask
  | _ => none

/-- The mask that is taken over, if any, is open. -/
def Filtered (s : Tasks) : TaskEvent → Prop
  | .create _ => True
  | .op i o => ∀ mask ∈ ((s[i]?).join).bind fun k => unfilteredMask k o, Open mask

instance (s : Tasks) (e : TaskEvent) : Decidable (Filtered s e) := by
  cases e with
  | create t => exact inferInstanceAs (Decidable True)
  | op i o =>
    exact Option.decidableForallMem (p := Open) (((s[i]?).join).bind fun k => unfilteredMask k o)

/-! ## 4. One step -/

structure ThreadOpen (t : SigThread) : Prop where
  sigmask : Open t.sigmask
  saved : Open t.savedSigmask
  kill : (t.action SIGKILL).handler = SIG_DFL
  stop : (t.action SIGSTOP).handler = SIG_DFL

/-- **The invariant of a thread.** -/
structure MaskInv (k : Task) : Prop where
  thread : ThreadOpen k.thread
  suspended : ∀ old, k.suspended = some old → Open old

/-- The fields of the invariant are as they were. -/
structure SameMasks (t t' : SigThread) : Prop where
  sigmask : t'.sigmask = t.sigmask
  saved : t'.savedSigmask = t.savedSigmask
  actions : t'.signalActions = t.signalActions

variable {t t' t₁ : SigThread} {k : Task}

theorem SameMasks.refl (t : SigThread) : SameMasks t t := ⟨rfl, rfl, rfl⟩

theorem SameMasks.trans (h : SameMasks t t₁) (h' : SameMasks t₁ t') : SameMasks t t' :=
  ⟨h'.sigmask.trans h.sigmask, h'.saved.trans h.saved, h'.actions.trans h.actions⟩

theorem ThreadOpen.masked (h : ThreadOpen t) (hs : t'.savedSigmask = t.savedSigmask)
    (ha : t'.signalActions = t.signalActions) (ho : Open t'.sigmask) : ThreadOpen t' := by
  have hact : ∀ n, t'.action n = t.action n := fun n => by unfold SigThread.action; rw [ha]
  exact ⟨ho, by rw [hs]; exact h.saved, by rw [hact]; exact h.kill, by rw [hact]; exact h.stop⟩

theorem ThreadOpen.same (h : ThreadOpen t) (hs : SameMasks t t') : ThreadOpen t' :=
  h.masked hs.saved hs.actions (by rw [hs.sigmask]; exact h.sigmask)

variable {info : Option KernelSigInfo} {m m' : ByteMemory} {a : SigAction}

/-- What `takeSignal` leaves of the thread, and which signals it takes. -/
theorem takeSignal_spec (h : takeSignal t = some (n, info, t')) :
    SameMasks t t' ∧ 0 < n ∧ n ≤ 64 := by
  simp only [takeSignal] at h
  split at h
  · cases h
  rename_i hp
  obtain ⟨hlt, -, -⟩ := ctz_spec hp
  simp only [Option.some.injEq, Prod.mk.injEq] at h
  obtain ⟨rfl, -, rfl⟩ := h
  exact ⟨⟨rfl, rfl, rfl⟩, by omega, by omega⟩

theorem handleDefaultAction_same (h : handleDefaultAction t n = .ok t') : SameMasks t t' := by
  unfold handleDefaultAction at h
  split at h <;> cases h <;> exact ⟨rfl, rfl, rfl⟩

theorem saveFpu_same (c : Cpu) (t : SigThread) : SameMasks t (saveFpu c t).2 := by
  unfold saveFpu saveState handleFpuAccess SigThread.withThread
  split_ifs <;> exact ⟨rfl, rfl, rfl⟩

/-- Pushing the frame saves the FPU state and leaves the thread alone. -/
theorem pushFrame_thread {rsp : Word} {regs : SavedRegs} {l : FrameLayout}
    (h : pushFrame c t m rsp n a info regs = .ok (c', t', m', l)) : t' = (saveFpu c t).2 := by
  unfold pushFrame at h
  obtain ⟨⟨sp, alt⟩, -, h⟩ := (bind_ok_iff _ _).mp h
  obtain ⟨sp₁, -, h⟩ := (bind_ok_iff _ _).mp h
  obtain ⟨sp₂, -, h⟩ := (bind_ok_iff _ _).mp h
  obtain ⟨m₁, -, h⟩ := (bind_ok_iff _ _).mp h
  obtain ⟨⟨si, sp₃⟩, -, h⟩ := (bind_ok_iff _ _).mp h
  obtain ⟨sp₄, -, h⟩ := (bind_ok_iff _ _).mp h
  obtain ⟨m₂, -, h⟩ := (bind_ok_iff _ _).mp h
  obtain ⟨m₃, -, h⟩ := (bind_ok_iff _ _).mp h
  obtain ⟨sp₅, -, h⟩ := (bind_ok_iff _ _).mp h
  obtain ⟨m₄, -, h⟩ := (bind_ok_iff _ _).mp h
  cases h
  rfl

/-- A handler whose mask is open, for a signal other than the two. -/
theorem ThreadOpen.handlerMask (h : ThreadOpen t) (ha : Open a.mask)
    (hn : Open (sigBit n)) : ThreadOpen (handlerMask t n a) := by
  refine h.masked rfl rfl ?_
  unfold Proc.handlerMask
  split_ifs
  · exact (h.sigmask.or ha).or hn
  · exact h.sigmask.or ha

theorem ThreadOpen.restoreSavedMask (h : ThreadOpen t) : ThreadOpen (restoreSavedMask t) := by
  unfold Proc.restoreSavedMask
  split_ifs
  · exact h.masked rfl rfl h.saved
  · exact h

/-- A signal with a handler is neither of the two. -/
theorem ThreadOpen.sigBit (h : ThreadOpen t) (h0 : 0 < n) (hn : n ≤ 64)
    (hh : (t.action n).handler ≠ SIG_DFL) : Open (sigBit n) := by
  refine open_sigBit hn h0 ?_ ?_
  · rintro rfl
    exact hh h.kill
  · rintro rfl
    exact hh h.stop

theorem SameMasks.action (h : SameMasks t t') (n : Nat) : t'.action n = t.action n := by
  unfold SigThread.action
  rw [h.actions]

/-- What `delivered` says where a handler is started. -/
theorem delivered_eq (h : takeSignal t = some (n, info, t₁))
    (h0 : (t₁.action n).handler ≠ SIG_DFL) (h1 : (t₁.action n).handler ≠ SIG_IGN) :
    delivered t = some (t₁.action n) := by
  rw [(takeSignal_spec h).1.action] at *
  simp only [delivered, h]
  rw [if_neg (by simp only [h0, h1, or_self, not_false_eq_true])]

/-- What a check of the pending signals makes of the thread: it takes no signal, or does what the
    disposition of the signal says. -/
inductive Delivers (c : Cpu) (t : SigThread) : SigThread → Prop where
  | idle (h : takeSignal t = none) : Delivers c t t
  | default {n : Nat} {info : Option KernelSigInfo} {t₁ t' : SigThread}
      (h : takeSignal t = some (n, info, t₁)) (hd : (t₁.action n).handler = SIG_DFL)
      (ha : handleDefaultAction t₁ n = .ok t') : Delivers c t t'
  | ignored {n : Nat} {info : Option KernelSigInfo} {t₁ : SigThread}
      (h : takeSignal t = some (n, info, t₁)) : Delivers c t t₁
  | handled {n : Nat} {info : Option KernelSigInfo} {t₁ : SigThread}
      (h : takeSignal t = some (n, info, t₁)) (hd : (t₁.action n).handler ≠ SIG_DFL)
      (hi : (t₁.action n).handler ≠ SIG_IGN) :
      Delivers c t (handlerMask (saveFpu c t₁).2 n (t₁.action n))

theorem checkSignals_delivers {cr2 : Word} {f f' : InterruptFrame}
    (h : checkSignals c cr2 t m f = .ok (c', t', m', f')) : Delivers c t t' := by
  unfold checkSignals at h
  cases ht : takeSignal t with
  | none =>
    rw [ht] at h
    cases h
    exact .idle ht
  | some r =>
    obtain ⟨n, info, t₁⟩ := r
    rw [ht] at h
    dsimp only at h
    split_ifs at h with hd hg
    · obtain ⟨t₂, h₂, h⟩ := (bind_ok_iff _ _).mp h
      cases h
      exact .default ht hd h₂
    · cases h
      exact .ignored ht
    · obtain ⟨⟨c₂, t₂, m₂, l⟩, h₂, h⟩ := (bind_ok_iff _ _).mp h
      cases h
      rw [pushFrame_thread h₂]
      exact .handled ht hd hg

theorem checkSignalsOnSyscallExit_delivers {f f' : SyscallFrame}
    (h : checkSignalsOnSyscallExit c t m f = .ok (c', t', m', f')) :
    ∃ t₂, Delivers c t t₂ ∧ t' = restoreSavedMask t₂ := by
  unfold checkSignalsOnSyscallExit at h
  cases ht : takeSignal t with
  | none =>
    rw [ht] at h
    cases h
    exact ⟨t, .idle ht, rfl⟩
  | some r =>
    obtain ⟨n, info, t₁⟩ := r
    rw [ht] at h
    dsimp only at h
    split_ifs at h with hd hg
    · obtain ⟨t₂, h₂, h⟩ := (bind_ok_iff _ _).mp h
      cases h
      exact ⟨t₂, .default ht hd h₂, rfl⟩
    · cases h
      exact ⟨t₁, .ignored ht, rfl⟩
    obtain ⟨⟨c₂, t₂, m₂, f₂⟩, h₂, h⟩ := (bind_ok_iff _ _).mp h
    obtain ⟨⟨c₃, t₃, m₃, l⟩, h₃, h₂⟩ := (bind_ok_iff _ _).mp h₂
    cases h₂
    cases h
    rw [pushFrame_thread h₃]
    exact ⟨_, .handled ht hd hg, rfl⟩

/-- A check keeps the masks open if the handler that it starts has an open mask. -/
theorem Delivers.open (h : Delivers c t t') (hi : ThreadOpen t)
    (hc : ∀ a ∈ delivered t, Open a.mask) : ThreadOpen t' := by
  cases h with
  | idle => exact hi
  | default ht hd ha => exact (hi.same (takeSignal_spec ht).1).same (handleDefaultAction_same ha)
  | ignored ht => exact hi.same (takeSignal_spec ht).1
  | handled ht hd hg =>
    obtain ⟨hs, h0, hn⟩ := takeSignal_spec ht
    have hi₁ := hi.same hs
    exact (hi₁.same (saveFpu_same c _)).handlerMask (hc _ (delivered_eq ht hd hg))
      (hi₁.sigBit h0 hn hd)

/-- The mask of the context becomes that of the thread, as it is. -/
theorem sysRtSigreturn_spec {f f' : SyscallFrame} (h : sysRtSigreturn c t m f = .ok (c', t', f')) :
    ∃ u, contextAt m f = some u ∧ t'.sigmask = u.sigmask ∧ t'.savedSigmask = t.savedSigmask ∧
      t'.signalActions = t.signalActions := by
  unfold sysRtSigreturn at h
  obtain ⟨l, hl, h⟩ := (bind_ok_iff _ _).mp h
  dsimp only at h
  split_ifs at h
  obtain ⟨⟨c₁, t₁⟩, h₁, h⟩ := (bind_ok_iff _ _).mp h
  cases h
  refine ⟨UContext.ofWords l, ?_, ?_⟩
  · unfold contextAt
    cases hr : readWords m f.getUserRsp.toNat (UContext.size / 8) with
    | none => rw [hr] at hl; cases hl
    | some l' => rw [hr] at hl; cases hl; rfl
  unfold restoreFpu at h₁
  dsimp only at h₁
  split_ifs at h₁
  · cases h₁
    exact ⟨rfl, rfl, rfl⟩
  · obtain ⟨b, -, h₁⟩ := (bind_ok_iff _ _).mp h₁
    cases h₁
    exact ⟨rfl, rfl, rfl⟩

theorem sysRtSigprocmask_open {how set old size : Word} (hi : ThreadOpen t) :
    ThreadOpen (sysRtSigprocmask t m how set old size).1 := by
  unfold sysRtSigprocmask
  split_ifs
  · exact hi
  · cases writeOut m old [t.sigmask] <;> exact hi
  cases writeOut m old [t.sigmask] with
  | error e => exact hi
  | ok m₁ =>
    dsimp only
    cases readWord m₁ set with
    | none => exact hi
    | some new =>
      dsimp only
      cases changeMask how t.sigmask new with
      | none => exact hi
      | some mask => exact hi.masked rfl rfl (open_unblockable mask)

/-- A change of the action of another signal. -/
theorem ThreadOpen.setAction (hi : ThreadOpen t) (h0 : 0 < n)
    (hk : n ≠ SIGKILL) (hs : n ≠ SIGSTOP) :
    ThreadOpen { t with signalActions := t.signalActions.set (n - 1) a } := by
  have hget : ∀ k, 0 < k → k ≠ n →
      (t.signalActions.set (n - 1) a).getD (k - 1) {} = t.signalActions.getD (k - 1) {} := by
    intro k hk0 hne
    rw [List.getD_eq_getElem?_getD, List.getElem?_set_ne (by omega), List.getD_eq_getElem?_getD]
  refine ⟨hi.sigmask, hi.saved, ?_, ?_⟩
  · unfold SigThread.action
    rw [hget SIGKILL (by decide) (Ne.symm hk)]
    exact hi.kill
  · unfold SigThread.action
    rw [hget SIGSTOP (by decide) (Ne.symm hs)]
    exact hi.stop

theorem sysRtSigaction_open {signum act old size : Word} (hi : ThreadOpen t) :
    ThreadOpen (sysRtSigaction t m signum act old size).1 := by
  unfold sysRtSigaction
  dsimp only
  split_ifs with _ h0 hks
  · exact hi
  · exact hi
  · exact hi
  · cases writeOut m old (t.action signum.toNat).toWords <;> exact hi
  cases writeOut m old (t.action signum.toNat).toWords with
  | error e => exact hi
  | ok m₁ =>
    dsimp only
    cases readWords m₁ act.toNat 4 with
    | none => exact hi
    | some l => exact hi.setAction (by omega) (fun e => hks (.inl e)) (fun e => hks (.inr e))

theorem wake_same (t : SigThread) : SameMasks t (wake t) := by
  unfold wake
  split_ifs <;> exact ⟨rfl, rfl, rfl⟩

theorem resume_same (t : SigThread) : SameMasks t (resume t) := by
  unfold resume
  dsimp only
  split_ifs <;> exact ⟨rfl, rfl, rfl⟩

theorem deliverSignal_same (t : SigThread) (n : Nat) (info : Option KernelSigInfo) :
    SameMasks t (deliverSignalToThreadWithInfo t n info) := by
  have hr : SameMasks t (if n = SIGCONT then resume t else t) := by
    split_ifs
    · exact resume_same t
    · exact .refl t
  unfold deliverSignalToThreadWithInfo
  dsimp only
  refine hr.trans ?_
  generalize (if n = SIGCONT then resume t else t) = t₁
  by_cases hs : stopsThread t₁ n
  · rw [if_pos hs]
    exact ⟨rfl, rfl, rfl⟩
  · rw [if_neg hs]
    refine SameMasks.trans ?_ (wake_same _)
    split_ifs <;> exact ⟨rfl, rfl, rfl⟩

theorem queueSignal_same (t : SigThread) (n : Nat) (info : KernelSigInfo) :
    SameMasks t (queueSignal t n info).1 := by
  unfold queueSignal
  split_ifs
  · cases t.siginfoQueue.enqueue info with
    | none => exact .refl t
    | some q =>
      have hq : SameMasks t (setPending { t with siginfoQueue := q } n) := ⟨rfl, rfl, rfl⟩
      exact hq.trans (wake_same _)
  · have hp : SameMasks t (setPending t n) := ⟨rfl, rfl, rfl⟩
    exact hp.trans (wake_same _)

/-- **A filtered step keeps the invariant.** -/
theorem MaskInv.run {o : SigOp} {k' : Task} (hi : MaskInv k)
    (hc : ∀ mask ∈ unfilteredMask k o, Open mask)
    (h : k.run o = .ok k') : MaskInv k' := by
  cases o with
  | sigprocmask m how set old size =>
    cases h
    exact ⟨sysRtSigprocmask_open hi.thread, hi.suspended⟩
  | sigaction m signum act old size =>
    cases h
    exact ⟨sysRtSigaction_open hi.thread, hi.suspended⟩
  | sigsuspend m mask size =>
    simp only [Task.run, sysRtSigsuspend] at h
    by_cases hsz : size ≠ 8
    · rw [if_pos hsz] at h
      cases h
      exact hi
    rw [if_neg hsz] at h
    cases hm : readWord m mask with
    | none =>
      rw [hm] at h
      cases h
      exact hi
    | some new =>
      rw [hm] at h
      cases h
      refine ⟨hi.thread.masked rfl rfl (open_unblockable new), fun old ho => ?_⟩
      cases ho
      exact hi.thread.sigmask
  | woken =>
    simp only [Task.run] at h
    cases hs : k.suspended with
    | none =>
      rw [hs] at h
      cases h
      exact hi
    | some old =>
      rw [hs] at h
      cases h
      exact ⟨⟨hi.thread.sigmask, hi.suspended old hs, hi.thread.kill, hi.thread.stop⟩,
        fun _ ho => nomatch ho⟩
  | interrupt c cr2 m f =>
    obtain ⟨⟨c', t', m', f'⟩, h₁, h⟩ := (bind_ok_iff _ _).mp h
    cases h
    exact ⟨(checkSignals_delivers h₁).open hi.thread fun a ha => hc _ (Option.mem_map_of_mem _ ha),
      hi.suspended⟩
  | syscallExit c m f =>
    obtain ⟨⟨c', t', m', f'⟩, h₁, h⟩ := (bind_ok_iff _ _).mp h
    cases h
    obtain ⟨t₂, hd, rfl⟩ := checkSignalsOnSyscallExit_delivers h₁
    exact ⟨(hd.open hi.thread fun a ha => hc _ (Option.mem_map_of_mem _ ha)).restoreSavedMask,
      hi.suspended⟩
  | sigreturn c m f =>
    obtain ⟨⟨c', t', f'⟩, h₁, h⟩ := (bind_ok_iff _ _).mp h
    cases h
    obtain ⟨u, hu, hm, hs, ha⟩ := sysRtSigreturn_spec h₁
    exact ⟨hi.thread.masked hs ha (hm ▸ hc _ (Option.mem_map_of_mem _ hu)), hi.suspended⟩
  | send n info =>
    cases h
    exact ⟨hi.thread.same (deliverSignal_same _ n info), hi.suspended⟩
  | queueInfo n info =>
    cases h
    exact ⟨hi.thread.same (queueSignal_same _ n info), hi.suspended⟩
  | timer n value =>
    cases h
    exact ⟨hi.thread.same ⟨rfl, rfl, rfl⟩, hi.suspended⟩

/-! ## 5. Every run -/

theorem newTask_inv (t : Thread) : MaskInv (newTask t) :=
  ⟨⟨open_zero, open_zero, rfl, rfl⟩, fun _ h => nomatch h⟩

/-- Who is there after a step of one thread: who was there, and that thread as its step left it. -/
theorem mem_taskStep {s : Tasks} {o : SigOp} (h : some k ∈ taskStep s (.op i o)) :
    some k ∈ s ∨ ∃ k₀, (s[i]?).join = some k₀ ∧ k₀.run o = .ok k := by
  simp only [taskStep] at h
  cases hg : (s[i]?).join with
  | none =>
    rw [hg] at h
    exact .inl h
  | some k₀ =>
    rw [hg] at h
    dsimp only at h
    cases hr : k₀.run o with
    | ok k₁ =>
      rw [hr] at h
      rcases List.mem_or_eq_of_mem_set h with h | h
      · exact .inl h
      · cases h
        exact .inr ⟨k₀, rfl, hr⟩
    | error e =>
      rw [hr] at h
      cases e with
      | trap _ => exact nomatch h
      | exit st =>
        rcases List.mem_or_eq_of_mem_set h with h | h
        · exact .inl h
        · exact nomatch h

theorem Filtered.op {s : Tasks} {o : SigOp} (h : Filtered s (.op i o))
    (hg : (s[i]?).join = some k) : ∀ mask ∈ unfilteredMask k o, Open mask := by
  intro mask hm
  refine h mask ?_
  rw [hg]
  exact hm

/-- **NEITHER SIGNAL IS EVER BLOCKED** in a run whose steps are all filtered. -/
theorem maskInvariant {s : Tasks} (h : taskMachine.Reach Filtered s) : NoneBlocked s := by
  have hall : ∀ k, some k ∈ s → MaskInv k := by
    refine h.invariant (I := fun s => ∀ k, some k ∈ s → MaskInv k) (fun s hs k hk => ?_)
      fun s e _ hi hc => ?_
    · rw [show s = [] from hs] at hk
      exact nomatch hk
    cases e with
    | create t =>
      intro k hk
      rcases List.mem_append.mp hk with hk | hk
      · exact hi k hk
      · cases List.mem_singleton.mp hk
        exact newTask_inv t
    | op i o =>
      intro k hk
      rcases mem_taskStep hk with hk | ⟨k₀, hg, hr⟩
      · exact hi k hk
      · have hmem : some k₀ ∈ s := List.mem_of_getElem? (Option.join_eq_some_iff.mp hg)
        exact (hi k₀ hmem).run (hc.op hg) hr
  exact fun k hk => ⟨(hall k hk).thread.sigmask, (hall k hk).thread.saved⟩

/-- User memory with one action at `0x500000`: a handler at `0x401000` and the given mask. -/
def actionMemory (mask : SigSet) : ByteMemory :=
  (ByteMemory.mk (fun _ => 0) fun _ => true).write 0x500000
    (ByteMemory.ofWords (SigAction.toWords ⟨0x401000, 0, 0x402000, mask⟩))

/-- A thread sets a handler for SIGUSR1, and the signal comes in while it is in user mode. -/
def handlerRun (mask : SigSet) : List TaskEvent :=
  let t : Thread :=
    { kernelFrame := setupUserStack 0x400000 0x700000, userStackTop := 0x700000, cr3 := 0,
      fpuStateBuffer := List.replicate 64 0, process := none }
  [.create t, .op 0 (.sigaction (actionMemory mask) 10 0x500000 0 8), .op 0 (.send 10 none),
    .op 0 (.interrupt ⟨[], false, 0⟩ 0 (actionMemory mask) (setupUserStack 0x400000 0x700000))]

/-- With SIGUSR2 in the mask of the handler. -/
theorem maskInvariant_handlerRun : NoneBlocked (taskMachine.exec [] (handlerRun 0x800)) := by
  refine maskInvariant (Machine.Reach.exec (.start rfl) ?_)
  refine ⟨trivial, ?_, ?_, ?_, trivial⟩ <;> decide +kernel

/-- The mask of a thread and what is pending for it. -/
def masksOf (s : Tasks) (i : Nat) : Option (SigSet × SigSet) :=
  ((s[i]?).join).map fun k => (k.thread.sigmask, k.thread.pendingSignals)

/-- A handler with a full mask blocks both signals; a SIGKILL that is sent then stays pending over
    the next return to user mode. -/
theorem maskInvariant_refuted : ¬ ∀ s, taskMachine.Reachable s → NoneBlocked s := by
  intro h
  let kill : List TaskEvent :=
    [.op 0 (.send 9 none), .op 0 (.interrupt ⟨[], false, 0⟩ 0 (actionMemory 0)
      (setupUserStack 0x401000 0x6FF000))]
  let s := taskMachine.exec [] (handlerRun (BitVec.allOnes 64) ++ kill)
  have hr : taskMachine.Reachable s :=
    Machine.Reachable.exec (.start (show taskMachine.start [] from rfl)) _
  have hm : masksOf s 0 = some (BitVec.allOnes 64, sigBit SIGKILL) := by decide +kernel
  obtain ⟨k, hk, e⟩ := Option.map_eq_some_iff.mp hm
  have ho := (h s hr k (List.mem_of_getElem? (Option.join_eq_some_iff.mp hk))).1
  rw [(Prod.mk.inj e).1] at ho
  exact absurd ho (by decide)

end Zigk.Proc
