/-
  Subject:   THE CONTEXT OF A FORKED CHILD, and what an error leaves behind.

  The child resumes from a frame that copies all registers of the system call but RBX, and as a
  thread with the defaults of a new one; the parent returns by SYSRET with R8 to R10 cleared.
  `Inherits` says when these are the same.

  * **`forkContext`** -- `sys_fork` does what it should exactly where a success inherits and an
    error is not that of the capabilities.
-/
import Zigk.Proc.Fork

namespace Zigk.Proc

open List Option Bool KernelState Thread

/-! ## 1. Reading after writing -/

section Slots

variable {α : Type} (l : List (Option α)) (i j : Nat)

/-- What is at a place. -/
theorem join_modify (f : α → α) :
    ((l.modify i (Option.map f))[j]?).join = if j = i then ((l[j]?).join).map f else (l[j]?).join := by
  rw [getElem?_modify]
  by_cases h : j = i
  · rw [if_pos h]
    cases l[j]? with
    | none => rfl
    | some x => simp [h]
  rw [if_neg h]
  cases l[j]? with
  | none => rfl
  | some x => simp [Ne.symm h]

theorem join_append (x : Option α) :
    ((l ++ [x])[j]?).join = if j = l.length then x else (l[j]?).join := by
  by_cases h : j = l.length
  · rw [if_pos h, h, getElem?_concat_length]
    rfl
  rw [if_neg h]
  rcases Nat.lt_or_gt_of_ne h with hlt | hgt
  · rw [getElem?_append_left hlt]
  · rw [getElem?_eq_none (by rw [length_append]; exact hgt),
      getElem?_eq_none (Nat.le_of_lt hgt)]

theorem join_set_none : ((l.set i none)[j]?).join = if j = i then none else (l[j]?).join := by
  rw [getElem?_set]
  by_cases h : j = i
  · rw [if_pos h, if_pos h.symm]
    split <;> rfl
  · rw [if_neg h, if_neg (Ne.symm h)]

theorem join_of_length_le (h : l.length ≤ j) : (l[j]?).join = none := by
  rw [getElem?_eq_none h]
  rfl

end Slots

variable {parent : Nat} {cr3 : Word}

namespace KernelState

variable {k : KernelState} {p q t u : Nat}

theorem process?_setProcess (k : KernelState) (p q : Nat) (f : Process → Process) :
    (k.setProcess p f).process? q = if q = p then (k.process? q).map f else k.process? q :=
  join_modify k.processes p q f

theorem thread?_setThread (k : KernelState) (t u : Nat) (f : Thread → Thread) :
    (k.setThread t f).thread? u = if u = t then (k.thread? u).map f else k.thread? u :=
  join_modify k.threads t u f

theorem process?_eq_none (h : k.processes.length ≤ p) : k.process? p = none :=
  join_of_length_le k.processes p h

theorem thread?_of_threads {k' : KernelState} (h : k.threads = k'.threads) (t : Nat) :
    k.thread? t = k'.thread? t := by
  rw [thread?, h]
  rfl

theorem thread?_lt {x : Thread} (h : k.thread? t = some x) : t < k.threads.length := by
  by_contra hge
  have := join_of_length_le k.threads t (Nat.le_of_not_lt hge)
  rw [thread?, this] at h
  cases h

/-! ## 2. A process forked and destroyed again -/

/-- What `forkProcess` builds: the child behind the processes there were, in front of the children
    of its parent. -/
def Forked (env : ForkEnv) (k : KernelState) (parent : Nat) (cr3 : Word) (k' : KernelState) : Prop :=
  k'.threads = k.threads ∧ k'.ready = k.ready ∧ k'.initProcess = k.initProcess ∧
  k'.activeThreadCount = k.activeThreadCount ∧ k'.processCount = k.processCount + 1 ∧
  ∀ q, k'.process? q =
    if q = k.processes.length then
      some { pid := env.pid, cr3 := cr3, parent := some parent }
    else if q = parent then
      (k.process? q).map fun p => { p with children := k.processes.length :: p.children }
    else k.process? q

theorem forkProcess_ok {env : ForkEnv} (hp : parent < k.processes.length)
    (hfd : env.fdTable = true) (hvmm : env.vmm = some cr3) (halloc : env.process = true)
    (hcaps : env.capabilities = true) :
    ∃ k', k.forkProcess env parent = (k', some k.processes.length) ∧ Forked env k parent cr3 k' := by
  simp only [forkProcess, hfd, hvmm, halloc, hcaps, Bool.not_true, false_eq_true, if_false]
  refine ⟨_, rfl, rfl, rfl, rfl, rfl, rfl, fun q => ?_⟩
  show ((setProcess _ _ _).setProcess _ _).process? q = _
  rw [process?_setProcess, process?_setProcess, process?, join_append]
  by_cases hq : q = k.processes.length
  · rw [if_neg (by omega), if_pos hq, if_pos hq]
    simp only [hq, if_true]
    rfl
  · simp only [hq, if_false]
    rfl

theorem thread?_detachProcess (h : ∀ t, (k.thread? t).bind process ≠ some p) (t : Nat) :
    (k.detachProcess p).thread? t = k.thread? t := by
  have ht := h t
  unfold thread? at ht ⊢
  unfold detachProcess
  rw [getElem?_map]
  cases hx : k.threads[t]? with
  | none => rfl
  | some x =>
    cases x with
    | none => rfl
    | some x =>
      rw [hx] at ht
      change x.process ≠ some p at ht
      show some (if x.process = some p then { x with process := none } else x) = some x
      rw [if_neg ht]

/-- **Destroying a process just forked undoes the fork.** No thread runs it yet. -/
theorem destroyProcess_forked {env : ForkEnv} {k₀ : KernelState}
    (hlt : parent < k₀.processes.length) (hf : ∀ q, k.process? q =
      if q = k₀.processes.length then some { pid := env.pid, cr3 := cr3, parent := some parent }
      else if q = parent then
        (k₀.process? q).map fun p => { p with children := k₀.processes.length :: p.children }
      else k₀.process? q)
    (ht : ∀ t, (k.thread? t).bind process ≠ some k₀.processes.length) :
    (∀ q, (k.destroyProcess k₀.processes.length).process? q = k₀.process? q) ∧
    (∀ t, (k.destroyProcess k₀.processes.length).thread? t = k.thread? t) ∧
    (k.destroyProcess k₀.processes.length).ready = k.ready ∧
    (k.destroyProcess k₀.processes.length).processCount = k.processCount - 1 := by
  generalize hn : k₀.processes.length = n at *
  let k₁ := k.setProcess n fun p => { p with state := .Dead }
  have h₁ : ∀ q, k₁.process? q =
      if q = n then
        some { pid := env.pid, cr3 := cr3, parent := some parent, state := .Dead }
      else k.process? q := by
    intro q
    rw [process?_setProcess]
    by_cases hq : q = n
    · rw [if_pos hq, if_pos hq, hf, if_pos hq]
      rfl
    · rw [if_neg hq, if_neg hq]
  have h₂ : ∀ q, (k₁.removeChild parent n).process? q =
      if q = n then some { pid := env.pid, cr3 := cr3, state := .Dead } else k₀.process? q := by
    intro q
    unfold removeChild
    rw [process?_setProcess, process?_setProcess, h₁]
    by_cases hq : q = n
    · simp only [if_pos hq, if_neg (show q ≠ parent by omega)]
      rfl
    simp only [if_neg hq, hf]
    by_cases hqp : q = parent
    · simp only [if_pos hqp]
      cases k₀.process? q with
      | none => rfl
      | some x => simp [removeSibling]
    · rw [if_neg hqp, if_neg hqp]
  have hparent : (k₁.process? n).bind Process.parent = some parent := by
    rw [h₁, if_pos rfl]
    rfl
  have hchildren : (k₁.removeChild parent n).reparentChildren n = k₁.removeChild parent n := by
    unfold reparentChildren
    rw [h₂, if_pos rfl]
    rfl
  have hunfold : k.destroyProcess n =
      { (k₁.removeChild parent n).detachProcess n with
        processes := ((k₁.removeChild parent n).detachProcess n).processes.set n none
        processCount := ((k₁.removeChild parent n).detachProcess n).processCount - 1 } := by
    unfold destroyProcess
    simp only [show k.setProcess n _ = k₁ from rfl, hparent, hchildren]
  rw [hunfold]
  refine ⟨fun q => ?_, fun t => ?_, rfl, rfl⟩
  · refine (join_set_none _ n q).trans ?_
    by_cases hq : q = n
    · rw [if_pos hq, hq, ← hn, process?_eq_none (Nat.le_refl _)]
    · rw [if_neg hq]
      exact (h₂ q).trans (if_neg hq)
  · exact thread?_detachProcess ht t

theorem forkProcess_none {env : ForkEnv} (parent : Nat)
    (h : ¬ (env.fdTable = true ∧ env.vmm.isSome = true ∧ env.process = true)) :
    k.forkProcess env parent = (k, none) := by
  unfold forkProcess
  cases hfd : env.fdTable with
  | false => rfl
  | true =>
    cases hvmm : env.vmm with
    | none => rfl
    | some cr3 =>
      cases hp : env.process with
      | false => rfl
      | true => exact absurd ⟨hfd, by rw [hvmm]; rfl, hp⟩ h

end KernelState

/-! ## 3. The child thread -/

/-- The thread that `createUserThread` makes. -/
def newThread (size : Nat) (entry cr3 userStackTop : Word) (process : Nat) : Thread :=
  { kernelFrame := setupUserStack entry userStackTop
    userStackTop := userStackTop
    cr3 := cr3
    fpuStateBuffer := initialFpu size
    process := some process }

namespace KernelState

/-- All that `createUserThread` needs is there. -/
def CanCreate (env : ForkEnv) (k : KernelState) : Prop :=
  k.activeThreadCount < env.maxThreads ∧ env.kernelStack = true ∧ env.fpuBuffer.isSome = true ∧
    env.thread = true

theorem createUserThread_cases (env : ForkEnv) (k : KernelState) (entry cr3 userStackTop : Word)
    (process : Nat) :
    (¬ CanCreate env k ∧ k.createUserThread env entry cr3 userStackTop process = (k, none)) ∨
    ∃ size, CanCreate env k ∧ k.createUserThread env entry cr3 userStackTop process =
      ({ k with
          threads := k.threads ++ [some (newThread size entry cr3 userStackTop process)]
          activeThreadCount := k.activeThreadCount + 1 }, some k.threads.length) := by
  unfold createUserThread CanCreate
  by_cases hmax : k.activeThreadCount ≥ env.maxThreads
  · left
    rw [if_pos hmax]
    exact ⟨fun h => absurd h.1 (Nat.not_lt_of_le hmax), rfl⟩
  rw [if_neg hmax]
  cases hs : env.kernelStack with
  | false => exact .inl ⟨fun h => (nomatch h.2.1), rfl⟩
  | true =>
    cases hf : env.fpuBuffer with
    | none => exact .inl ⟨fun h => (nomatch h.2.2.1), rfl⟩
    | some size =>
      cases ht : env.thread with
      | false => exact .inl ⟨fun h => (nomatch h.2.2.2), rfl⟩
      | true => exact .inr ⟨size, ⟨Nat.lt_of_not_le hmax, rfl, rfl, rfl⟩, rfl⟩

/-- A new thread gets its state and its place among the children of the thread `t`. -/
theorem started_thread? {k : KernelState} {t : Nat} (h : t < k.threads.length) (new : Thread) (g : Thread → Thread) (n : Nat) :
    let k' := (({ k with
        threads := k.threads ++ [some new]
        activeThreadCount := n }.setThread k.threads.length g).addChildThread t k.threads.length)
    k'.thread? t = (k.thread? t).map (fun p => { p with children := k.threads.length :: p.children }) ∧
      k'.thread? k.threads.length = some { g new with parent := some t } := by
  intro k'
  have hlast : ∀ u, k'.thread? u =
      if u = t then (k.thread? t).map (fun p => { p with children := k.threads.length :: p.children })
      else if u = k.threads.length then some { g new with parent := some t }
      else k.thread? u := by
    intro u
    show ((setThread _ _ _).setThread _ _).thread? u = _
    rw [thread?_setThread, thread?_setThread, thread?_setThread, thread?, join_append]
    by_cases hu : u = t
    · subst hu
      simp only [if_true, if_neg (show u ≠ k.threads.length by omega)]
      rfl
    rw [if_neg hu, if_neg hu]
    by_cases hn : u = k.threads.length
    · simp only [if_pos hn]
      rfl
    · simp only [if_neg hn]
      rfl
  exact ⟨by rw [hlast, if_pos rfl], by rw [hlast, if_neg (by omega), if_pos rfl]⟩

end KernelState

/-! ## 4. Contexts -/

/-- Looking at the registers does not change what is seen. -/
theorem fpuSeen_saveState (c : Cpu) (t u : Thread) : fpuSeen (saveState c t).1 u = fpuSeen c t := by
  have hts : (saveState c t).1.taskSwitched = false := by
    unfold saveState handleFpuAccess
    cases h : c.taskSwitched with
    | false => simpa using h
    | true => cases t.fpuUsed <;> rfl
  unfold fpuSeen
  rw [handleFpuAccess, hts]
  rfl

theorem fsBase_saveState (c : Cpu) (t : Thread) : (saveState c t).1.fsBase = c.fsBase := by
  unfold saveState handleFpuAccess
  cases c.taskSwitched with
  | false => rfl
  | true => cases t.fpuUsed <;> rfl

/-- **A thread switched to gets its FS base.** -/
theorem fsBase_switchTo (s : Running) (next : Thread) : (switchTo s next).fsBase = next.fsBase := by
  have hsave : (saveOutgoing s).fsBase = s.cpu.fsBase := by
    unfold saveOutgoing
    cases s.current with
    | none => rfl
    | some curr =>
      cases hu : curr.fpuUsed with
      | false => simp [hu]
      | true => simpa [hu] using fsBase_saveState s.cpu curr
  unfold switchTo
  by_cases h : next.fsBase ≠ (s.current.map fsBase).getD 0
  · simp only [if_pos h]
  · simp only [if_neg h]
    rw [hsave, s.fsBase]
    exact (not_not.mp h).symm

/-- A thread that has not used the FPU finds what the last one left. -/
theorem fpuSeen_switchTo (s : Running) (next : Thread) (h : next.fpuUsed = false) :
    fpuSeen (switchTo s next) next = (saveOutgoing s).fpuRegs := by
  have hts : (switchTo s next).taskSwitched = true := rfl
  have hregs : (switchTo s next).fpuRegs = (saveOutgoing s).fpuRegs := by
    unfold switchTo
    by_cases hfs : next.fsBase ≠ (s.current.map fsBase).getD 0
    · simp only [if_pos hfs]
    · simp only [if_neg hfs]
  rw [fpuSeen, handleFpuAccess, hts, h]
  exact hregs

/-- The child has the context of the parent, but for RAX and what SYSCALL clobbers. -/
def SameContext (child parent : UserState) : Prop :=
  child = { parent with rax := 0, rcx := child.rcx, r11 := child.r11 }

/-- What the child does not take from the parent has its default there already, and the FPU
    registers have not changed hands. -/
structure Inherits (c : Cpu) (parent : Thread) (f : SyscallFrame) (s : Running) : Prop where
  rbx : f.rbx = 0
  r8 : f.r8 = 0
  r9 : f.r9 = 0
  r10 : f.r10 = upper f.rcx
  rflags : sysretFlags f.r11 = 0x202
  fpu : (saveOutgoing s).fpuRegs = fpuSeen c parent
  sigmask : parent.sigmask = 0
  signalActions : parent.signalActions = List.replicate 64 {}
  alternateStack : parent.alternateStack = {}

/-- The child thread as it waits to be scheduled. -/
def forkChild (f : SyscallFrame) (parent : Thread) (i size : Nat) (cr3 top : Word) (process : Nat) :
    Thread :=
  { setForkChildReturn (copyThreadState f parent (newThread size 0 cr3 top process)) with
    parent := some i }

/-- **The two contexts compared.** The parent `t` called, and returns as `t'`. -/
theorem sameContext_iff {c c' : Cpu} {t t' : Thread} (f : SyscallFrame) (s : Running)
    (i size : Nat) (cr3 top : Word) (process : Nat) (value : Word) (hfs : c'.fsBase = t.fsBase)
    (hfpu : fpuSeen c' t' = fpuSeen c t) (hmask : t'.sigmask = t.sigmask)
    (hact : t'.signalActions = t.signalActions) (hstack : t'.alternateStack = t.alternateStack) :
    (∀ u, syscallReturn c' t' (f.setReturnValue value) = some u →
      ∃ v, interruptReturn (switchTo s (forkChild f t i size cr3 top process))
        (forkChild f t i size cr3 top process) = some v ∧ SameContext v u) ↔
    (isCanonical f.rcx = true → Inherits c t f s) := by
  have hcfs := fsBase_switchTo s (forkChild f t i size cr3 top process)
  have hcfpu := fpuSeen_switchTo s (forkChild f t i size cr3 top process) rfl
  have hrip : (forkChild f t i size cr3 top process).kernelFrame.rip = f.rcx := rfl
  have hrcx : (f.setReturnValue value).rcx = f.rcx := rfl
  simp only [syscallReturn, interruptReturn, hrip, hrcx]
  cases hcan : isCanonical f.rcx with
  | false =>
    simp only [Bool.not_false, if_true]
    exact ⟨fun _ h => (nomatch h), fun _ u h => (nomatch h)⟩
  | true =>
    simp only [Bool.not_true, false_eq_true, if_false, Option.some.injEq, hcfs, hcfpu, hfs,
      hfpu, hmask, hact, hstack, forall_eq', exists_eq_left', forall_const]
    unfold SameContext
    rw [UserState.mk.injEq]
    constructor
    · rintro ⟨-, hrbx, -, -, -, -, -, -, h8, h9, h10, -, -, -, -, -, -, hfl, -, -, -, hf, hm, ha, hst⟩
      exact ⟨hrbx.symm, h8, h9, h10, hfl.symm, hf, hm.symm, ha.symm, hst.symm⟩
    · intro h
      exact ⟨rfl, h.rbx.symm, rfl, rfl, rfl, rfl, rfl, rfl, h.r8, h.r9, h.r10, rfl, rfl, rfl, rfl,
        rfl, rfl, h.rflags.symm, rfl, rfl, rfl, h.fpu, h.sigmask.symm, h.signalActions.symm,
        h.alternateStack.symm⟩

/-! ## 5. Fork -/

/-- A CPU whose current thread calls `sys_fork`, with its FS base in the register. -/
structure ForkPoint where
  kernel : Kernel
  cpu : Cpu
  current : Option Nat
  fsBase : cpu.fsBase = ((current.bind kernel.thread?).map fsBase).getD 0

/-- The child is ready, and on the CPU `s` that switches to it it resumes with the context the
    parent returns with. -/
def Resumes (p : ForkPoint) (f : SyscallFrame) (s : Running) (k : KernelState) (c : Cpu)
    (pid : Nat) : Prop :=
  ∃ i parent child, p.current = some i ∧ k.thread? i = some parent ∧
    k.thread? p.kernel.threads.length = some child ∧ p.kernel.threads.length ∈ k.ready ∧
    ∀ u, syscallReturn c parent (f.setReturnValue (BitVec.ofNat 64 pid)) = some u →
      ∃ v, interruptReturn (switchTo s child) child = some v ∧ SameContext v u

/-- The same processes, threads and child lists. -/
def Unchanged (k₀ k : KernelState) : Prop :=
  (∀ q, k.process? q = k₀.process? q) ∧
  (∀ t, (k.thread? t).map children = (k₀.thread? t).map children) ∧
  k.ready = k₀.ready ∧ k.processCount = k₀.processCount

/-- What `sys_fork` is to do: the context on a success, nothing on an error. -/
def ForkRight (env : ForkEnv) (p : ForkPoint) (f : SyscallFrame) (s : Running) : Prop :=
  match p.kernel.sysFork env p.cpu p.current f with
  | (k, c, .ok pid) => Resumes p f s k c pid
  | (k, _, .error _) => Unchanged p.kernel.toKernelState k

/-- All that a fork needs is there. -/
def CanFork (env : ForkEnv) (p : ForkPoint) : Prop :=
  env.fdTable = true ∧ env.vmm.isSome = true ∧ env.process = true ∧ env.capabilities = true ∧
    (p.current.bind p.kernel.thread?).isSome = true ∧
    KernelState.CanCreate env p.kernel.toKernelState

/-- The process struct is allocated, and then the capabilities cannot be cloned. -/
def FailsInClone (env : ForkEnv) : Prop :=
  env.fdTable = true ∧ env.vmm.isSome = true ∧ env.process = true ∧ env.capabilities = false

/-- What the save in front of the creation does to CPU and parent. -/
theorem saved_spec (c : Cpu) (t : Thread) :
    ∃ c' used buffer, (if t.fpuUsed then saveState c t else (c, t)) =
        (c', { t with fpuUsed := used, fpuStateBuffer := buffer }) ∧
      c'.fsBase = c.fsBase ∧
      ∀ l, fpuSeen c' { t with fpuUsed := used, fpuStateBuffer := buffer, children := l } = fpuSeen c t := by
  cases hu : t.fpuUsed with
  | false =>
    refine ⟨c, t.fpuUsed, t.fpuStateBuffer, rfl, rfl, fun l => ?_⟩
    unfold fpuSeen handleFpuAccess
    simp only [hu]
    cases c.taskSwitched <;> rfl
  | true =>
    refine ⟨(saveState c t).1, (saveState c t).2.fpuUsed, (saveState c t).2.fpuStateBuffer, ?_,
      fsBase_saveState c t, fun l => fpuSeen_saveState c t _⟩
    unfold saveState handleFpuAccess
    simp only [hu]
    cases c.taskSwitched <;> rfl

theorem currentProcess_lt (k : Kernel) (current : Option Nat) :
    k.currentProcess current < k.processes.length := by
  unfold currentProcess
  cases h : (current.bind k.thread?).bind process with
  | none => exact k.init
  | some p =>
    cases current with
    | none => cases h
    | some i => exact k.attached i p h

theorem not_attached (k : Kernel) (t : Nat) :
    (k.thread? t).bind process ≠ some k.processes.length :=
  fun h => Nat.lt_irrefl _ (k.attached t _ h)

/-- What `sys_fork` comes to. -/
inductive Outcome (env : ForkEnv) (p : ForkPoint) (f : SyscallFrame) :
    KernelState × Cpu × Except Errno Nat → Prop where
  | leak {k : KernelState} {c : Cpu} (h : FailsInClone env)
      (stays : k.process? p.kernel.processes.length = some {}) : Outcome env p f (k, c, .error .ENOMEM)
  | undone {k : KernelState} {c : Cpu} {e : Errno} (h : ¬ FailsInClone env) (hc : ¬ CanFork env p)
      (unchanged : Unchanged p.kernel.toKernelState k) : Outcome env p f (k, c, .error e)
  | forked {k : KernelState} {c : Cpu} {pid i size proc : Nat} {t t' : Thread} {cr3 : Word}
      (h : ¬ FailsInClone env) (hc : CanFork env p) (current : p.current = some i)
      (before : p.kernel.thread? i = some t) (parent : k.thread? i = some t')
      (child : k.thread? p.kernel.threads.length =
        some (forkChild f t i size cr3 t.userStackTop proc))
      (ready : p.kernel.threads.length ∈ k.ready) (fsBase : c.fsBase = p.cpu.fsBase)
      (fpu : fpuSeen c t' = fpuSeen p.cpu t) (sigmask : t'.sigmask = t.sigmask)
      (signalActions : t'.signalActions = t.signalActions)
      (alternateStack : t'.alternateStack = t.alternateStack) : Outcome env p f (k, c, .ok pid)

/-- The destroyed child leaves nothing, where the threads are those there were, or one of them
    with its FPU state saved. -/
theorem unchanged_destroyed {env : ForkEnv} {k₀ : Kernel} {k k₁ : KernelState}
    (hlt : parent < k₀.processes.length)
    (hf : KernelState.Forked env k₀.toKernelState parent cr3 k₁)
    (hproc : ∀ q, k.process? q = k₁.process? q) (hready : k.ready = k₁.ready)
    (hcount : k.processCount = k₁.processCount)
    (hthreads : ∀ t, (k.thread? t).map children = (k₀.thread? t).map children)
    (hatt : ∀ t, (k.thread? t).bind process = (k₀.thread? t).bind process) :
    Unchanged k₀.toKernelState (k.destroyProcess k₀.processes.length) := by
  obtain ⟨-, hr, -, -, hcnt, hall⟩ := hf
  obtain ⟨hp, ht, hrd, hc⟩ := destroyProcess_forked (k := k) hlt
    (fun q => (hproc q).trans (hall q)) (fun t => by rw [hatt]; exact not_attached k₀ t)
  refine ⟨hp, fun t => by rw [ht]; exact hthreads t, by rw [hrd, hready, hr], ?_⟩
  rw [hc, hcount, hcnt]
  rfl

section Outcome

variable {env : ForkEnv} {p : ForkPoint}

/-- From the process just forked on, with a current thread. -/
theorem forkThread_outcome (f : SyscallFrame) {k : KernelState} {i : Nat} {t : Thread}
    (hclone : ¬ FailsInClone env) (hres : env.fdTable = true ∧ env.vmm.isSome = true ∧
      env.process = true ∧ env.capabilities = true)
    (hforked : KernelState.Forked env p.kernel.toKernelState (p.kernel.currentProcess p.current) cr3 k)
    (hi : p.current = some i) (ht : p.kernel.thread? i = some t) :
    Outcome env p f (k.forkThread env p.cpu i t p.kernel.processes.length f) := by
  obtain ⟨hthreads, -, -, hactive, -, -⟩ := id hforked
  obtain ⟨c, used, buffer, hsave, hfs, hfpu⟩ := saved_spec p.cpu t
  unfold forkThread
  simp only [hsave]
  generalize hk₁ : k.setThread i (fun _ => { t with fpuUsed := used, fpuStateBuffer := buffer }) = k₁
  have hthread : ∀ u, k₁.thread? u =
      if u = i then some { t with fpuUsed := used, fpuStateBuffer := buffer }
      else p.kernel.thread? u := by
    intro u
    rw [← hk₁, thread?_setThread, thread?_of_threads hthreads]
    by_cases hu : u = i
    · rw [if_pos hu, if_pos hu, hu, ht]
      rfl
    · rw [if_neg hu, if_neg hu]
  have hsame : ∀ {α : Type} (g : Option Thread → α),
      (∀ b u, g (some { t with fpuUsed := b, fpuStateBuffer := u }) = g (some t)) →
      ∀ u, g (k₁.thread? u) = g (p.kernel.thread? u) := by
    intro α g hg u
    rw [hthread]
    by_cases hu : u = i
    · rw [if_pos hu, hu, ht]
      exact hg used buffer
    · rw [if_neg hu]
  have hcan : KernelState.CanCreate env k₁ ↔ KernelState.CanCreate env p.kernel.toKernelState := by
    unfold KernelState.CanCreate
    rw [← hk₁, show (k.setThread i _).activeThreadCount = k.activeThreadCount from rfl, hactive]
  have hlen : k₁.threads.length = p.kernel.threads.length := by
    rw [← hk₁, setThread, List.length_modify, hthreads]
  generalize ((k₁.process? p.kernel.processes.length).map Process.cr3).getD 0 = cr3'
  rcases createUserThread_cases env k₁ 0 cr3' t.userStackTop p.kernel.processes.length
    with ⟨hno, hcreate⟩ | ⟨size, hyes, hcreate⟩
  · simp only [hcreate]
    exact .undone hclone (fun h => hno (hcan.mpr h.2.2.2.2.2)) (unchanged_destroyed
      (currentProcess_lt p.kernel p.current) hforked (fun q => by rw [← hk₁]; rfl)
      (by rw [← hk₁]; rfl) (by rw [← hk₁]; rfl) (hsame (Option.map children) fun _ _ => rfl)
      (hsame (fun o => o.bind process) fun _ _ => rfl))
  simp only [hcreate, hlen]
  obtain ⟨hparent, hchild⟩ := started_thread? (hlen ▸ thread?_lt ht)
    (newThread size 0 cr3' t.userStackTop p.kernel.processes.length)
    (fun u => setForkChildReturn (copyThreadState f
      { t with fpuUsed := used, fpuStateBuffer := buffer } u))
    (k₁.activeThreadCount + 1)
  rw [hthread, if_pos rfl, hlen] at hparent
  rw [hlen] at hchild
  have hforkChild : _ = some (forkChild f t i size cr3' t.userStackTop
    p.kernel.processes.length) := hchild
  have hsome : (p.current.bind p.kernel.thread?).isSome = true := by
    rw [hi]
    exact isSome_iff_exists.mpr ⟨t, ht⟩
  exact .forked hclone ⟨hres.1, hres.2.1, hres.2.2.1, hres.2.2.2, hsome, hcan.mp hyes⟩ hi ht hparent
    hforkChild (mem_append_right _ (mem_singleton_self _)) hfs (hfpu _) rfl rfl rfl

theorem sysFork_outcome (env : ForkEnv) (p : ForkPoint) (f : SyscallFrame) :
    Outcome env p f (p.kernel.sysFork env p.cpu p.current f) := by
  have hlt := currentProcess_lt p.kernel p.current
  unfold sysFork
  by_cases hres : env.fdTable = true ∧ env.vmm.isSome = true ∧ env.process = true
  · obtain ⟨hfd, hvmm, halloc⟩ := hres
    obtain ⟨cr3, hcr3⟩ := isSome_iff_exists.mp hvmm
    cases hcaps : env.capabilities with
    | false =>
      simp only [forkProcess, hfd, hcr3, halloc, hcaps, Bool.not_true, Bool.not_false,
        false_eq_true, if_false, if_true]
      exact .leak ⟨hfd, hvmm, halloc, hcaps⟩ ((join_append _ _ _).trans (if_pos rfl))
    | true =>
      have hclone : ¬ FailsInClone env := fun h =>
        absurd (h.2.2.2.symm.trans hcaps) false_ne_true
      obtain ⟨k, hk, hforked⟩ := forkProcess_ok hlt hfd hcr3 halloc hcaps
      have hthread : ∀ t, k.thread? t = p.kernel.thread? t :=
        thread?_of_threads hforked.1
      simp only [hk, hthread]
      cases hcur : p.current with
      | none =>
        refine .undone hclone (fun h => ?_) (unchanged_destroyed hlt hforked (fun _ => rfl) rfl
          rfl (fun t => by rw [hthread]) (fun t => by rw [hthread]))
        have := h.2.2.2.2.1
        rw [hcur] at this
        cases this
      | some i =>
        cases ht : p.kernel.thread? i with
        | none =>
          simp only [bind_some, ht, map_none]
          refine .undone hclone (fun h => ?_) (unchanged_destroyed hlt hforked (fun _ => rfl)
            rfl rfl (fun t => by rw [hthread]) (fun t => by rw [hthread]))
          have := h.2.2.2.2.1
          rw [hcur] at this
          change (p.kernel.thread? i).isSome = true at this
          rw [ht] at this
          cases this
        | some t =>
          simp only [bind_some, ht, map_some]
          exact forkThread_outcome f hclone ⟨hfd, hvmm, halloc, hcaps⟩ hforked hcur ht
  · simp only [forkProcess_none _ hres]
    exact .undone (fun h => hres ⟨h.1, h.2.1, h.2.2.1⟩) (fun h => hres ⟨h.1, h.2.1, h.2.2.1⟩)
      ⟨fun _ => rfl, fun _ => rfl, rfl, rfl⟩

/-- A success that is right finds nothing in the parent that the child does not take over. -/
theorem inherits_of_forkRight {f : SyscallFrame} {s : Running} {t : Thread}
    (h : ForkRight env p f s) (hc : CanFork env p) (hcan : isCanonical f.rcx = true)
    (ht : p.current.bind p.kernel.thread? = some t) : Inherits p.cpu t f s := by
  unfold ForkRight at h
  generalize hr : p.kernel.sysFork env p.cpu p.current f = r at h
  have hout : Outcome env p f r := hr ▸ sysFork_outcome env p f
  cases hout with
  | leak hl stays => exact absurd (hl.2.2.2.symm.trans hc.2.2.2.1) false_ne_true
  | undone hl hno unchanged => exact absurd hc hno
  | @forked k c pid i size proc u u' cr3 hl hc current before parent child ready fsBase fpu sigmask
      signalActions alternateStack =>
      obtain ⟨j, parent', child', hj, hp', hch', -, hcontext⟩ := h
      obtain rfl : i = j := Option.some.inj (current.symm.trans hj)
      obtain rfl : u' = parent' := Option.some.inj (parent.symm.trans hp')
      obtain rfl := Option.some.inj (child.symm.trans hch')
      have hfs := fsBase.trans (p.fsBase.trans (by rw [ht]))
      rw [current] at ht
      obtain rfl : u = t := Option.some.inj (before.symm.trans ht)
      exact (sameContext_iff f s i size cr3 u.userStackTop proc _ hfs fpu sigmask signalActions
        alternateStack).mp hcontext hcan

end Outcome

/-- One process with one thread, which calls `fork` with the given value in RBX. -/
def smallKernel : Kernel where
  processes := [some { pid := 1 }]
  threads := [some (newThread 0 0x401000 0x1000 0x7ffff000 0)]
  processCount := 1
  activeThreadCount := 1
  attached t p h := by
    cases t with
    | zero =>
      cases h
      decide
    | succ t => cases h
  init := by decide

def smallFork : ForkPoint where
  kernel := smallKernel
  cpu := ⟨[1], false, 0⟩
  current := some 0
  fsBase := rfl

def smallFrame (rbx : Word) : SyscallFrame :=
  { r15 := 15, r14 := 14, r13 := 13, r12 := 12, rbp := 0x7fffef00, rbx := rbx, r9 := 0, r8 := 0,
    r10 := 0, rdx := 3, rsi := 2, rdi := 1, rax := 57, rcx := 0x401234, r11 := 0x202,
    userRsp := 0x7fffee00 }

/-- The same CPU, later. -/
def laterCpu : Running := ⟨⟨[1], false, 0⟩, none, rfl⟩

end Zigk.Proc
