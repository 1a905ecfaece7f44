/-
  Subject:   WHAT A RETURN FROM A SIGNAL HANDLER RESTORES.

  A delivery writes the interrupted context to the user stack, `rt_sigreturn` reads it back. Between
  the two anything may happen that leaves that context alone: the handler, system calls, other
  threads, further deliveries and their returns.

  * `pushFrame_spec` -- where the parts of a frame are, that they are written and nothing else is;
  * `Delivery` -- one delivery, with the state that it interrupted; `Context` -- what of this state
    is to come back;
  * `sysRtSigreturn_held` -- **what `rt_sigreturn` makes of a frame that is still there**;
  * **`signalReturn`** -- over every run in which contexts are left alone, with deliveries nested to
    any depth: the return from the innermost handler restores what its own delivery interrupted,
    exactly where that is restorable.
-/
import Zigk.Proc.SignalMask

namespace Zigk.Proc

open List Except

open ByteMemory (ofWords)

variable {c c' : Cpu} {t t' : SigThread} {m m' m₁ : ByteMemory}

/-! ## 1. The layout of a frame -/

theorem length_toWords (u : UContext) : u.toWords.length = UContext.size / 8 := by
  simp [UContext.toWords]
  rfl

/-- The three selectors that share a word. -/
theorem segments_unpack (cs gs fs : BitVec 16) :
    let w : Word := cs.setWidth 64 ||| gs.setWidth 64 <<< 16 ||| fs.setWidth 64 <<< 32
    w.setWidth 16 = cs ∧ (w >>> 16).setWidth 16 = gs ∧ (w >>> 32).setWidth 16 = fs := by
  refine ⟨?_, ?_, ?_⟩ <;> refine BitVec.eq_of_getLsbD_eq fun i hi => ?_
  · simp
  · simp
    grind
  · simp
    grind

/-- Reading the words of a context gives the registers, the segment selectors among them. -/
theorem mcontext_ofWords (u : UContext) : (UContext.ofWords u.toWords).mcontext = u.mcontext := by
  cases u with
  | mk _ _ _ mc _ =>
    cases mc
    simp only [UContext.ofWords, UContext.toWords]
    simp only [cons_append, nil_append, getD_cons_succ, getD_cons_zero,
      replicate_succ, replicate_zero, MContext.mk.injEq, true_and, and_true]
    exact segments_unpack _ _ _

theorem sigmask_ofWords (u : UContext) : (UContext.ofWords u.toWords).sigmask = u.sigmask := rfl

theorem alignDown_le (n a : Nat) : alignDown n a ≤ a := Nat.sub_le a (a % n)

theorem orTrap_ok {α : Type} {x : Except Trap α} {a : α} (h : orTrap x = .ok a) : x = .ok a := by
  cases x with
  | error e => cases h
  | ok b => cases h; rfl

theorem orFault_ok {α : Type} {x : Option α} {a : α} (h : orFault x = .ok a) : x = some a := by
  cases x with
  | none => cases h
  | some b => cases h; rfl

variable {a : Nat} {l : List (BitVec 8)} {info : Option KernelSigInfo}

theorem Trap.sub_ok {b d : Nat} (h : Trap.sub a b = .ok d) : b ≤ a ∧ a - b = d := by
  unfold Trap.sub at h
  split_ifs at h with hb
  · cases h
    exact ⟨hb, rfl⟩

theorem copyToUser_ok (h : copyToUser m a l = some m') :
    isValidUserPtr a l.length = true ∧ m.covers a l.length = true ∧ m' = m.write a l := by
  unfold copyToUser at h
  split_ifs at h with hv
  rw [Bool.and_eq_true] at hv
  cases h
  exact ⟨hv.1, hv.2, rfl⟩

/-- A frame below the given top of a stack. -/
def layoutAt (top : Nat) (action : SigAction) (fpuSize : Nat) : FrameLayout :=
  let fpstate := alignDown 64 (alignDown 16 (top - 128) - fpuSize)
  let siginfo := if action.flags &&& SA_SIGINFO ≠ 0 then alignDown 16 (fpstate - SIGINFO_SIZE) else 0
  let below := if action.flags &&& SA_SIGINFO ≠ 0 then siginfo else fpstate
  let ucontext := alignDown 16 (below - UContext.size)
  ⟨fpstate, siginfo, ucontext, ucontext - 8⟩

/-- Bytes that are in memory and can be read. -/
structure Holds (m : ByteMemory) (a : Nat) (l : List (BitVec 8)) : Prop where
  valid : isValidUserPtr a l.length = true
  covers : m.covers a l.length = true
  read : m.read a l.length = l

theorem Holds.same (h : Holds m a l) (hs : ByteMemory.Same m m' a l.length) : Holds m' a l :=
  ⟨h.valid, by rw [hs.covers]; exact h.covers, by rw [hs.read]; exact h.read⟩

theorem Holds.of_copyToUser (h : copyToUser m a l = some m') :
    Holds m' a l := by
  obtain ⟨hv, hc, rfl⟩ := copyToUser_ok h
  exact ⟨hv, hc, ByteMemory.read_write m a l⟩

/-- A write of other bytes. -/
theorem Holds.other {b : Nat} {l' : List (BitVec 8)} (h : Holds m a l)
    (hw : copyToUser m b l' = some m') (hd : b + l'.length ≤ a ∨ a + l.length ≤ b) : Holds m' a l := by
  obtain ⟨-, -, rfl⟩ := copyToUser_ok hw
  exact h.same (ByteMemory.Same.write hd)

/-- What `copyFromUser` reads. -/
theorem Holds.copyFromUser (h : Holds m a l) :
    Proc.copyFromUser m a l.length = some l := by
  unfold Proc.copyFromUser
  rw [h.valid, h.covers, h.read]
  rfl

theorem Holds.readWords {l : List Word} (h : Holds m a (ofWords l)) :
    Proc.readWords m a l.length = some l := by
  have hr := h.copyFromUser
  rw [ByteMemory.length_ofWords] at hr
  rw [Proc.readWords, hr, Option.map_some, ByteMemory.toWords_ofWords]

/-! ## 2. What a delivery writes -/

/-- The context that a delivery writes. -/
def savedContext (t : SigThread) (usingAltstack : Bool) (fpstate : Nat) (regs : SavedRegs) : UContext :=
  { flags := 0, link := 0, stack := stackInfo t usingAltstack,
    mcontext := regs (BitVec.ofNat 64 fpstate) t.returnMask, sigmask := t.returnMask }

structure Pushed (c : Cpu) (t : SigThread) (m : ByteMemory) (rsp : Word) (a : SigAction)
    (regs : SavedRegs) (c' : Cpu) (t' : SigThread) (m' : ByteMemory) (l : FrameLayout) : Prop where
  cpu : c' = (saveFpu c t).1
  thread : t' = (saveFpu c t).2
  ucontext : ∃ top alt, handlerStack rsp.toNat a t.alternateStack = .ok (top, alt) ∧
    l = layoutAt top a t'.fpuStateBuffer.length ∧
    Holds m' l.ucontext (ofWords (savedContext t' alt l.fpstate regs).toWords)
  fpstate : Holds m' l.fpstate t'.fpuStateBuffer
  order : l.ucontext + UContext.size ≤ l.fpstate
  lt : l.fpstate < 2 ^ 64
  frame : ∀ x k, x + k ≤ l.sp ∨ l.fpstate + t'.fpuStateBuffer.length ≤ x → ByteMemory.Same m m' x k

theorem same_of_copyToUser {x k : Nat} (h : copyToUser m a l = some m')
    (hd : a + l.length ≤ x ∨ x + k ≤ a) : ByteMemory.Same m m' x k := by
  obtain ⟨-, -, rfl⟩ := copyToUser_ok h
  exact ByteMemory.Same.write hd

/-- The `siginfo_t` goes between the context and the FPU state. -/
theorem writeSiginfo_spec {a : SigAction} {addr : Nat} {si : KernelSigInfo}
    (h : writeSiginfo m a addr si = .ok m') :
    (a.flags &&& SA_SIGINFO = 0 ∧ m' = m) ∨
      (a.flags &&& SA_SIGINFO ≠ 0 ∧ ∃ l, l.length = SIGINFO_SIZE ∧ copyToUser m addr l = some m') := by
  unfold writeSiginfo at h
  split_ifs at h with ha
  · obtain ⟨ws, hw, h⟩ := (bind_ok_iff _ _).mp h
    refine .inr ⟨ha, ofWords ws, ?_, orFault_ok h⟩
    unfold siginfoWords at hw
    dsimp only at hw
    split_ifs at hw <;> cases hw <;> simp
  · cases h
    exact .inl ⟨not_not.mp ha, rfl⟩

theorem handlerStack_lt {rsp top : Nat} {a : SigAction} {s : StackT} {alt : Bool} (h0 : rsp < 2 ^ 64)
    (h : handlerStack rsp a s = .ok (top, alt)) : top < 2 ^ 64 := by
  have hadd : ∀ x y z, addChecked x y = .ok z → z < 2 ^ 64 := by
    intro x y z hz
    unfold addChecked at hz
    split_ifs at hz with hlt
    · cases hz
      exact hlt
  unfold handlerStack at h
  split_ifs at h with ha hb
  · obtain ⟨z, hz, h⟩ := (bind_ok_iff _ _).mp h
    cases h
    exact hadd _ _ _ hz
  · obtain ⟨z, hz, h⟩ := (bind_ok_iff _ _).mp h
    have hlt := hadd _ _ _ hz
    split_ifs at h <;> cases h
    · exact h0
    · exact hlt
  · cases h
    exact h0

/-- The room of the `siginfo_t` is below the FPU state. -/
theorem reserveSiginfo_spec {a : SigAction} {fp si sp : Nat} (h : reserveSiginfo a fp = .ok (si, sp)) :
    si = (if a.flags &&& SA_SIGINFO ≠ 0 then alignDown 16 (fp - SIGINFO_SIZE) else 0) ∧
      sp = (if a.flags &&& SA_SIGINFO ≠ 0 then si else fp) ∧
      (a.flags &&& SA_SIGINFO ≠ 0 → si + SIGINFO_SIZE ≤ fp) ∧ sp ≤ fp := by
  unfold reserveSiginfo at h
  by_cases ha : a.flags &&& SA_SIGINFO ≠ 0
  · rw [if_pos ha] at h
    obtain ⟨x, hx, h⟩ := (bind_ok_iff _ _).mp h
    obtain ⟨hb, rfl⟩ := Trap.sub_ok hx
    obtain ⟨rfl, rfl⟩ := Prod.mk.inj (Except.ok.inj h)
    have := alignDown_le 16 (fp - SIGINFO_SIZE)
    rw [if_pos ha, if_pos ha]
    exact ⟨rfl, rfl, fun _ => by omega, by omega⟩
  · rw [if_neg ha] at h
    obtain ⟨rfl, rfl⟩ := Prod.mk.inj (Except.ok.inj h)
    rw [if_neg ha, if_neg ha]
    exact ⟨rfl, rfl, fun h => absurd h ha, le_refl _⟩

variable {rsp : Word} {n : Nat} {regs : SavedRegs}

theorem pushFrame_spec {a : SigAction} {l : FrameLayout}
    (h : pushFrame c t m rsp n a info regs = .ok (c', t', m', l)) :
    Pushed c t m rsp a regs c' t' m' l := by
  obtain ⟨⟨top, alt⟩, htop, h⟩ := (bind_ok_iff _ _).mp h
  obtain ⟨sp₁, h₁, h⟩ := (bind_ok_iff _ _).mp h
  obtain ⟨sp₂, h₂, h⟩ := (bind_ok_iff _ _).mp h
  obtain ⟨m₁, hm₁, h⟩ := (bind_ok_iff _ _).mp h
  obtain ⟨⟨si, sp₃⟩, h₃, h⟩ := (bind_ok_iff _ _).mp h
  dsimp only at h
  obtain ⟨sp₄, h₄, h⟩ := (bind_ok_iff _ _).mp h
  obtain ⟨m₂, hm₂, h⟩ := (bind_ok_iff _ _).mp h
  obtain ⟨m₃, hm₃, h⟩ := (bind_ok_iff _ _).mp h
  obtain ⟨sp₅, h₅, h⟩ := (bind_ok_iff _ _).mp h
  obtain ⟨m₄, hm₄, h⟩ := (bind_ok_iff _ _).mp h
  obtain ⟨hb₁, e₁⟩ := Trap.sub_ok (orTrap_ok h₁)
  obtain ⟨hb₂, e₂⟩ := Trap.sub_ok (orTrap_ok h₂)
  obtain ⟨hb₄, e₄⟩ := Trap.sub_ok (orTrap_ok h₄)
  obtain ⟨hb₅, e₅⟩ := Trap.sub_ok (orTrap_ok h₅)
  have hm₁ := orFault_ok hm₁
  have hm₂ := orFault_ok hm₂
  have hm₄ := orFault_ok hm₄
  cases h
  subst e₁ e₂ e₄ e₅
  -- the context is below the `siginfo_t`, or below the FPU state where there is none
  set fp := alignDown 64 (alignDown 16 (top - 128) - (saveFpu c t).2.fpuStateBuffer.length) with hfp
  obtain ⟨hsi, hsp₃, hsi', hle⟩ := reserveSiginfo_spec (orTrap_ok h₃)
  set uc := alignDown 16 (sp₃ - UContext.size) with huc
  have huc' : uc + UContext.size ≤ sp₃ := by
    have := alignDown_le 16 (sp₃ - UContext.size)
    omega
  have hlen : (ofWords (savedContext (saveFpu c t).2 alt fp regs).toWords).length = UContext.size := by
    rw [ByteMemory.length_ofWords, length_toWords]
    rfl
  have hlen₁ : (ofWords [a.restorer]).length = 8 := rfl
  have hlt : uc - 8 + 8 = uc := Nat.sub_add_cancel hb₅
  -- the write of the `siginfo_t`, seen from anywhere else
  have hsame₃ : ∀ x k, x + k ≤ uc + UContext.size ∨ fp ≤ x → ByteMemory.Same m₂ m₃ x k := by
    intro x k hx
    rcases writeSiginfo_spec hm₃ with ⟨-, rfl⟩ | ⟨ha, b, hb, hw⟩
    · exact .refl _ x k
    · have := hsi' ha
      rw [if_pos ha] at hsp₃
      exact same_of_copyToUser hw (by rw [hb]; omega)
  have hfp64 : fp < 2 ^ 64 := by
    have h1 := alignDown_le 64 (alignDown 16 (top - 128) - (saveFpu c t).2.fpuStateBuffer.length)
    have h2 := alignDown_le 16 (top - 128)
    have h3 := handlerStack_lt rsp.isLt (orTrap_ok htop)
    omega
  refine ⟨rfl, rfl, ⟨top, alt, orTrap_ok htop, ?_, ?_⟩, ?_, huc'.trans hle, hfp64, ?_⟩
  · simp only [layoutAt, ← hfp, ← hsi, ← hsp₃, ← huc]
  · refine Holds.other (Holds.same (Holds.of_copyToUser hm₂) (hsame₃ _ _ (.inl ?_))) hm₄ (.inl ?_)
    · exact Nat.add_le_add_left (le_of_eq hlen) uc
    · rw [hlen₁]
      exact le_of_eq hlt
  · have h1 := (Holds.of_copyToUser hm₁).other hm₂
      (.inl (show uc + (ofWords (savedContext (saveFpu c t).2 alt fp regs).toWords).length ≤ fp by
        rw [hlen]; omega))
    exact (h1.same (hsame₃ _ _ (.inr (le_refl _)))).other hm₄ (.inl (by rw [hlen₁]; omega))
  · intro x k hx
    dsimp only at hx
    have e₁ : ByteMemory.Same m m₁ x k := same_of_copyToUser hm₁ (by omega)
    have e₂ : ByteMemory.Same m₁ m₂ x k := same_of_copyToUser hm₂
      (show uc + (ofWords (savedContext (saveFpu c t).2 alt fp regs).toWords).length ≤ x ∨ x + k ≤ uc by
        rw [hlen]; omega)
    exact ((e₁.trans e₂).trans (hsame₃ x k (by omega))).trans
      (same_of_copyToUser hm₄ (by rw [hlen₁]; omega))

/-! ## 3. Contexts -/

structure Registers where
  rax : Word
  rbx : Word
  rcx : Word
  rdx : Word
  rsi : Word
  rdi : Word
  rbp : Word
  rsp : Word
  r8 : Word
  r9 : Word
  r10 : Word
  r11 : Word
  r12 : Word
  r13 : Word
  r14 : Word
  r15 : Word
  rip : Word
  rflags : Word
  deriving DecidableEq, Repr

def InterruptFrame.registers (f : InterruptFrame) : Registers :=
  ⟨f.rax, f.rbx, f.rcx, f.rdx, f.rsi, f.rdi, f.rbp, f.rsp, f.r8, f.r9, f.r10, f.r11, f.r12, f.r13,
    f.r14, f.r15, f.rip, f.rflags⟩

def SyscallFrame.registers (f : SyscallFrame) : Registers :=
  ⟨f.rax, f.rbx, f.rcx, f.rdx, f.rsi, f.rdi, f.rbp, f.userRsp, f.r8, f.r9, f.r10, f.r11, f.r12, f.r13,
    f.r14, f.r15, f.rcx, f.r11⟩

def MContext.registers (mc : MContext) : Registers :=
  ⟨mc.rax, mc.rbx, mc.rcx, mc.rdx, mc.rsi, mc.rdi, mc.rbp, mc.rsp, mc.r8, mc.r9, mc.r10, mc.r11,
    mc.r12, mc.r13, mc.r14, mc.r15, mc.rip, mc.rflags⟩

/-- CF, PF, AF, ZF, SF and OF. -/
abbrev ARITHMETIC_FLAGS : Word := 0x8D5

/-- What a program has of its state, as far as it is to come back. -/
structure Context where
  registers : Registers
  sigmask : SigSet
  fsBase : Word
  fpu : FpuState
  deriving DecidableEq, Repr

/-- The registers after an IRETQ. -/
def iretRegisters (f : InterruptFrame) : Registers :=
  { f.registers with rflags := f.rflags &&& ARITHMETIC_FLAGS }

/-- The registers after a SYSRET, as the end of `_syscall_entry` leaves them. -/
def sysretRegisters (f : SyscallFrame) : Registers :=
  { f.registers with
    r8 := 0, r9 := 0, r10 := upper f.rcx, rflags := sysretFlags f.r11 &&& ARITHMETIC_FLAGS }

/-- The context of a user state. -/
def UserState.context (u : UserState) : Context :=
  ⟨⟨u.rax, u.rbx, u.rcx, u.rdx, u.rsi, u.rdi, u.rbp, u.rsp, u.r8, u.r9, u.r10, u.r11, u.r12, u.r13,
    u.r14, u.r15, u.rip, u.rflags &&& ARITHMETIC_FLAGS⟩, u.sigmask, u.fsBase, u.fpu⟩

/-- The code that a signal interrupts: anywhere, or at the end of a system call. -/
inductive Interrupted where
  | interrupt (f : InterruptFrame)
  | syscall (f : SyscallFrame)

namespace Interrupted

def saved : Interrupted → Registers
  | interrupt f => f.registers
  | syscall f => f.registers

/-- The registers without the signal. -/
def registers : Interrupted → Registers
  | interrupt f => iretRegisters f
  | syscall f => sysretRegisters f

def isSyscall : Interrupted → Bool
  | interrupt _ => false
  | syscall _ => true

/-- SYSCALL itself uses two registers. -/
def view : Interrupted → Registers → Registers
  | interrupt _, r => r
  | syscall _, r => { r with rcx := 0, r11 := 0 }

end Interrupted

/-- A delivery: the state when its handler was started, and where the frame is. -/
structure Delivery where
  cpu : Cpu
  thread : SigThread
  interrupted : Interrupted
  layout : FrameLayout

namespace Delivery

/-- What the program would have had without the signal. -/
def context (d : Delivery) : Context :=
  ⟨d.interrupted.registers, d.thread.returnMask, d.thread.fsBase, fpuSeen d.cpu d.thread.toThread⟩

def buffer (d : Delivery) : FpuState := (saveFpu d.cpu d.thread).2.fpuStateBuffer

end Delivery

/-- What the program has after a system call. -/
def returnedContext (c : Cpu) (t : SigThread) (f : SyscallFrame) : Context :=
  ⟨sysretRegisters f, t.sigmask, t.fsBase, fpuSeen c t.toThread⟩

/-- `rt_sigreturn` from where the frame of the delivery is leaves what the delivery interrupted. -/
def Restores (c : Cpu) (t : SigThread) (m : ByteMemory) (f : SyscallFrame) (d : Delivery) : Prop :=
  ∃ c' t' f', sysRtSigreturn c t m f = .ok (c', t', f') ∧
    { returnedContext c' t' f' with
      registers := d.interrupted.view (returnedContext c' t' f').registers } =
    { d.context with registers := d.interrupted.view d.context.registers }

/-- The FPU state that is saved is the one the thread has. -/
def FpuSaved (d : Delivery) : Prop :=
  d.thread.fpuUsed = true ∨ fpuSeen d.cpu d.thread.toThread = d.thread.fpuStateBuffer

/-- Registers that come back by way of a SYSRET. -/
def ReturnableRegisters : Interrupted → Prop
  | .interrupt f =>
    isValidUserPtr f.rip.toNat 1 = true ∧ f.r8 = 0 ∧ f.r9 = 0 ∧ f.r10 = upper f.rip ∧ f.rcx = f.rip ∧
      f.r11 = f.rflags &&& SAFE_RFLAGS_MASK ||| REQUIRED_RFLAGS
  | .syscall f => isValidUserPtr f.rcx.toNat 1 = true

/-- **The states that come back.** -/
structure Restorable (d : Delivery) : Prop where
  registers : ReturnableRegisters d.interrupted
  fsBase : d.thread.fsBase = 0
  fpu : FpuSaved d

/-! ## 4. The return -/

/-- **The frame of a delivery is in memory.** -/
structure Held (m : ByteMemory) (d : Delivery) : Prop where
  ucontext : ∃ u : UContext, Holds m d.layout.ucontext (ofWords u.toWords) ∧
    u.sigmask = d.thread.returnMask ∧ u.mcontext.registers = d.interrupted.saved ∧
    u.mcontext.fs = 0 ∧ u.mcontext.fpstate = BitVec.ofNat 64 d.layout.fpstate
  fpstate : Holds m d.layout.fpstate d.buffer
  order : d.layout.ucontext + UContext.size ≤ d.layout.fpstate
  lt : d.layout.fpstate < 2 ^ 64

/-- The frame of the system call after `rt_sigreturn`. -/
def returnFrame (r : Registers) : SyscallFrame :=
  { r15 := r.r15, r14 := r.r14, r13 := r.r13, r12 := r.r12, r10 := r.r10, r9 := r.r9, r8 := r.r8,
    rdi := r.rdi, rsi := r.rsi, rbp := r.rbp, rbx := r.rbx, rdx := r.rdx, rax := r.rax, rcx := r.rip,
    userRsp := r.rsp, r11 := r.rflags &&& SAFE_RFLAGS_MASK ||| REQUIRED_RFLAGS }

theorem taskSwitched_handleFpuAccess (c : Cpu) (t : Thread) :
    (handleFpuAccess c t).1.taskSwitched = false := by
  unfold handleFpuAccess
  split_ifs with h
  · simpa using h
  · rfl
  · rfl

/-- The buffer that a delivery saves. -/
theorem saveFpu_buffer (c : Cpu) (t : SigThread) :
    (saveFpu c t).2.fpuStateBuffer = if t.fpuUsed then fpuSeen c t.toThread else t.fpuStateBuffer := by
  unfold saveFpu
  split_ifs <;> rfl

variable {d : Delivery} {f : SyscallFrame}

theorem restoreFpu_held (h : Holds m a l) (ha : a < 2 ^ 64)
    (hl : t.fpuStateBuffer.length = l.length) :
    ∃ c', restoreFpu c t m (BitVec.ofNat 64 a) = .ok (c', { t with fpuStateBuffer := l, fpuUsed := true }) ∧
      c'.fpuRegs = l ∧ c'.taskSwitched = false := by
  have e : (BitVec.ofNat 64 a).toNat = a := by
    rw [BitVec.toNat_ofNat, Nat.mod_eq_of_lt ha]
  have h0 : BitVec.ofNat 64 a ≠ 0 := by
    intro h0
    have ha0 : a = 0 := by rw [← e, h0]; rfl
    have hv := h.valid
    rw [ha0] at hv
    exact absurd hv (by simp [isValidUserPtr])
  have hn : ¬ (BitVec.ofNat 64 a = 0 ∨ (!isValidUserPtr a l.length) = true) := by
    rw [h.valid]
    simp only [h0, Bool.not_true, Bool.false_eq_true, or_self, not_false_eq_true]
  unfold restoreFpu
  rw [hl, e, if_neg hn, h.copyFromUser]
  exact ⟨_, rfl, rfl, taskSwitched_handleFpuAccess _ _⟩

/-- `rt_sigreturn` reads the context where the frame has it. -/
theorem Held.readWords_ucontext (h : Held m d)
    (hf : f.userRsp = BitVec.ofNat 64 d.layout.ucontext) {u : UContext}
    (hu : Holds m d.layout.ucontext (ofWords u.toWords)) :
    readWords m f.userRsp.toNat (UContext.size / 8) = some u.toWords := by
  have hlt : d.layout.ucontext < 2 ^ 64 := by
    have := h.order
    have := h.lt
    omega
  rw [hf, BitVec.toNat_ofNat, Nat.mod_eq_of_lt hlt, ← length_toWords u]
  exact hu.readWords

/-- **What `rt_sigreturn` makes of a frame that is still there.** -/
theorem sysRtSigreturn_held (h : Held m d) (hl : t.fpuStateBuffer.length = d.buffer.length)
    (hf : f.userRsp = BitVec.ofNat 64 d.layout.ucontext)
    (hv : isValidUserPtr d.interrupted.saved.rip.toNat 1 = true) :
    ∃ c' t', sysRtSigreturn c t m f = .ok (c', t', returnFrame d.interrupted.saved) ∧
      t'.sigmask = d.thread.returnMask ∧ t'.fsBase = 0 ∧ fpuSeen c' t'.toThread = d.buffer := by
  obtain ⟨u, hu, hm, hr, hfs, hfp⟩ := h.ucontext
  have hread := h.readWords_ucontext hf hu
  obtain ⟨c', hc', hregs, hts⟩ := restoreFpu_held (c := c)
    (t := { t with fsBase := u.mcontext.fs.setWidth 64, sigmask := u.sigmask }) h.fpstate h.lt hl
  let t₁ : SigThread := { t with fsBase := u.mcontext.fs.setWidth 64, sigmask := u.sigmask }
  refine ⟨c', { t₁ with fpuStateBuffer := d.buffer, fpuUsed := true }, ?_, hm, ?_, ?_⟩
  rotate_left
  · show u.mcontext.fs.setWidth 64 = 0
    rw [hfs]
    rfl
  · unfold fpuSeen handleFpuAccess
    rw [hts]
    exact hregs
  have hrip : u.mcontext.rip = d.interrupted.saved.rip := congrArg Registers.rip hr
  unfold sysRtSigreturn
  rw [show f.getUserRsp = f.userRsp from rfl, hread]
  simp only [orFault, ok_bind, mcontext_ofWords, sigmask_ofWords, hrip, hv, hfp, hc']
  rw [← hr]
  rfl

/-- A return to an address outside of the user's range ends the thread. -/
theorem sysRtSigreturn_outside (h : Held m d) (hf : f.userRsp = BitVec.ofNat 64 d.layout.ucontext)
    (hv : ¬ isValidUserPtr d.interrupted.saved.rip.toNat 1 = true) :
    sysRtSigreturn c t m f = .error (.exit (128 + 11)) := by
  obtain ⟨u, hu, -, hr, -, -⟩ := h.ucontext
  have hread := h.readWords_ucontext hf hu
  have hrip : u.mcontext.rip = d.interrupted.saved.rip := congrArg Registers.rip hr
  unfold sysRtSigreturn
  rw [show f.getUserRsp = f.userRsp from rfl, hread]
  simp only [orFault, ok_bind, mcontext_ofWords, hrip]
  rw [if_pos (by simpa using hv)]

/-- The arithmetic flags pass both masks. -/
theorem safe_flags (r : Word) :
    (r &&& SAFE_RFLAGS_MASK ||| REQUIRED_RFLAGS) &&& ARITHMETIC_FLAGS = r &&& ARITHMETIC_FLAGS := by
  simp only [BitVec.and_or_distrib_right, BitVec.and_assoc]
  simp

theorem sysret_flags (r : Word) : sysretFlags r &&& ARITHMETIC_FLAGS = r &&& ARITHMETIC_FLAGS := by
  unfold sysretFlags
  simp only [BitVec.and_or_distrib_right, BitVec.and_assoc]
  simp

/-- Which registers come back. -/
theorem registers_iff (i : Interrupted) (hv : isValidUserPtr i.saved.rip.toNat 1 = true) :
    i.view (sysretRegisters (returnFrame i.saved)) = i.view i.registers ↔ ReturnableRegisters i := by
  cases i with
  | interrupt f =>
    simp only [Interrupted.view, Interrupted.registers, Interrupted.saved, sysretRegisters,
      returnFrame, iretRegisters, InterruptFrame.registers, SyscallFrame.registers,
      Registers.mk.injEq, sysret_flags, safe_flags, ReturnableRegisters, true_and, and_true]
    constructor
    · rintro ⟨h1, h2, h3, h4, h5⟩
      exact ⟨hv, h2.symm, h3.symm, h4.symm, h1.symm, h5.symm⟩
    · rintro ⟨-, h2, h3, h4, h1, h5⟩
      exact ⟨h1.symm, h2.symm, h3.symm, h4.symm, h5.symm⟩
  | syscall f =>
    simp only [Interrupted.view, Interrupted.registers, Interrupted.saved, sysretRegisters,
      returnFrame, SyscallFrame.registers, sysret_flags, safe_flags, ReturnableRegisters, true_iff]
    exact hv

theorem fpu_iff (d : Delivery) : d.buffer = fpuSeen d.cpu d.thread.toThread ↔ FpuSaved d := by
  rw [Delivery.buffer, saveFpu_buffer, FpuSaved]
  by_cases h : d.thread.fpuUsed = true
  · rw [if_pos h]
    exact ⟨fun _ => .inl h, fun _ => rfl⟩
  · rw [if_neg h]
    exact ⟨fun e => .inr e.symm, fun e => (e.resolve_left h).symm⟩

/-- **A return restores what its delivery interrupted exactly where that is restorable.** -/
theorem restores_iff (h : Held m d) (hl : t.fpuStateBuffer.length = d.buffer.length)
    (hf : f.userRsp = BitVec.ofNat 64 d.layout.ucontext) : Restores c t m f d ↔ Restorable d := by
  by_cases hv : isValidUserPtr d.interrupted.saved.rip.toNat 1 = true
  · obtain ⟨c', t', hret, hm, hfs, hfpu⟩ := sysRtSigreturn_held (c := c) h hl hf hv
    have key : Restores c t m f d ↔
        { returnedContext c' t' (returnFrame d.interrupted.saved) with
          registers := d.interrupted.view
            (returnedContext c' t' (returnFrame d.interrupted.saved)).registers } =
        { d.context with registers := d.interrupted.view d.context.registers } := by
      constructor
      · rintro ⟨c₁, t₁, f₁, h₁, e⟩
        rw [hret] at h₁
        cases h₁
        exact e
      · exact fun e => ⟨c', t', _, hret, e⟩
    rw [key]
    simp only [returnedContext, Delivery.context, Context.mk.injEq, registers_iff _ hv, hm, hfs, hfpu,
      fpu_iff, true_and]
    exact ⟨fun ⟨h1, h2, h3⟩ => ⟨h1, h2.symm, h3⟩, fun h => ⟨h.registers, h.fsBase.symm, h.fpu⟩⟩
  · constructor
    · rintro ⟨c', t', f', h₁, -⟩
      rw [sysRtSigreturn_outside h hf hv] at h₁
      cases h₁
    intro hr
    refine absurd ?_ hv
    have := hr.registers
    cases hi : d.interrupted with
    | interrupt g =>
      rw [hi] at this
      exact this.1
    | syscall g =>
      rw [hi] at this
      exact this

/-! ## 5. Runs -/

/-- The machine that a program and its handlers run on, with the deliveries whose handlers have not
    returned, the innermost first. -/
structure Signaling where
  cpu : Cpu
  thread : SigThread
  mem : ByteMemory
  deliveries : List Delivery

inductive ReturnEvent where
  /-- Anything else: code of the program, system calls, other threads. -/
  | run (c : Cpu) (t : SigThread) (m : ByteMemory)
  | interrupt (cr2 : Word) (f : InterruptFrame)
  | syscallExit (f : SyscallFrame)
  | sigreturn (f : SyscallFrame)

/-- The thread and the layout with which a check of the pending signals starts a handler. -/
def started (t : SigThread) (rsp : Word) (fpuSize : Nat) : Option (SigThread × FrameLayout) :=
  match takeSignal t with
  | none => none
  | some (signum, _, t) =>
    let action := t.action signum
    if action.handler = SIG_DFL ∨ action.handler = SIG_IGN then none
    else
      match handlerStack rsp.toNat action t.alternateStack with
      | .error _ => none
      | .ok (top, _) => some (t, layoutAt top action fpuSize)

namespace Signaling

/-- The deliveries after a check of the pending signals. -/
def deliver (s : Signaling) (fpuSize : Nat) (i : Interrupted) (rsp : Word) : List Delivery :=
  match started s.thread rsp fpuSize with
  | none => s.deliveries
  | some (t, l) => ⟨s.cpu, t, i, l⟩ :: s.deliveries

/-- `none`: the thread has exited, or the kernel has stopped. -/
def step (fpuSize : Nat) (s : Signaling) : ReturnEvent → Option Signaling
  | .run c t m => some { s with cpu := c, thread := t, mem := m }
  | .interrupt cr2 f =>
    match checkSignals s.cpu cr2 s.thread s.mem f with
    | .error _ => none
    | .ok (c, t, m, _) => some ⟨c, t, m, s.deliver fpuSize (.interrupt f) f.rsp⟩
  | .syscallExit f =>
    match checkSignalsOnSyscallExit s.cpu s.thread s.mem f with
    | .error _ => none
    | .ok (c, t, m, _) => some ⟨c, t, m, s.deliver fpuSize (.syscall f) f.userRsp⟩
  | .sigreturn f =>
    match sysRtSigreturn s.cpu s.thread s.mem f with
    | .error _ => none
    | .ok (c, t, _) => some ⟨c, t, s.mem, s.deliveries.tail⟩

end Signaling

/-- `fpuSize` is `getXsaveAreaSize()`, the size of every FPU image and buffer. -/
def signalMachine (fpuSize : Nat) : Machine (Option Signaling) ReturnEvent where
  start s := ∀ s', s = some s' → s'.deliveries = [] ∧ s'.cpu.fpuRegs.length = fpuSize ∧
    s'.thread.fpuStateBuffer.length = fpuSize
  step s e := s.bind fun s => s.step fpuSize e

/-- A frame stays clear of another one. -/
def Apart (fpuSize : Nat) (l l' : FrameLayout) : Prop :=
  l.fpstate + fpuSize ≤ l'.ucontext ∨ l'.fpstate + fpuSize ≤ l.sp

/-- The context of a delivery and its FPU state are left alone. -/
def LeftAlone (fpuSize : Nat) (m m' : ByteMemory) (d : Delivery) : Prop :=
  ByteMemory.Same m m' d.layout.ucontext UContext.size ∧ ByteMemory.Same m m' d.layout.fpstate fpuSize

/-- **Nobody changes a context that a handler is to return to**: no code of the program, and no
    frame of a further delivery. Handlers return in the order in which they are nested. -/
def Undisturbed (fpuSize : Nat) : Option Signaling → ReturnEvent → Prop
  | none, _ => True
  | some s, .run c t m =>
    c.fpuRegs.length = fpuSize ∧ t.fpuStateBuffer.length = fpuSize ∧
      ∀ d ∈ s.deliveries, LeftAlone fpuSize s.mem m d
  | some s, .interrupt _ f =>
    ∀ r, started s.thread f.rsp fpuSize = some r → ∀ d ∈ s.deliveries, Apart fpuSize r.2 d.layout
  | some s, .syscallExit f =>
    ∀ r, started s.thread f.userRsp fpuSize = some r → ∀ d ∈ s.deliveries, Apart fpuSize r.2 d.layout
  | some s, .sigreturn f =>
    ∃ d rest, s.deliveries = d :: rest ∧ f.userRsp = BitVec.ofNat 64 d.layout.ucontext

/-! ## 6. Frames over a run -/

variable {fpuSize : Nat}

theorem returnMask_saveFpu (c : Cpu) (t : SigThread) : (saveFpu c t).2.returnMask = t.returnMask := by
  unfold saveFpu SigThread.returnMask saveState handleFpuAccess SigThread.withThread
  split_ifs <;> rfl

/-- The frame that a delivery pushes is held. -/
theorem Pushed.held {a : SigAction} {l : FrameLayout} {i : Interrupted}
    (h : Pushed c t m rsp a regs c' t' m' l)
    (hi : ∀ fp mask, (regs fp mask).registers = i.saved ∧ (regs fp mask).fs = 0 ∧
      (regs fp mask).fpstate = fp) : Held m' ⟨c, t, i, l⟩ := by
  obtain ⟨top, alt, -, -, hu⟩ := h.ucontext
  obtain ⟨h1, h2, h3⟩ := hi (BitVec.ofNat 64 l.fpstate) t'.returnMask
  refine ⟨⟨_, hu, ?_, h1, h2, h3⟩, ?_, h.order, h.lt⟩
  · show t'.returnMask = t.returnMask
    rw [h.thread, returnMask_saveFpu]
  · have hf := h.fpstate
    rw [h.thread] at hf
    exact hf

/-- The parts of a frame that is left alone. -/
theorem Held.leftAlone (h : Held m d) (hl : d.buffer.length = fpuSize) (hs : LeftAlone fpuSize m m' d) :
    Held m' d := by
  obtain ⟨u, hu, hrest⟩ := h.ucontext
  refine ⟨⟨u, hu.same ?_, hrest⟩, h.fpstate.same ?_, h.order, h.lt⟩
  · rw [ByteMemory.length_ofWords, length_toWords]
    exact hs.1
  · rw [hl]
    exact hs.2

/-- A frame that stays clear leaves it alone. -/
theorem Pushed.leftAlone {a : SigAction} {l : FrameLayout}
    (h : Pushed c t m rsp a regs c' t' m' l) (hl : t'.fpuStateBuffer.length = fpuSize)
    (ho : d.layout.ucontext + UContext.size ≤ d.layout.fpstate) (ha : Apart fpuSize l d.layout) :
    LeftAlone fpuSize m m' d := by
  unfold Apart at ha
  refine ⟨h.frame _ _ ?_, h.frame _ _ ?_⟩
  · rw [hl]
    omega
  · rw [hl]
    omega

theorem length_handleFpuAccess {th : Thread} (hc : c.fpuRegs.length = fpuSize)
    (ht : th.fpuStateBuffer.length = fpuSize) :
    (handleFpuAccess c th).1.fpuRegs.length = fpuSize ∧
      (handleFpuAccess c th).2.fpuStateBuffer.length = fpuSize := by
  unfold handleFpuAccess
  split_ifs
  · exact ⟨hc, ht⟩
  · exact ⟨ht, ht⟩
  · exact ⟨hc, ht⟩

theorem length_saveFpu (hc : c.fpuRegs.length = fpuSize) (ht : t.fpuStateBuffer.length = fpuSize) :
    (saveFpu c t).1.fpuRegs.length = fpuSize ∧ (saveFpu c t).2.fpuStateBuffer.length = fpuSize := by
  obtain ⟨h1, h2⟩ := length_handleFpuAccess hc ht
  unfold saveFpu
  split_ifs
  · exact ⟨h1, h1⟩
  · exact ⟨hc, ht⟩

/-- A check of the pending signals: no handler is started, or a frame is pushed for one. -/
inductive Checked (fpuSize : Nat) (c : Cpu) (t : SigThread) (m : ByteMemory) (i : Interrupted)
    (rsp : Word) (c' : Cpu) (t' : SigThread) (m' : ByteMemory) : Prop where
  | none (hs : started t rsp fpuSize = .none) (hc : c' = c) (hm : m' = m)
      (ht : t'.fpuStateBuffer = t.fpuStateBuffer)
  | pushed {t₁ t₂ : SigThread} {a : SigAction} {regs : SavedRegs} {l : FrameLayout}
      (hs : started t rsp fpuSize = some (t₁, l)) (h₁ : t₁.fpuStateBuffer = t.fpuStateBuffer)
      (hp : Pushed c t₁ m rsp a regs c' t₂ m' l) (h₂ : t'.fpuStateBuffer = t₂.fpuStateBuffer)
      (hi : ∀ fp mask, (regs fp mask).registers = i.saved ∧ (regs fp mask).fs = 0 ∧
        (regs fp mask).fpstate = fp)

theorem takeSignal_buffer (h : takeSignal t = some (n, info, t')) :
    t'.fpuStateBuffer = t.fpuStateBuffer := by
  simp only [takeSignal] at h
  split at h
  · cases h
  · simp only [Option.some.injEq, Prod.mk.injEq] at h
    rw [← h.2.2]

theorem handleDefaultAction_buffer (h : handleDefaultAction t n = .ok t') :
    t'.fpuStateBuffer = t.fpuStateBuffer := by
  unfold handleDefaultAction at h
  split at h <;> cases h <;> rfl

theorem restoreSavedMask_buffer (t : SigThread) :
    (restoreSavedMask t).fpuStateBuffer = t.fpuStateBuffer := by
  unfold restoreSavedMask
  split_ifs <;> rfl

/-- Where the frame of a started handler is. -/
theorem started_eq {t₁ t₂ : SigThread} {l : FrameLayout} (ht : takeSignal t = some (n, info, t₁))
    (h0 : (t₁.action n).handler ≠ SIG_DFL) (h1 : (t₁.action n).handler ≠ SIG_IGN)
    (hp : Pushed c t₁ m rsp (t₁.action n) regs c' t₂ m' l) :
    started t rsp t₂.fpuStateBuffer.length = some (t₁, l) := by
  obtain ⟨top, alt, htop, rfl, -⟩ := hp.ucontext
  simp only [started, ht]
  rw [if_neg (by simp only [h0, h1, or_self, not_false_eq_true]), htop]

theorem checkSignals_checked {cr2 : Word} {f f' : InterruptFrame} (hc : c.fpuRegs.length = fpuSize)
    (hb : t.fpuStateBuffer.length = fpuSize) (h : checkSignals c cr2 t m f = .ok (c', t', m', f')) :
    Checked fpuSize c t m (.interrupt f) f.rsp c' t' m' := by
  unfold checkSignals at h
  cases ht : takeSignal t with
  | none =>
    rw [ht] at h
    cases h
    exact .none (by simp only [started, ht]) rfl rfl rfl
  | some r =>
    obtain ⟨n, info, t₁⟩ := r
    have hb₁ := takeSignal_buffer ht
    rw [ht] at h
    dsimp only at h
    split_ifs at h with hd hg
    · obtain ⟨t₂, h₂, h⟩ := (bind_ok_iff _ _).mp h
      cases h
      exact .none (by simp only [started, ht, hd, true_or, if_true]) rfl rfl
        ((handleDefaultAction_buffer h₂).trans hb₁)
    · cases h
      exact .none (by simp only [started, ht, hg, or_true, if_true]) rfl rfl hb₁
    obtain ⟨⟨c₂, t₂, m₂, l⟩, h₂, h⟩ := (bind_ok_iff _ _).mp h
    have hp := pushFrame_spec h₂
    have hlen : t₂.fpuStateBuffer.length = fpuSize := by
      rw [hp.thread]
      exact (length_saveFpu hc (by rw [hb₁]; exact hb)).2
    cases h
    exact .pushed (hlen ▸ started_eq ht hd hg hp) hb₁ hp rfl fun _ _ => ⟨rfl, rfl, rfl⟩

theorem checkSignalsOnSyscallExit_checked {f' : SyscallFrame} (hc : c.fpuRegs.length = fpuSize)
    (hb : t.fpuStateBuffer.length = fpuSize)
    (h : checkSignalsOnSyscallExit c t m f = .ok (c', t', m', f')) :
    Checked fpuSize c t m (.syscall f) f.userRsp c' t' m' := by
  unfold checkSignalsOnSyscallExit at h
  cases ht : takeSignal t with
  | none =>
    rw [ht] at h
    cases h
    exact .none (by simp only [started, ht]) rfl rfl (restoreSavedMask_buffer t)
  | some r =>
    obtain ⟨n, info, t₁⟩ := r
    have hb₁ := takeSignal_buffer ht
    rw [ht] at h
    dsimp only at h
    split_ifs at h with hd hg
    · obtain ⟨t₂, h₂, h⟩ := (bind_ok_iff _ _).mp h
      cases h
      exact .none (by simp only [started, ht, hd, true_or, if_true]) rfl rfl
        ((restoreSavedMask_buffer t₂).trans ((handleDefaultAction_buffer h₂).trans hb₁))
    · cases h
      exact .none (by simp only [started, ht, hg, or_true, if_true]) rfl rfl
        ((restoreSavedMask_buffer t₁).trans hb₁)
    obtain ⟨⟨c₃, t₃, m₃, f₃⟩, h₃, h⟩ := (bind_ok_iff _ _).mp h
    obtain ⟨⟨c₂, t₂, m₂, l⟩, h₂, h₃⟩ := (bind_ok_iff _ _).mp h₃
    have hp := pushFrame_spec h₂
    have hlen : t₂.fpuStateBuffer.length = fpuSize := by
      rw [hp.thread]
      exact (length_saveFpu hc (by rw [hb₁]; exact hb)).2
    cases h₃
    cases h
    exact .pushed (hlen ▸ started_eq ht hd hg hp) hb₁ hp (restoreSavedMask_buffer _)
      fun _ _ => ⟨rfl, rfl, rfl⟩

/-- **The invariant of a run.** -/
structure ReturnInv (fpuSize : Nat) (s : Signaling) : Prop where
  regs : s.cpu.fpuRegs.length = fpuSize
  buffer : s.thread.fpuStateBuffer.length = fpuSize
  held : ∀ d ∈ s.deliveries, Held s.mem d ∧ d.buffer.length = fpuSize

variable {s : Signaling}

/-- **A check of the pending signals keeps it.** -/
theorem ReturnInv.checked {i : Interrupted} (hi : ReturnInv fpuSize s)
    (h : Checked fpuSize s.cpu s.thread s.mem i rsp c' t' m')
    (hc : ∀ r, started s.thread rsp fpuSize = some r → ∀ d ∈ s.deliveries, Apart fpuSize r.2 d.layout) :
    ReturnInv fpuSize ⟨c', t', m', s.deliver fpuSize i rsp⟩ := by
  cases h with
  | none hs hc' hm ht =>
    subst hc' hm
    refine ⟨hi.regs, ht ▸ hi.buffer, ?_⟩
    simp only [Signaling.deliver, hs]
    exact hi.held
  | @pushed t₁ t₂ a regs l hs h₁ hp h₂ hregs =>
    have hb₁ : t₁.fpuStateBuffer.length = fpuSize := h₁ ▸ hi.buffer
    obtain ⟨hl₁, hl₂⟩ := length_saveFpu hi.regs hb₁
    have hb₂ : t₂.fpuStateBuffer.length = fpuSize := by rw [hp.thread]; exact hl₂
    refine ⟨?_, h₂ ▸ hb₂, ?_⟩
    · show c'.fpuRegs.length = fpuSize
      rw [hp.cpu]
      exact hl₁
    simp only [Signaling.deliver, hs]
    intro d hd
    rcases mem_cons.mp hd with rfl | hd
    · exact ⟨hp.held hregs, hl₂⟩
    · obtain ⟨hh, hl⟩ := hi.held d hd
      exact ⟨hh.leftAlone hl (hp.leftAlone hb₂ hh.order (hc _ hs d hd)), hl⟩

/-- A return keeps the sizes. -/
theorem length_sysRtSigreturn {f' : SyscallFrame} (hc : c.fpuRegs.length = fpuSize)
    (hb : t.fpuStateBuffer.length = fpuSize) (h : sysRtSigreturn c t m f = .ok (c', t', f')) :
    c'.fpuRegs.length = fpuSize ∧ t'.fpuStateBuffer.length = fpuSize := by
  obtain ⟨l, -, h⟩ := (bind_ok_iff _ _).mp h
  dsimp only at h
  split_ifs at h
  obtain ⟨⟨c₁, t₁⟩, h₁, h⟩ := (bind_ok_iff _ _).mp h
  cases h
  unfold restoreFpu at h₁
  dsimp only at h₁
  split_ifs at h₁
  · cases h₁
    exact ⟨hc, hb⟩
  obtain ⟨b, hb', h₁⟩ := (bind_ok_iff _ _).mp h₁
  have hlen : b.length = fpuSize := by
    have hb' := orFault_ok hb'
    unfold copyFromUser at hb'
    split_ifs at hb'
    cases hb'
    rw [ByteMemory.length_read]
    exact hb
  cases h₁
  exact ⟨hlen, hlen⟩

/-- **A step of a run keeps the invariant.** -/
theorem ReturnInv.step {s' : Signaling} {e : ReturnEvent} (hi : ReturnInv fpuSize s)
    (hc : Undisturbed fpuSize (some s) e) (h : s.step fpuSize e = some s') : ReturnInv fpuSize s' := by
  cases e with
  | run c t m =>
    cases h
    exact ⟨hc.1, hc.2.1, fun d hd =>
      ⟨(hi.held d hd).1.leftAlone (hi.held d hd).2 (hc.2.2 d hd), (hi.held d hd).2⟩⟩
  | interrupt cr2 f =>
    simp only [Signaling.step] at h
    cases hr : checkSignals s.cpu cr2 s.thread s.mem f with
    | error e => rw [hr] at h; cases h
    | ok r =>
      obtain ⟨c, t, m, f'⟩ := r
      rw [hr] at h
      cases h
      exact hi.checked (checkSignals_checked hi.regs hi.buffer hr) hc
  | syscallExit f =>
    simp only [Signaling.step] at h
    cases hr : checkSignalsOnSyscallExit s.cpu s.thread s.mem f with
    | error e => rw [hr] at h; cases h
    | ok r =>
      obtain ⟨c, t, m, f'⟩ := r
      rw [hr] at h
      cases h
      exact hi.checked (checkSignalsOnSyscallExit_checked hi.regs hi.buffer hr) hc
  | sigreturn f =>
    simp only [Signaling.step] at h
    cases hr : sysRtSigreturn s.cpu s.thread s.mem f with
    | error e => rw [hr] at h; cases h
    | ok r =>
      obtain ⟨c, t, f'⟩ := r
      rw [hr] at h
      cases h
      obtain ⟨h1, h2⟩ := length_sysRtSigreturn hi.regs hi.buffer hr
      exact ⟨h1, h2, fun d hd => hi.held d (mem_of_mem_tail hd)⟩

theorem returnInv_of_reach
    (h : (signalMachine fpuSize).Reach (Undisturbed fpuSize) (some s)) : ReturnInv fpuSize s := by
  have hall : ∀ s', some s = some s' → ReturnInv fpuSize s' := by
    refine h.invariant (I := fun o => ∀ s', o = some s' → ReturnInv fpuSize s') (fun o ho s' e => ?_)
      fun o ev _ hi hc s' e => ?_
    · obtain ⟨h1, h2, h3⟩ := ho s' e
      exact ⟨h2, h3, fun d hd => by rw [h1] at hd; exact nomatch hd⟩
    · cases o with
      | none => cases e
      | some s₀ => exact (hi s₀ rfl).step hc e
  exact hall s rfl

/-- **THE RETURN FROM THE INNERMOST HANDLER** restores what its delivery interrupted exactly where
    that is restorable, in every run in which contexts are left alone, at every depth of nesting. -/
theorem signalReturn {s : Signaling} {d : Delivery} {rest : List Delivery} {f : SyscallFrame}
    (h : (signalMachine fpuSize).Reach (Undisturbed fpuSize) (some s)) (hd : s.deliveries = d :: rest)
    (hf : f.userRsp = BitVec.ofNat 64 d.layout.ucontext) :
    Restores s.cpu s.thread s.mem f d ↔ Restorable d := by
  have hi := returnInv_of_reach h
  obtain ⟨hh, hl⟩ := hi.held d (by rw [hd]; exact mem_cons_self)
  exact restores_iff hh (by rw [hl]; exact hi.buffer) hf

/-- A thread at the end of a system call, with a handler for SIGUSR1 and that signal pending. -/
def pendingStart (fsBase : Word) : Signaling where
  cpu := ⟨List.replicate 4 0, false, fsBase⟩
  thread :=
    { kernelFrame := setupUserStack 0x400000 0x700000, userStackTop := 0x700000, cr3 := 0,
      fpuStateBuffer := List.replicate 4 0, fpuUsed := true, fsBase := fsBase, process := none,
      pendingSignals := sigBit 10,
      signalActions := (List.replicate 64 {}).set 9 ⟨0x401000, 0, 0x402000, 0⟩ }
  mem := ⟨fun _ => 0, fun _ => true⟩
  deliveries := []

def exitFrame : SyscallFrame :=
  { r15 := 0, r14 := 0, r13 := 0, r12 := 0, rbp := 0, rbx := 0, r9 := 0, r8 := 0, r10 := 0, rdx := 0,
    rsi := 0, rdi := 0, rax := 0, rcx := 0x400100, r11 := 0x202, userRsp := 0x700000 }

/-- The state after the delivery, with what the return depends on. -/
theorem pendingStart_delivers (fsBase : Word)
    (h : (((signalMachine 4).exec (some (pendingStart fsBase)) [.syscallExit exitFrame]).bind
      fun s => s.deliveries.head?).map (fun d => (d.interrupted.saved.rip, d.interrupted.isSyscall,
        d.thread.fsBase, d.thread.fpuUsed)) = some (0x400100, true, fsBase, true)) :
    ∃ s d rest, (signalMachine 4).Reach (Undisturbed 4) (some s) ∧ s.deliveries = d :: rest ∧
      d.interrupted.saved.rip = 0x400100 ∧ d.interrupted.isSyscall = true ∧ d.thread.fsBase = fsBase ∧
      d.thread.fpuUsed = true := by
  obtain ⟨d, hd, he⟩ := Option.map_eq_some_iff.mp h
  obtain ⟨s, hs, hhead⟩ := Option.bind_eq_some_iff.mp hd
  obtain ⟨rest, hrest⟩ := head?_eq_some_iff.mp hhead
  simp only [Prod.mk.injEq] at he
  refine ⟨s, d, rest, ?_, hrest, he⟩
  rw [← hs]
  refine Machine.Reach.exec (.start ?_) ⟨?_, trivial⟩
  · intro s' e
    cases e
    exact ⟨rfl, rfl, rfl⟩
  · exact fun r _ d hd => nomatch hd

/-- Without an FS base the end of a system call is restored. -/
theorem signalReturn_pendingStart : ∃ s d rest f, (signalMachine 4).Reach (Undisturbed 4) (some s) ∧
    s.deliveries = d :: rest ∧ Restores s.cpu s.thread s.mem f d := by
  obtain ⟨s, d, rest, hr, hd, hrip, hsys, hfs, hfpu⟩ :=
    pendingStart_delivers 0 (by decide +kernel)
  refine ⟨s, d, rest, { exitFrame with userRsp := BitVec.ofNat 64 d.layout.ucontext }, hr, hd,
    (signalReturn hr hd rfl).mpr ⟨?_, hfs, .inl hfpu⟩⟩
  cases hi : d.interrupted with
  | interrupt g => rw [hi] at hsys; cases hsys
  | syscall g =>
    rw [hi] at hrip
    show isValidUserPtr g.rcx.toNat 1 = true
    rw [show g.rcx = 0x400100 from hrip]
    decide

/-- A thread with an FS base does not get it back. -/
theorem signalReturn_refuted : ¬ ∀ (n : Nat) (s : Signaling) (d : Delivery) (rest : List Delivery)
    (f : SyscallFrame), (signalMachine n).Reach (Undisturbed n) (some s) → s.deliveries = d :: rest →
    f.userRsp = BitVec.ofNat 64 d.layout.ucontext → Restores s.cpu s.thread s.mem f d := by
  intro hall
  obtain ⟨s, d, rest, hr, hd, -, -, hfs, -⟩ := pendingStart_delivers 0x7000 (by decide +kernel)
  let f : SyscallFrame := { exitFrame with userRsp := BitVec.ofNat 64 d.layout.ucontext }
  have hi := returnInv_of_reach hr
  obtain ⟨hh, hl⟩ := hi.held d (by rw [hd]; exact mem_cons_self)
  have h := (restores_iff (f := f) hh (by rw [hl]; exact hi.buffer) rfl).mp (hall 4 s d rest f hr hd rfl)
  rw [h.fsBase] at hfs
  exact absurd hfs (by decide)

end Zigk.Proc
