/-
  Subject:   SECCOMP CHAINS: what the filters of a process decide together.

  A process keeps the programs it installed one behind the other in one array of instructions. At
  a system call every program runs, the smallest result as an unsigned number is kept, and the
  dispatcher looks at its action.

  * `sys_seccomp`, `checkSeccomp`, `dispatch` -- process.zig and table.zig;
  * `Chain`, `chain_of_reach` -- after any calls the array holds the installed programs;
  * **`seccompChain`** -- in every reachable process that is exactly so if one filter says
    `KILL_THREAD`, or none kills, one says `ERRNO` and none has an action below it, or all allow.
-/
import Mathlib.Data.List.Flatten
import Mathlib.Data.BitVec
import Zigk.Base.Machine
import Zigk.Sys.Bpf

namespace Zigk.Seccomp

open Bpf List

/-! ## 1. process.zig: installing filters -/

def SECCOMP_MODE_DISABLED : Nat := 0
def SECCOMP_MODE_STRICT : Nat := 1
def SECCOMP_MODE_FILTER : Nat := 2

def SECCOMP_SET_MODE_STRICT : Nat := 0
def SECCOMP_SET_MODE_FILTER : Nat := 1
def SECCOMP_GET_ACTION_AVAIL : Nat := 2

def BPF_MAXINSNS : Nat := 4096

def MAX_INSNS : Nat := 256
def MAX_PROGS : Nat := 8

structure Process where
  no_new_privs : Bool
  cap_effective : BitVec 64
  seccomp_mode : Nat := SECCOMP_MODE_DISABLED
  seccomp_filters : List SockFilterInsn := List.replicate MAX_INSNS ⟨0, 0, 0, 0⟩
  /-- The instructions in use. -/
  seccomp_filter_count : Nat := 0
  seccomp_filter_prog_count : Nat := 0
  seccomp_filter_lengths : List Nat := List.replicate MAX_PROGS 0

inductive SyscallError where
  | EINVAL | EACCES | EFAULT | ENOMEM
  deriving DecidableEq, Repr

structure SockFprog where
  len : BitVec 16
  filter : BitVec 64

/-- The memory of the caller. A copy leaves instructions behind also where it fails midway. -/
structure UserMemory where
  readFprog : BitVec 64 → Option SockFprog
  readU32 : BitVec 64 → Option Word
  isValidUserAccess : BitVec 64 → Nat → Bool
  copyToKernel : BitVec 64 → (Nat → SockFilterInsn) × Bool

/-- The instructions that a copy of `n` of them writes. -/
def UserMemory.insns (mem : UserMemory) (filter : BitVec 64) (n : Nat) : List SockFilterInsn :=
  (List.range n).map (mem.copyToKernel filter).1

/-- `l` with `new` written from the place `i` on. -/
def splice {α : Type} (l : List α) (i : Nat) (new : List α) : List α :=
  l.take i ++ new ++ l.drop (i + new.length)

def CAP_SYS_ADMIN : BitVec 64 := 1#64 <<< 21

def setModeStrict (p : Process) (flags args_ptr : BitVec 64) : Process × Except SyscallError Nat :=
  if flags ≠ 0 ∨ args_ptr ≠ 0 then (p, .error .EINVAL)
  else if p.seccomp_mode = SECCOMP_MODE_STRICT then (p, .ok 0)
  else if p.seccomp_mode = SECCOMP_MODE_FILTER then (p, .error .EACCES)
  else ({ p with seccomp_mode := SECCOMP_MODE_STRICT }, .ok 0)

/-- The copy of the instructions, then the bookkeeping. -/
def installFilter (p : Process) (mem : UserMemory) (fprog : SockFprog) :
    Process × Except SyscallError Nat :=
  let len := fprog.len.toNat
  let new_count := p.seccomp_filter_count + len
  let p := { p with
    seccomp_filters := splice p.seccomp_filters p.seccomp_filter_count (mem.insns fprog.filter len) }
  if (mem.copyToKernel fprog.filter).2 then
    ({ p with
      seccomp_filter_lengths := p.seccomp_filter_lengths.set p.seccomp_filter_prog_count len
      seccomp_filter_prog_count := p.seccomp_filter_prog_count + 1
      seccomp_filter_count := new_count
      seccomp_mode := SECCOMP_MODE_FILTER }, .ok 0)
  else (p, .error .EFAULT)

def setModeFilter (p : Process) (flags args_ptr : BitVec 64) (mem : UserMemory) :
    Process × Except SyscallError Nat :=
  if !p.no_new_privs && (p.cap_effective &&& CAP_SYS_ADMIN) == 0 then (p, .error .EACCES)
  else if p.seccomp_mode = SECCOMP_MODE_STRICT then (p, .error .EACCES)
  else if flags ≠ 0 then (p, .error .EINVAL)
  else if args_ptr = 0 then (p, .error .EFAULT)
  else
    match mem.readFprog args_ptr with
    | none => (p, .error .EFAULT)
    | some fprog =>
      let len := fprog.len.toNat
      if len = 0 ∨ len > BPF_MAXINSNS then (p, .error .EINVAL)
      else if p.seccomp_filter_count + len ≥ 2 ^ 16 then (p, .error .ENOMEM)
      else if p.seccomp_filter_count + len > MAX_INSNS then (p, .error .ENOMEM)
      else if p.seccomp_filter_prog_count ≥ MAX_PROGS then (p, .error .ENOMEM)
      else if !mem.isValidUserAccess fprog.filter (len * 8) then (p, .error .EFAULT)
      else installFilter p mem fprog

def getActionAvail (flags args_ptr : BitVec 64) (mem : UserMemory) : Except SyscallError Nat :=
  if flags ≠ 0 then .error .EINVAL
  else if args_ptr = 0 then .error .EFAULT
  else
    match mem.readU32 args_ptr with
    | none => .error .EFAULT
    | some action =>
      let action_code := action &&& SECCOMP_RET_ACTION_FULL
      if action_code ∈ [SECCOMP_RET_KILL_THREAD, SECCOMP_RET_KILL_PROCESS, SECCOMP_RET_ERRNO,
        SECCOMP_RET_ALLOW] then .ok 0
      else .error .EINVAL

def sys_seccomp (p : Process) (op : Nat) (flags args_ptr : BitVec 64) (mem : UserMemory) :
    Process × Except SyscallError Nat :=
  if op = SECCOMP_SET_MODE_STRICT then setModeStrict p flags args_ptr
  else if op = SECCOMP_SET_MODE_FILTER then setModeFilter p flags args_ptr mem
  else if op = SECCOMP_GET_ACTION_AVAIL then (p, getActionAvail flags args_ptr mem)
  else (p, .error .EINVAL)

/-! ## 2. The check before a handler -/

inductive Arch where
  | x86_64 | aarch64
  deriving DecidableEq, Repr

def Arch.audit : Arch → Word
  | .x86_64 => 0xC000003E#32
  | .aarch64 => 0xC00000B7#32

/-- The calls of strict mode: read, write, exit, exit_group, rt_sigreturn. -/
def Arch.strictAllowed : Arch → List Nat
  | .x86_64 => [0, 1, 60, 231, 15]
  | .aarch64 => [63, 64, 93, 94, 139]

/-- A system call as the check sees it. -/
structure Call where
  num : BitVec 64
  args : Fin 6 → BitVec 64
  rip : BitVec 64

def Call.data (c : Call) (arch : Arch) : SeccompData where
  nr := c.num.truncate 32
  arch := arch.audit
  instruction_pointer := c.rip
  args := c.args

/-- The programs from the `i`th on, `n` of them, with the smallest result so far. -/
def runChain (p : Process) (data : SeccompData) : Nat → Nat → Nat → Word → Except Trap Word
  | 0, _, _, most_restrictive => .ok most_restrictive
  | n + 1, i, offset, most_restrictive =>
    match p.seccomp_filter_lengths[i]? with
    | none => .error .indexOutOfBounds
    | some filter_len =>
      if offset + filter_len ≤ p.seccomp_filters.length then do
        let result ← runBpfFilter ((p.seccomp_filters.drop offset).take filter_len) data
        runChain p data n (i + 1) (offset + filter_len)
          (if result < most_restrictive then result else most_restrictive)
      else .error .indexOutOfBounds

def checkSeccomp (arch : Arch) (p : Process) (c : Call) : Except Trap Word :=
  if p.seccomp_mode = SECCOMP_MODE_DISABLED then .ok SECCOMP_RET_ALLOW
  else if p.seccomp_mode = SECCOMP_MODE_STRICT then
    .ok (if c.num.toNat ∈ arch.strictAllowed then SECCOMP_RET_ALLOW else SECCOMP_RET_KILL_THREAD)
  else if p.seccomp_mode = SECCOMP_MODE_FILTER then
    runChain p (c.data arch) p.seccomp_filter_prog_count 0 0 SECCOMP_RET_ALLOW
  else .ok SECCOMP_RET_KILL_PROCESS

/-- What becomes of a call: its handler runs, it gets `SIGSYS`, or an error number. -/
inductive Decision where
  | handler
  | kill
  | errno (v : Word)
  deriving DecidableEq, Repr

/-- What the dispatcher does with a result. -/
def decision (seccomp_check : Word) : Decision :=
  let seccomp_action := seccomp_check &&& SECCOMP_RET_ACTION_FULL
  if seccomp_action = SECCOMP_RET_KILL_THREAD ∨ seccomp_action = SECCOMP_RET_KILL_PROCESS then .kill
  else if seccomp_action = SECCOMP_RET_ERRNO then .errno (seccomp_check &&& SECCOMP_RET_DATA)
  else .handler

/-- The start of `dispatch_syscall`; early in the boot there is no process. -/
def dispatch (arch : Arch) (p : Option Process) (c : Call) : Except Trap Decision := do
  let seccomp_check ←
    match p with
    | none => .ok SECCOMP_RET_ALLOW
    | some p => if p.seccomp_mode ≠ 0 then checkSeccomp arch p c else .ok SECCOMP_RET_ALLOW
  return decision seccomp_check

/-! ## 3. What the array holds -/

/-- The process holds these programs, in this order. -/
structure Chain (p : Process) (progs : List (List SockFilterInsn)) : Prop where
  filters : p.seccomp_filters.length = MAX_INSNS
  programs : progs.flatten <+: p.seccomp_filters
  count : p.seccomp_filter_count = progs.flatten.length
  prog_count : p.seccomp_filter_prog_count = progs.length
  lengths : progs.map List.length <+: p.seccomp_filter_lengths
  lengths_length : p.seccomp_filter_lengths.length = MAX_PROGS
  mode : p.seccomp_mode = SECCOMP_MODE_FILTER ∨
    progs = [] ∧ p.seccomp_mode ∈ [SECCOMP_MODE_DISABLED, SECCOMP_MODE_STRICT]

/-- The steps of a process that concern its filters: a call of `seccomp`, and any change of its
    privileges by other calls. -/
inductive Step where
  | seccomp (op : Nat) (flags args_ptr : BitVec 64) (mem : UserMemory)
  | privileges (no_new_privs : Bool) (cap_effective : BitVec 64)

/-- The program that a call installs, if it does. -/
def installed (p : Process) : Step → List (List SockFilterInsn)
  | .seccomp op flags args_ptr mem =>
    match (sys_seccomp p op flags args_ptr mem).2, mem.readFprog args_ptr with
    | .ok _, some fprog =>
      if op = SECCOMP_SET_MODE_FILTER then [mem.insns fprog.filter fprog.len.toNat] else []
    | _, _ => []
  | .privileges _ _ => []

def machine : Machine Process Step where
  start p := ∃ no_new_privs cap_effective, p = { no_new_privs, cap_effective }
  step p
    | .seccomp op flags args_ptr mem => (sys_seccomp p op flags args_ptr mem).1
    | .privileges no_new_privs cap_effective => { p with no_new_privs, cap_effective }

/-- The process with the programs it has installed so far. -/
def history : Machine (Process × List (List SockFilterInsn)) Step :=
  machine.track [] fun progs p s => progs ++ installed p s

section Splice

variable {α : Type} {l new : List α} {i : Nat}

theorem length_splice (h : i + new.length ≤ l.length) : (splice l i new).length = l.length := by
  simp only [splice, length_append, length_take, length_drop]
  omega

/-- What is written stands behind what was there before. -/
theorem prefix_splice {d : List α} (hd : d <+: l) (hi : i = d.length) :
    d ++ new <+: splice l i new := by
  obtain ⟨r, rfl⟩ := hd
  subst hi
  rw [splice, take_left]
  exact ⟨_, rfl⟩

/-- What stood before the place of a write still stands there. -/
theorem prefix_splice_left {d : List α} (hd : d <+: l) (hi : i = d.length) : d <+: splice l i new :=
  (prefix_append d new).trans (prefix_splice hd hi)

end Splice

@[simp] theorem length_insns (mem : UserMemory) (filter : BitVec 64) (n : Nat) :
    (mem.insns filter n).length = n := by
  simp [UserMemory.insns]

section Chains

variable {p : Process} {progs : List (List SockFilterInsn)} {flags args_ptr : BitVec 64}
  {mem : UserMemory}

theorem Chain.privileges (h : Chain p progs) (no_new_privs : Bool) (cap_effective : BitVec 64) :
    Chain { p with no_new_privs, cap_effective } progs := { h with }

/-- What a call of strict mode does: nothing, or the mode changes from no filters. -/
theorem setModeStrict_cases (p : Process) (flags args_ptr : BitVec 64) :
    (setModeStrict p flags args_ptr).1 = p ∨ p.seccomp_mode ≠ SECCOMP_MODE_FILTER ∧
      (setModeStrict p flags args_ptr).1 = { p with seccomp_mode := SECCOMP_MODE_STRICT } := by
  unfold setModeStrict
  split_ifs with h₁ h₂ h₃
  · exact .inl rfl
  · exact .inl rfl
  · exact .inl rfl
  · exact .inr ⟨h₃, rfl⟩

/-- What a call of filter mode does: nothing, or the copy of a program that fits. -/
theorem setModeFilter_cases (p : Process) (flags args_ptr : BitVec 64) (mem : UserMemory) :
    (∃ e, setModeFilter p flags args_ptr mem = (p, .error e)) ∨
      ∃ fprog, mem.readFprog args_ptr = some fprog ∧
        p.seccomp_filter_count + fprog.len.toNat ≤ MAX_INSNS ∧
        p.seccomp_filter_prog_count < MAX_PROGS ∧
        setModeFilter p flags args_ptr mem = installFilter p mem fprog := by
  unfold setModeFilter
  split
  · exact .inl ⟨_, rfl⟩
  split
  · exact .inl ⟨_, rfl⟩
  split
  · exact .inl ⟨_, rfl⟩
  split
  · exact .inl ⟨_, rfl⟩
  cases hf : mem.readFprog args_ptr with
  | none => exact .inl ⟨_, rfl⟩
  | some fprog =>
    simp only
    split_ifs with h₁ h₂ h₃ h₄
    · exact .inl ⟨_, rfl⟩
    · exact .inl ⟨_, rfl⟩
    · exact .inl ⟨_, rfl⟩
    · exact .inl ⟨_, rfl⟩
    · exact .inl ⟨_, rfl⟩
    · exact .inr ⟨fprog, rfl, Nat.le_of_not_lt h₃, Nat.lt_of_not_le h₄, rfl⟩

/-- A copy behind the instructions in use changes none of them. -/
theorem Chain.written (h : Chain p progs) {new : List SockFilterInsn}
    (hn : p.seccomp_filter_count + new.length ≤ MAX_INSNS) :
    Chain { p with seccomp_filters := splice p.seccomp_filters p.seccomp_filter_count new } progs :=
  { h with
    filters := (length_splice (by rw [h.filters]; exact hn)).trans h.filters
    programs := prefix_splice_left h.programs h.count }

/-- **A program that is installed stands behind the ones before.** -/
theorem Chain.install (h : Chain p progs) {new : List SockFilterInsn}
    (hn : p.seccomp_filter_count + new.length ≤ MAX_INSNS)
    (hp : p.seccomp_filter_prog_count < MAX_PROGS) :
    Chain { p with
      seccomp_filters := splice p.seccomp_filters p.seccomp_filter_count new
      seccomp_filter_lengths := p.seccomp_filter_lengths.set p.seccomp_filter_prog_count new.length
      seccomp_filter_prog_count := p.seccomp_filter_prog_count + 1
      seccomp_filter_count := p.seccomp_filter_count + new.length
      seccomp_mode := SECCOMP_MODE_FILTER } (progs ++ [new]) where
  filters := (length_splice (by rw [h.filters]; exact hn)).trans h.filters
  programs := by
    rw [flatten_append, flatten_singleton]
    exact prefix_splice h.programs h.count
  count := by
    rw [flatten_append, flatten_singleton, length_append]
    exact congrArg (· + new.length) h.count
  prog_count := by
    rw [length_append]
    exact congrArg (· + 1) h.prog_count
  lengths := by
    obtain ⟨r, hr⟩ := h.lengths
    have hlen := congrArg List.length hr
    rw [length_append, length_map, h.lengths_length] at hlen
    rw [h.prog_count] at hp
    simp only [map_append, map_cons, map_nil]
    rw [h.prog_count, ← hr, set_append, length_map, if_neg (Nat.lt_irrefl _), Nat.sub_self]
    cases r with
    | nil =>
      rw [length_nil] at hlen
      omega
    | cons x r => exact ⟨r, by rw [append_assoc]; rfl⟩
  lengths_length := by
    rw [length_set]
    exact h.lengths_length
  mode := .inl rfl

/-- One step keeps what the array holds, and an installed program is added to it. -/
theorem Chain.step (h : Chain p progs) (s : Step) :
    Chain (machine.step p s) (progs ++ installed p s) := by
  cases s with
  | privileges no_new_privs cap_effective =>
    simp only [installed, append_nil]
    exact h.privileges no_new_privs cap_effective
  | seccomp op flags args_ptr mem =>
    change Chain (sys_seccomp p op flags args_ptr mem).1 _
    by_cases hop : op = SECCOMP_SET_MODE_FILTER
    · subst hop
      have hcall : sys_seccomp p SECCOMP_SET_MODE_FILTER flags args_ptr mem =
          setModeFilter p flags args_ptr mem := rfl
      simp only [installed, hcall]
      rcases setModeFilter_cases p flags args_ptr mem with ⟨e, he⟩ | ⟨fprog, hf, hn, hp, he⟩
      · rw [he]
        simp only [append_nil]
        exact h
      rw [he, hf]
      have hn' : p.seccomp_filter_count + (mem.insns fprog.filter fprog.len.toNat).length ≤
          MAX_INSNS := by
        rw [length_insns]
        exact hn
      unfold installFilter
      by_cases hok : (mem.copyToKernel fprog.filter).2 = true
      · simp only [hok, if_true]
        have hinst := h.install hn' hp
        simp only [length_insns] at hinst
        exact hinst
      · simp only [hok, Bool.false_eq_true, if_false, append_nil]
        exact h.written hn'
    · have hnone : installed p (.seccomp op flags args_ptr mem) = [] := by
        simp only [installed, if_neg hop]
        split <;> rfl
      rw [hnone, append_nil]
      unfold sys_seccomp
      split_ifs with hstrict
      · rcases setModeStrict_cases p flags args_ptr with he | ⟨hm, he⟩
        · rw [he]
          exact h
        · rw [he]
          refine { h with mode := .inr ⟨?_, mem_cons_of_mem _ mem_cons_self⟩ }
          exact (h.mode.resolve_left hm).1
      · exact h
      · exact h

/-- **After any calls the array holds the installed programs.** -/
theorem chain_of_reach {q : Process × List (List SockFilterInsn)} (h : history.Reachable q) :
    Chain q.1 q.2 := by
  refine h.invariant (I := fun q => Chain q.1 q.2) ?_ fun q s _ hq _ => hq.step s
  rintro ⟨p, progs⟩ ⟨⟨no_new_privs, cap_effective, rfl⟩, rfl⟩
  exact ⟨length_replicate, nil_prefix, rfl, rfl, nil_prefix, length_replicate,
    .inr ⟨rfl, mem_cons_self⟩⟩

end Chains

/-! ## 4. Running the chain -/

def lower (m r : Word) : Word := if r < m then r else m

/-- The results of the programs, one by one. -/
def results (progs : List (List SockFilterInsn)) (data : SeccompData) : Except Trap (List Word) :=
  progs.mapM fun insns => runBpfFilter insns data

section Running

variable {p : Process} {progs : List (List SockFilterInsn)} {data : SeccompData}

theorem results_cons (insns : List SockFilterInsn) :
    results (insns :: progs) data = do
      let r ← runBpfFilter insns data
      let rs ← results progs data
      return r :: rs := mapM_cons

/-- **The loop runs the installed programs and keeps the smallest result.** -/
theorem Chain.runChain (h : Chain p progs) (rest : List (List SockFilterInsn)) :
    ∀ (d : List (List SockFilterInsn)) (m : Word), progs = d ++ rest →
      runChain p data rest.length d.length d.flatten.length m =
        (results rest data).map fun rs => rs.foldl lower m := by
  induction rest with
  | nil => exact fun _ _ _ => rfl
  | cons insns rest ih =>
    intro d m hp
    subst hp
    have hlen : p.seccomp_filter_lengths[d.length]? = some insns.length := by
      obtain ⟨r, hr⟩ := h.lengths
      rw [← hr]
      simp
    obtain ⟨r, hr⟩ := h.programs
    have hslice : (p.seccomp_filters.drop d.flatten.length).take insns.length = insns := by
      rw [← hr]
      simp
    have hbound : d.flatten.length + insns.length ≤ p.seccomp_filters.length := by
      rw [← hr]
      simp
    have hnext := ih (d ++ [insns])
    simp only [length_append, length_singleton, flatten_append,
      flatten_singleton, append_assoc, singleton_append, forall_const] at hnext
    rw [length_cons, Seccomp.runChain, hlen]
    simp only [if_pos hbound, hslice, results_cons]
    cases runBpfFilter insns data with
    | error t => rfl
    | ok r =>
      simp only [Except.ok_bind, hnext]
      cases results rest data <;> rfl

theorem Chain.checkSeccomp (h : Chain p progs) (hm : p.seccomp_mode = SECCOMP_MODE_FILTER)
    (arch : Arch) (c : Call) : checkSeccomp arch p c =
      (results progs (c.data arch)).map fun rs => rs.foldl lower SECCOMP_RET_ALLOW := by
  rw [Seccomp.checkSeccomp, hm, if_neg (by decide), if_neg (by decide), if_pos rfl, h.prog_count]
  exact h.runChain progs [] _ rfl

/-- Without strict mode the dispatcher acts on the smallest result of the programs. -/
theorem Chain.dispatch (h : Chain p progs) (hm : p.seccomp_mode ≠ SECCOMP_MODE_STRICT)
    (arch : Arch) (c : Call) : dispatch arch (some p) c =
      (results progs (c.data arch)).map fun rs => decision (rs.foldl lower SECCOMP_RET_ALLOW) := by
  unfold Seccomp.dispatch
  rcases h.mode with hf | ⟨rfl, hmem⟩
  · have hne : p.seccomp_mode ≠ 0 := by
      rw [hf]
      decide
    simp only [if_pos hne, h.checkSeccomp hf]
    cases results progs (c.data arch) <;> rfl
  have hd : p.seccomp_mode = 0 := by
    rcases mem_cons.1 hmem with hd | hs
    · exact hd
    · exact absurd (mem_singleton.1 hs) hm
  simp only [hd, ne_eq, not_true, if_false]
  rfl

end Running

/-! ## 5. Which result decides -/

def action (r : Word) : Word := r &&& SECCOMP_RET_ACTION_FULL

/-- From the most to the least restrictive action: `KILL_PROCESS`, `KILL_THREAD`, `ERRNO`, any
    other, `ALLOW`. -/
def rank (r : Word) : Nat :=
  if action r = SECCOMP_RET_KILL_PROCESS then 0
  else if action r = SECCOMP_RET_KILL_THREAD then 1
  else if action r = SECCOMP_RET_ERRNO then 2
  else if action r = SECCOMP_RET_ALLOW then 4
  else 3

/-- What a result means for the call when it decides; an action the kernel does not know refuses
    it in any way. -/
def Applies (r : Word) (d : Decision) : Prop :=
  if rank r ≤ 1 then d = .kill
  else if rank r = 2 then d = .errno (r &&& SECCOMP_RET_DATA)
  else if rank r = 3 then d ≠ .handler
  else d = .handler

/-- A most restrictive result decides; without any result the handler runs. -/
def Decides (rs : List Word) (d : Decision) : Prop :=
  rs = [] ∧ d = .handler ∨ ∃ r ∈ rs, (∀ r' ∈ rs, rank r ≤ rank r') ∧ Applies r d

/-- The results for which the smallest one is a most restrictive one: one of them is
    `KILL_THREAD`, or none is a kill, one is `ERRNO` and none has a smaller action, or all allow. -/
def Ordered (rs : List Word) : Prop :=
  (∃ r ∈ rs, action r = SECCOMP_RET_KILL_THREAD) ∨
    (∀ r ∈ rs, action r ≠ SECCOMP_RET_KILL_PROCESS ∧ SECCOMP_RET_ERRNO ≤ action r) ∧
      (∃ r ∈ rs, action r = SECCOMP_RET_ERRNO) ∨
    ∀ r ∈ rs, action r = SECCOMP_RET_ALLOW

section Deciding

variable {rs : List Word} {r : Word} {d : Decision}

theorem action_toNat (r : Word) : (action r).toNat = r.toNat / 65536 * 65536 := by
  have hmask : ∀ i : Fin 32, SECCOMP_RET_ACTION_FULL.getLsbD i = decide (16 ≤ i.val) := by decide
  have hshift : action r = (r >>> 16) <<< 16 := by
    refine BitVec.eq_of_getLsbD_eq fun i hi => ?_
    have hi' := hmask ⟨i, hi⟩
    simp only at hi'
    rw [action, BitVec.getLsbD_and, hi', BitVec.getLsbD_shiftLeft, BitVec.getLsbD_ushiftRight]
    by_cases h16 : 16 ≤ i
    · simp only [h16, hi, decide_true, Bool.and_true, Bool.true_and, Nat.not_lt.2 h16, decide_false,
        Bool.not_false, Nat.add_sub_cancel' h16]
    · simp only [h16, Nat.lt_of_not_le h16, decide_false, decide_true, Bool.and_false, Bool.not_true,
        Bool.false_and]
  have hr := r.isLt
  rw [hshift, BitVec.toNat_shiftLeft, BitVec.toNat_ushiftRight, Nat.shiftRight_eq_div_pow,
    Nat.shiftLeft_eq]
  omega

theorem action_eq_iff (r a : Word) (ha : a.toNat / 65536 * 65536 = a.toNat) :
    action r = a ↔ r.toNat / 65536 = a.toNat / 65536 := by
  constructor
  · intro h
    have hr := action_toNat r
    rw [h] at hr
    omega
  · intro h
    refine BitVec.eq_of_toNat_eq ?_
    rw [action_toNat, h, ha]

theorem killProcess_iff : action r = SECCOMP_RET_KILL_PROCESS ↔ r.toNat / 65536 = 32768 :=
  action_eq_iff r _ (by decide)

theorem killThread_iff : action r = SECCOMP_RET_KILL_THREAD ↔ r.toNat / 65536 = 0 :=
  action_eq_iff r _ (by decide)

theorem errno_iff : action r = SECCOMP_RET_ERRNO ↔ r.toNat / 65536 = 5 :=
  action_eq_iff r _ (by decide)

theorem allow_iff : action r = SECCOMP_RET_ALLOW ↔ r.toNat / 65536 = 32767 :=
  action_eq_iff r _ (by decide)

theorem errno_le_iff : SECCOMP_RET_ERRNO ≤ action r ↔ 5 ≤ r.toNat / 65536 := by
  have he : SECCOMP_RET_ERRNO.toNat = 5 * 65536 := rfl
  rw [BitVec.le_def, action_toNat, he]
  omega

/-- The smallest result, or `ALLOW`. -/
theorem foldl_lower (rs : List Word) (m : Word) :
    (rs.foldl lower m = m ∨ rs.foldl lower m ∈ rs) ∧ rs.foldl lower m ≤ m ∧
      ∀ r ∈ rs, rs.foldl lower m ≤ r := by
  induction rs generalizing m with
  | nil => exact ⟨.inl rfl, BitVec.le_refl _, fun r hr => nomatch hr⟩
  | cons r rs ih =>
    obtain ⟨hmem, hle, hall⟩ := ih (lower m r)
    have hlower : lower m r ≤ m ∧ lower m r ≤ r ∧ (lower m r = m ∨ lower m r = r) := by
      unfold lower
      split
      · next h => exact ⟨BitVec.le_of_lt h, BitVec.le_refl _, .inr rfl⟩
      · next h => exact ⟨BitVec.le_refl _, BitVec.not_lt.1 h, .inl rfl⟩
    refine ⟨?_, BitVec.le_trans hle hlower.1, fun r' hr' => ?_⟩
    · rcases hmem with h | h
      · rcases hlower.2.2 with h' | h'
        · exact .inl (h.trans h')
        · exact .inr (mem_cons.2 (.inl (h.trans h')))
      · exact .inr (mem_cons_of_mem _ h)
    · rcases mem_cons.1 hr' with rfl | hr'
      · exact BitVec.le_trans hle hlower.2.1
      · exact hall r' hr'

/-- Some result is a most restrictive one. -/
theorem exists_rank_le (h : rs ≠ []) : ∃ r ∈ rs, ∀ r' ∈ rs, rank r ≤ rank r' := by
  induction rs with
  | nil => exact absurd rfl h
  | cons r rs ih =>
    by_cases hrs : rs = []
    · subst hrs
      exact ⟨r, mem_cons_self, fun r' hr' => by rw [mem_singleton.1 hr']⟩
    obtain ⟨m, hm, hle⟩ := ih hrs
    by_cases hr : rank r ≤ rank m
    · refine ⟨r, mem_cons_self, fun r' hr' => ?_⟩
      rcases mem_cons.1 hr' with rfl | hr'
      · exact Nat.le_refl _
      · exact hr.trans (hle r' hr')
    refine ⟨m, mem_cons_of_mem _ hm, fun r' hr' => ?_⟩
    rcases mem_cons.1 hr' with rfl | hr'
    · omega
    · exact hle r' hr'

end Deciding

section Verdict

variable {rs : List Word} {r m : Word} {d : Decision}

theorem rank_eq (r : Word) : rank r = if r.toNat / 65536 = 32768 then 0
    else if r.toNat / 65536 = 0 then 1 else if r.toNat / 65536 = 5 then 2
    else if r.toNat / 65536 = 32767 then 4 else 3 := by
  simp only [rank, killProcess_iff, killThread_iff, errno_iff, allow_iff]

theorem decision_eq (m : Word) : decision m =
    if m.toNat / 65536 = 0 ∨ m.toNat / 65536 = 32768 then .kill
    else if m.toNat / 65536 = 5 then .errno (m &&& SECCOMP_RET_DATA) else .handler := by
  have h : decision m = if action m = SECCOMP_RET_KILL_THREAD ∨ action m = SECCOMP_RET_KILL_PROCESS
      then .kill else if action m = SECCOMP_RET_ERRNO then .errno (m &&& SECCOMP_RET_DATA)
      else .handler := rfl
  rw [h]
  simp only [killProcess_iff, killThread_iff, errno_iff]

theorem applies_kill (h : rank r ≤ 1) : Applies r d ↔ d = .kill := by
  rw [Applies, if_pos h]

theorem applies_errno (h : rank r = 2) : Applies r d ↔ d = .errno (r &&& SECCOMP_RET_DATA) := by
  rw [Applies, if_neg (by omega), if_pos h]

theorem applies_other (h : rank r = 3) : Applies r d ↔ d ≠ .handler := by
  rw [Applies, if_neg (by omega), if_neg (by omega), if_pos h]

theorem applies_allow (h : rank r = 4) : Applies r d ↔ d = .handler := by
  rw [Applies, if_neg (by omega), if_neg (by omega), if_neg (by omega)]

theorem rank_cases (r : Word) : rank r ≤ 1 ∨ rank r = 2 ∨ rank r = 3 ∨ rank r = 4 := by
  rw [rank_eq]
  split_ifs <;> simp

/-- The handler runs exactly if every result allows. -/
theorem decides_handler : Decides rs .handler ↔ ∀ r ∈ rs, action r = SECCOMP_RET_ALLOW := by
  have hallow : ∀ r, action r = SECCOMP_RET_ALLOW ↔ 4 ≤ rank r := by
    intro r
    rw [allow_iff, rank_eq]
    split_ifs <;> omega
  simp only [hallow]
  constructor
  · rintro (⟨rfl, -⟩ | ⟨r, -, hmin, happ⟩) r' hr'
    · cases hr'
    refine Nat.le_trans ?_ (hmin r' hr')
    rcases rank_cases r with h | h | h | h
    · exact nomatch (applies_kill h).1 happ
    · exact nomatch (applies_errno h).1 happ
    · exact absurd rfl ((applies_other h).1 happ)
    · exact h.ge
  · intro hall
    by_cases hrs : rs = []
    · exact .inl ⟨hrs, rfl⟩
    obtain ⟨r, hr, hmin⟩ := exists_rank_le hrs
    have h4 := hall r hr
    refine .inr ⟨r, hr, hmin, (applies_allow ?_).2 rfl⟩
    rcases rank_cases r with h | h | h | h <;> omega

theorem decides_of_rank (hr : r ∈ rs) (hmin : ∀ r' ∈ rs, rank r ≤ rank r') (h : Applies r d) :
    Decides rs d := .inr ⟨r, hr, hmin, h⟩

/-- The smallest result decides if the results are ordered. -/
theorem decides_of_ordered (h : Ordered rs) :
    Decides rs (decision (rs.foldl lower SECCOMP_RET_ALLOW)) := by
  obtain ⟨hmem, hle, hall⟩ := foldl_lower rs SECCOMP_RET_ALLOW
  generalize rs.foldl lower SECCOMP_RET_ALLOW = m at hmem hle hall
  have hallowNat : SECCOMP_RET_ALLOW.toNat = 32767 * 65536 := rfl
  rcases h with ⟨r, hr, hk⟩ | ⟨hno, r, hr, he⟩ | hallow
  · -- a thread kill is the smallest number there is
    have hmr := BitVec.le_def.1 (hall r hr)
    rw [killThread_iff] at hk
    have hm : decision m = .kill := by rw [decision_eq, if_pos (by omega)]
    obtain ⟨r₀, hr₀, hmin⟩ := exists_rank_le (ne_nil_of_mem hr)
    refine decides_of_rank hr₀ hmin ((applies_kill ((hmin r hr).trans ?_)).2 hm)
    rw [rank_eq]
    split_ifs <;> omega
  · have hmr := BitVec.le_def.1 (hall r hr)
    rw [errno_iff] at he
    have hmmem : m ∈ rs := by
      rcases hmem with rfl | hmem
      · omega
      · exact hmem
    have hm5 := errno_le_iff.1 (hno m hmmem).2
    have hm : m.toNat / 65536 = 5 := by omega
    have hrank : rank m = 2 := by
      rw [rank_eq]
      split_ifs <;> omega
    refine decides_of_rank hmmem (fun r' hr' => ?_) ((applies_errno hrank).2 ?_)
    · have h' := (hno r' hr').1
      have h5 := errno_le_iff.1 (hno r' hr').2
      rw [ne_eq, killProcess_iff] at h'
      rw [hrank, rank_eq]
      split_ifs <;> omega
    · rw [decision_eq, if_neg (by omega), if_pos hm]
  · have hm : m.toNat / 65536 = 32767 := by
      rcases hmem with rfl | hmem
      · rfl
      · exact allow_iff.1 (hallow m hmem)
    have hd : decision m = .handler := by rw [decision_eq, if_neg (by omega), if_neg (by omega)]
    rw [hd]
    exact decides_handler.2 hallow

theorem ordered_of_decides (h : Decides rs (decision (rs.foldl lower SECCOMP_RET_ALLOW))) :
    Ordered rs := by
  obtain ⟨hmem, hle, hall⟩ := foldl_lower rs SECCOMP_RET_ALLOW
  generalize rs.foldl lower SECCOMP_RET_ALLOW = m at h hmem hle hall
  have hallowNat : SECCOMP_RET_ALLOW.toNat = 32767 * 65536 := rfl
  have hlt : m.toNat / 65536 ≤ 32767 := by
    have := BitVec.le_def.1 hle
    omega
  -- a kill that the dispatcher sees is a thread kill, and one of the results
  have hkill : decision m = .kill → Ordered rs := by
    intro hd
    rw [decision_eq] at hd
    split_ifs at hd with h0
    have hm0 : m.toNat / 65536 = 0 := by omega
    refine .inl ⟨m, ?_, killThread_iff.2 hm0⟩
    rcases hmem with rfl | hmem
    · omega
    · exact hmem
  rcases h with ⟨rfl, -⟩ | ⟨r, hr, hmin, happ⟩
  · exact .inr (.inr fun r hr => nomatch hr)
  rcases rank_cases r with hrank | hrank | hrank | hrank
  · exact hkill ((applies_kill hrank).1 happ)
  · have hd := (applies_errno hrank).1 happ
    rw [decision_eq] at hd
    split_ifs at hd with h0 h5
    refine .inr (.inl ⟨fun r' hr' => ⟨?_, ?_⟩, r, hr, ?_⟩)
    · have h' := hmin r' hr'
      rw [ne_eq, killProcess_iff]
      intro hk
      rw [hrank, rank_eq, if_pos hk] at h'
      omega
    · have hmr := BitVec.le_def.1 (hall r' hr')
      rw [errno_le_iff]
      omega
    · rw [rank_eq] at hrank
      rw [errno_iff]
      split_ifs at hrank <;> omega
  · have hd := (applies_other hrank).1 happ
    by_cases hk : decision m = .kill
    · exact hkill hk
    -- an error number would have been the most restrictive result
    exfalso
    have h0 : ¬(m.toNat / 65536 = 0 ∨ m.toNat / 65536 = 32768) := fun h0 =>
      hk (by rw [decision_eq, if_pos h0])
    have h5 : m.toNat / 65536 = 5 := by
      by_contra h5
      exact hd (by rw [decision_eq, if_neg h0, if_neg h5])
    have hmm : m ∈ rs := by
      rcases hmem with rfl | hmem
      · omega
      · exact hmem
    have h' := hmin m hmm
    rw [hrank, rank_eq, if_neg (by omega), if_neg (by omega), if_pos h5] at h'
    omega
  · rw [(applies_allow hrank).1 happ] at happ
    refine .inr (.inr fun r' hr' => ?_)
    exact decides_handler.1 (decides_of_rank hr hmin happ) r' hr'

end Verdict

/-! ## 6. The chains of a process -/

/-- The chain is enforced on a call: the call is dispatched, and as the most restrictive result
    of the programs says. -/
def Enforced (arch : Arch) (p : Process) (progs : List (List SockFilterInsn)) (c : Call) : Prop :=
  ∃ d rs, dispatch arch (some p) c = .ok d ∧ results progs (c.data arch) = .ok rs ∧ Decides rs d

/-- **After any calls of `seccomp`, the chain is enforced exactly if every program returns and the
    results are ordered.** -/
theorem seccompChain (arch : Arch) (p : Process) (progs : List (List SockFilterInsn)) (c : Call)
    (h : history.Reachable (p, progs)) (hm : p.seccomp_mode ≠ SECCOMP_MODE_STRICT) :
    Enforced arch p progs c ↔ ∃ rs, results progs (c.data arch) = .ok rs ∧ Ordered rs := by
  have hchain : Chain p progs := chain_of_reach h
  have hd := hchain.dispatch hm arch c
  constructor
  · rintro ⟨d, rs, hdispatch, hrs, hdec⟩
    rw [hdispatch, hrs] at hd
    cases hd
    exact ⟨rs, hrs, ordered_of_decides hdec⟩
  · rintro ⟨rs, hrs, hord⟩
    rw [hrs] at hd
    exact ⟨_, rs, hd, hrs, decides_of_ordered hord⟩

/-- The process that installed the one instruction as its only program. -/
def oneInsn (insn : SockFilterInsn) : Process × List (List SockFilterInsn) :=
  history.exec ({ no_new_privs := true, cap_effective := 0 }, [])
    [.seccomp SECCOMP_SET_MODE_FILTER 0 8
      ⟨fun _ => some ⟨1, 8⟩, fun _ => none, fun _ _ => true, fun _ => (fun _ => insn, true)⟩]

theorem oneInsn_reachable (insn : SockFilterInsn) :
    history.Reachable ((oneInsn insn).1, (oneInsn insn).2) := by
  have hstart : history.Reachable ({ no_new_privs := true, cap_effective := 0 }, []) :=
    .start ⟨⟨true, 0, rfl⟩, rfl⟩
  exact hstart.exec _

theorem oneInsn_progs (insn : SockFilterInsn) : (oneInsn insn).2 = [[insn]] := rfl

theorem oneInsn_mode (insn : SockFilterInsn) :
    (oneInsn insn).1.seccomp_mode ≠ SECCOMP_MODE_STRICT := by
  have h : (oneInsn insn).1.seccomp_mode = SECCOMP_MODE_FILTER := rfl
  rw [h]
  decide

theorem results_singleton {insns : List SockFilterInsn} {data : SeccompData} {r : Word}
    (h : runBpfFilter insns data = .ok r) : results [insns] data = .ok [r] := by
  rw [results_cons, h]
  rfl

/-- A program that allows is enforced. -/
theorem seccompChain_allow : Enforced .x86_64
    (oneInsn ⟨0x06#16, 0, 0, SECCOMP_RET_ALLOW⟩).1 (oneInsn ⟨0x06#16, 0, 0, SECCOMP_RET_ALLOW⟩).2
    ⟨0, fun _ => 0, 0⟩ := by
  refine (seccompChain .x86_64 _ _ ⟨0, fun _ => 0, 0⟩ (oneInsn_reachable _) (oneInsn_mode _)).2
    ⟨[SECCOMP_RET_ALLOW], results_singleton rfl, .inr (.inr fun r hr => ?_)⟩
  rw [mem_singleton.1 hr]
  decide

/-- **A program that runs off its end, which is a kill of the process, does not stop a call.** -/
theorem seccompChain_refuted :
    ¬∀ (arch : Arch) (p : Process) (progs : List (List SockFilterInsn)) (c : Call),
      history.Reachable (p, progs) → p.seccomp_mode ≠ SECCOMP_MODE_STRICT →
        Enforced arch p progs c := by
  intro h
  have hreach := oneInsn_reachable ⟨0x05#16, 0, 0, 0⟩
  have hmode := oneInsn_mode ⟨0x05#16, 0, 0, 0⟩
  obtain ⟨d, rs, hd, hrs, hdec⟩ := h .x86_64 _ _ ⟨0, fun _ => 0, 0⟩ hreach hmode
  have hrun : results [[⟨0x05#16, 0, 0, 0⟩]] (Call.data ⟨0, fun _ => 0, 0⟩ .x86_64) =
      .ok [SECCOMP_RET_KILL_PROCESS] := results_singleton rfl
  rw [(chain_of_reach hreach).dispatch hmode, oneInsn_progs, hrun] at hd
  rw [oneInsn_progs, hrun] at hrs
  cases hrs
  have hhandler : d = .handler := (Except.ok.inj hd).symm.trans (by decide)
  rw [hhandler] at hdec
  exact absurd (decides_handler.1 hdec _ mem_cons_self) (by decide)

end Zigk.Seccomp
