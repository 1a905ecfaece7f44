/-
  Subject:   WHO A PROCESS IS, across fork and the set*id calls (the Process fields of
             proc/process/types.zig, forkProcess of lifecycle.zig, the capabilities of
             capabilities/root.zig and sys_setuid .. sys_setgroups of syscall/process/process.zig).

  A process has four user ids (real, effective, saved, filesystem), four group ids of the same kinds
  and a list of supplementary groups. The user and the group calls are the same function of such a
  quadruple, up to the permission they ask for.

  `forkProcess` builds the child field by field; what it does not list gets the default of its
  declaration, which is root's.

  * `setId_within`, `setResId_within`, `setReId_within`, `setFsId_within` -- **without privilege
    the calls only move ids around**: no id comes in from outside;
  * **`forkIdentity`** -- this, and the runs from a process without an id 0 and without
    capabilities: no id 0 and no higher limit ever, exactly as long as no fork of a parent
    without these defaults succeeds.
-/
import Zigk.Base.Machine
import Zigk.Sys.Bpf

namespace Zigk.Proc.Identity

open List (mem_append mem_of_getElem? mem_or_eq_of_mem_set mem_singleton)

open Bpf (SockFilterInsn)

abbrev Id := BitVec 32

/-! ## 1. capabilities/root.zig -/

structure SetUidCapability where
  target_uid : Id
  deriving DecidableEq, Repr

def ANY_UID : Id := 0xFFFFFFFF#32

def SetUidCapability.allows (self : SetUidCapability) (target : Id) : Bool :=
  self.target_uid = ANY_UID || self.target_uid = target

structure SetGidCapability where
  target_gid : Id
  deriving DecidableEq, Repr

def ANY_GID : Id := 0xFFFFFFFF#32

def SetGidCapability.allows (self : SetGidCapability) (target : Id) : Bool :=
  self.target_gid = ANY_GID || self.target_gid = target

inductive Capability where
  | SetUid (cap : SetUidCapability)
  | SetGid (cap : SetGidCapability)
  /-- A capability of another kind, which no id call asks for. -/
  | other (kind : Nat)
  deriving DecidableEq, Repr

/-! ## 2. types.zig: what a process is made of -/

@[ext]
structure Credentials where
  uid : Id := 0
  gid : Id := 0
  euid : Id := 0
  egid : Id := 0
  suid : Id := 0
  sgid : Id := 0
  fsuid : Id := 0
  fsgid : Id := 0
  supplementary_groups : Vector Id 16 := Vector.replicate 16 0
  supplementary_groups_count : BitVec 8 := 0

/-- The Linux capability bitmasks. -/
structure CapabilityMasks where
  cap_effective : BitVec 64 := 0x1FFFFFFFFFF#64
  cap_permitted : BitVec 64 := 0x1FFFFFFFFFF#64
  cap_inheritable : BitVec 64 := 0

structure SeccompState where
  seccomp_mode : BitVec 8 := 0
  no_new_privs : Bool := false
  seccomp_filters : Vector SockFilterInsn 256 := Vector.replicate 256 ⟨0, 0, 0, 0⟩
  seccomp_filter_count : BitVec 16 := 0
  seccomp_filter_prog_count : BitVec 8 := 0
  seccomp_filter_lengths : Vector (BitVec 16) 8 := Vector.replicate 8 0

def RLIM_INFINITY : BitVec 64 := 0xFFFFFFFFFFFFFFFF#64

structure ResourceLimits where
  rlimit_as : BitVec 64 := 0x10000000#64
  rlimit_nofile_soft : BitVec 64 := 1024#64
  rlimit_nofile_hard : BitVec 64 := 4096#64
  rlimit_stack_soft : BitVec 64 := 0x800000#64
  rlimit_stack_hard : BitVec 64 := RLIM_INFINITY
  rlimit_nproc_soft : BitVec 64 := RLIM_INFINITY
  rlimit_nproc_hard : BitVec 64 := RLIM_INFINITY
  rlimit_core_soft : BitVec 64 := 0
  rlimit_core_hard : BitVec 64 := RLIM_INFINITY

/-- `F` is the type of the table of open files, `V` that of the address space. -/
structure Process (F V : Type) extends Credentials, CapabilityMasks, SeccompState, ResourceLimits
    where
  pid : BitVec 32
  pgid : BitVec 32
  sid : BitVec 32
  ctty : BitVec 32
  fd_table : F
  user_vmm : V
  heap_start : BitVec 64
  heap_break : BitVec 64
  capabilities : List Capability
  dma_allocated_pages : BitVec 32 := 0
  cwd : List (BitVec 8)
  cwd_len : BitVec 64
  vdso_base : BitVec 64 := 0
  umask : BitVec 32 := 0o022#32

open Identity.Process

variable {F V : Type}

def Process.hasSetUidCapability (self : Process F V) (target_uid : Id) : Bool :=
  self.capabilities.any fun cap =>
    match cap with
    | .SetUid setuid_cap => setuid_cap.allows target_uid
    | _ => false

def Process.hasSetGidCapability (self : Process F V) (target_gid : Id) : Bool :=
  self.capabilities.any fun cap =>
    match cap with
    | .SetGid setgid_cap => setgid_cap.allows target_gid
    | _ => false

/-! ## 3. lifecycle.zig: fork -/

/-- How the allocations of one `forkProcess` end: the copies of the table and of the address
    space, the process structure and the copy of the capability list. -/
structure ForkOutcome (F V : Type) where
  fd_table : Option F
  user_vmm : Option V
  created : Bool
  capabilities : Bool
  pid : BitVec 32

def ForkOutcome.succeeds (o : ForkOutcome F V) : Bool :=
  o.fd_table.isSome && o.user_vmm.isSome && o.created && o.capabilities

def forkProcess (parent : Process F V) (o : ForkOutcome F V) : Option (Process F V) := do
  let child_fd_table ← o.fd_table
  let child_vmm ← o.user_vmm
  guard o.created
  guard o.capabilities
  pure
    { pid := o.pid
      pgid := parent.pgid
      sid := parent.sid
      ctty := parent.ctty
      fd_table := child_fd_table
      user_vmm := child_vmm
      heap_start := parent.heap_start
      heap_break := parent.heap_break
      capabilities := parent.capabilities
      uid := parent.uid
      gid := parent.gid
      euid := parent.euid
      egid := parent.egid
      cap_effective := parent.cap_effective
      cap_permitted := parent.cap_permitted
      cap_inheritable := parent.cap_inheritable
      seccomp_mode := parent.seccomp_mode
      no_new_privs := parent.no_new_privs
      seccomp_filters := parent.seccomp_filters
      seccomp_filter_count := parent.seccomp_filter_count
      seccomp_filter_prog_count := parent.seccomp_filter_prog_count
      seccomp_filter_lengths := parent.seccomp_filter_lengths
      dma_allocated_pages := 0
      cwd := parent.cwd
      cwd_len := parent.cwd_len
      vdso_base := parent.vdso_base
      umask := parent.umask }

/-! ## 4. process.zig: the id calls -/

inductive SyscallError where
  | EPERM | EINVAL | EFAULT
  deriving DecidableEq, Repr

/-- The ids of one kind, of a user or of a group. -/
structure IdSet where
  real : Id
  effective : Id
  saved : Id
  fs : Id
  deriving DecidableEq, Repr

def IdSet.toList (s : IdSet) : List Id := [s.real, s.effective, s.saved, s.fs]

def Process.userIds (p : Process F V) : IdSet := ⟨p.uid, p.euid, p.suid, p.fsuid⟩

def Process.groupIds (p : Process F V) : IdSet := ⟨p.gid, p.egid, p.sgid, p.fsgid⟩

def Process.withUserIds (p : Process F V) (s : IdSet) : Process F V :=
  { p with uid := s.real, euid := s.effective, suid := s.saved, fsuid := s.fs }

def Process.withGroupIds (p : Process F V) (s : IdSet) : Process F V :=
  { p with gid := s.real, egid := s.effective, sgid := s.saved, fsgid := s.fs }

/-- Leave an id as it is. -/
def UNCHANGED : Id := 0xFFFFFFFF#32

/-- The common part of `setuid` and `setgid`. -/
def setId (privileged : Bool) (new : Id) (s : IdSet) : Option IdSet :=
  if privileged then some ⟨new, new, new, new⟩
  else if new = s.real ∨ new = s.saved then some { s with effective := new, fs := new }
  else none

/-- `canSetUid` and `canSetGid`. -/
def IdSet.canSet (s : IdSet) (new : Id) : Bool :=
  new = s.real || new = s.effective || new = s.saved

/-- Real, effective and saved id as asked for; the filesystem id follows the effective one. -/
def IdSet.apply (s : IdSet) (r e sv : Id) : IdSet where
  real := if r ≠ UNCHANGED then r else s.real
  effective := if e ≠ UNCHANGED then e else s.effective
  saved := if sv ≠ UNCHANGED then sv else s.saved
  fs := if e ≠ UNCHANGED then e else s.fs

/-- The common part of `setresuid` and `setresgid`. -/
def setResId (privileged : Bool) (hasCapability : Id → Bool) (r e sv : Id) (s : IdSet) :
    Option IdSet :=
  let refused (new : Id) : Bool :=
    new ≠ UNCHANGED && !privileged && !hasCapability new && !s.canSet new
  if refused r || refused e || refused sv then none else some (s.apply r e sv)

/-- The common part of `setreuid` and `setregid`, which do not ask for the same permissions. -/
def setReId (mayReal mayEffective : Id → Bool) (r e : Id) (s : IdSet) : Option IdSet :=
  if r ≠ UNCHANGED ∧ mayReal r = false then none
  else if e ≠ UNCHANGED ∧ mayEffective e = false then none
  else
    let s' := s.apply r e UNCHANGED
    if r ≠ UNCHANGED ∨ (e ≠ UNCHANGED ∧ e ≠ s.real) then some { s' with saved := s'.effective }
    else some s'

/-- The common part of `setfsuid` and `setfsgid`. -/
def setFsId (privileged : Bool) (new : Id) (s : IdSet) : IdSet :=
  if !privileged && !(s.canSet new || new = s.fs) then s else { s with fs := new }

/-- What a call returns and leaves behind. -/
abbrev Sys (F V : Type) := Except SyscallError Nat × Process F V

def orEPERM (p : Process F V) (put : IdSet → Process F V) : Option IdSet → Sys F V
  | some s => (.ok 0, put s)
  | none => (.error .EPERM, p)

def sys_setuid (proc : Process F V) (uid : BitVec 64) : Sys F V :=
  let new_uid : Id := uid.setWidth 32
  orEPERM proc proc.withUserIds
    (setId (proc.euid = 0 || proc.hasSetUidCapability new_uid) new_uid proc.userIds)

/-- The effective user decides here as well. -/
def sys_setgid (proc : Process F V) (gid : BitVec 64) : Sys F V :=
  let new_gid : Id := gid.setWidth 32
  orEPERM proc proc.withGroupIds
    (setId (proc.euid = 0 || proc.hasSetGidCapability new_gid) new_gid proc.groupIds)

def sys_setresuid (proc : Process F V) (ruid euid suid_arg : BitVec 64) : Sys F V :=
  orEPERM proc proc.withUserIds
    (setResId (proc.euid = 0) proc.hasSetUidCapability (ruid.setWidth 32) (euid.setWidth 32)
      (suid_arg.setWidth 32) proc.userIds)

def sys_setresgid (proc : Process F V) (rgid egid sgid_arg : BitVec 64) : Sys F V :=
  orEPERM proc proc.withGroupIds
    (setResId (proc.euid = 0) proc.hasSetGidCapability (rgid.setWidth 32) (egid.setWidth 32)
      (sgid_arg.setWidth 32) proc.groupIds)

def sys_setreuid (proc : Process F V) (ruid euid : BitVec 64) : Sys F V :=
  let free (new : Id) : Bool := proc.euid = 0 || proc.hasSetUidCapability new
  orEPERM proc proc.withUserIds
    (setReId (fun new => free new || new = proc.uid || new = proc.euid)
      (fun new => free new || new = proc.uid || new = proc.euid || new = proc.suid)
      (ruid.setWidth 32) (euid.setWidth 32) proc.userIds)

/-- No capability helps here, and the real id may become the saved one. -/
def sys_setregid (proc : Process F V) (rgid egid : BitVec 64) : Sys F V :=
  let may (new : Id) : Bool := proc.euid = 0 || proc.groupIds.canSet new
  orEPERM proc proc.withGroupIds
    (setReId may may (rgid.setWidth 32) (egid.setWidth 32) proc.groupIds)

/-- The old id is returned, also where nothing is changed. -/
def sys_setfsuid (proc : Process F V) (fsuid : BitVec 64) : Sys F V :=
  (.ok proc.fsuid.toNat,
    proc.withUserIds (setFsId (proc.euid = 0) (fsuid.setWidth 32) proc.userIds))

def sys_setfsgid (proc : Process F V) (fsgid : BitVec 64) : Sys F V :=
  (.ok proc.fsgid.toNat,
    proc.withGroupIds (setFsId (proc.euid = 0) (fsgid.setWidth 32) proc.groupIds))

/-- `list` is what a copy of the list of the caller gives, if it can be read. -/
def sys_setgroups (proc : Process F V) (size : BitVec 64) (list : Option (Vector Id 16)) :
    Sys F V :=
  if proc.euid ≠ 0 ∧ proc.hasSetGidCapability 0 = false then (.error .EPERM, proc)
  else if 16 < size.toNat then (.error .EINVAL, proc)
  else if 0 < size.toNat then
    match list with
    | none => (.error .EFAULT, proc)
    | some temp_groups =>
      (.ok 0,
        { proc with
          supplementary_groups :=
            Vector.ofFn fun i => if i.val < size.toNat then temp_groups[i] else 0
          supplementary_groups_count := size.setWidth 8 })
  else
    (.ok 0,
      { proc with
        supplementary_groups := Vector.replicate 16 0
        supplementary_groups_count := 0 })

/-! ## 5. What the calls do to the ids

  Without privilege every id that a call writes was one of the quadruple before it. -/

variable {s s' : IdSet}

@[simp] theorem mem_toList {x : Id} :
    x ∈ s.toList ↔ x = s.real ∨ x = s.effective ∨ x = s.saved ∨ x = s.fs := by
  simp [IdSet.toList]

theorem canSet_mem {new : Id} (h : s.canSet new = true) : new ∈ s.toList := by
  simp only [IdSet.canSet, Bool.or_eq_true, decide_eq_true_eq] at h
  simp only [mem_toList]
  tauto

theorem setId_within {new : Id} (h : setId false new s = some s') :
    s'.toList ⊆ s.toList := by
  simp only [setId, Bool.false_eq_true, if_false] at h
  split_ifs at h with hnew
  cases h
  intro x hx
  simp only [mem_toList] at hx ⊢
  rcases hnew with rfl | rfl <;> tauto

/-- An id that is written is one of the old ones, and the others are kept. -/
theorem apply_within {r e sv : Id} (hr : r ≠ UNCHANGED → r ∈ s.toList)
    (he : e ≠ UNCHANGED → e ∈ s.toList) (hsv : sv ≠ UNCHANGED → sv ∈ s.toList) :
    (s.apply r e sv).toList ⊆ s.toList := by
  have hkept : s.real ∈ s.toList ∧ s.effective ∈ s.toList ∧ s.saved ∈ s.toList ∧
      s.fs ∈ s.toList := by simp
  intro x hx
  rcases mem_toList.1 hx with rfl | rfl | rfl | rfl
  · by_cases h : r ≠ UNCHANGED
    · simpa only [IdSet.apply, if_pos h] using hr h
    · simpa only [IdSet.apply, if_neg h] using hkept.1
  · by_cases h : e ≠ UNCHANGED
    · simpa only [IdSet.apply, if_pos h] using he h
    · simpa only [IdSet.apply, if_neg h] using hkept.2.1
  · by_cases h : sv ≠ UNCHANGED
    · simpa only [IdSet.apply, if_pos h] using hsv h
    · simpa only [IdSet.apply, if_neg h] using hkept.2.2.1
  · by_cases h : e ≠ UNCHANGED
    · simpa only [IdSet.apply, if_pos h] using he h
    · simpa only [IdSet.apply, if_neg h] using hkept.2.2.2

theorem setResId_within {hasCapability : Id → Bool} (hcap : ∀ id, hasCapability id = false)
    {r e sv : Id} (h : setResId false hasCapability r e sv s = some s') :
    s'.toList ⊆ s.toList := by
  simp only [setResId, hcap, Bool.not_false, Bool.and_true] at h
  split_ifs at h with hno
  cases h
  have hok : ∀ new, (decide (new ≠ UNCHANGED) && !s.canSet new) ≠ true → new ≠ UNCHANGED →
      new ∈ s.toList := by
    intro new hn hne
    refine canSet_mem ?_
    simpa [hne] using hn
  simp only [Bool.or_eq_true, not_or] at hno
  exact apply_within (hok r hno.1.1) (hok e hno.1.2) (hok sv hno.2)

theorem setReId_within {mayReal mayEffective : Id → Bool} {r e : Id}
    (hr : ∀ id, mayReal id = true → id ∈ s.toList)
    (he : ∀ id, mayEffective id = true → id ∈ s.toList)
    (h : setReId mayReal mayEffective r e s = some s') : s'.toList ⊆ s.toList := by
  have happ (h1 : ¬(r ≠ UNCHANGED ∧ mayReal r = false))
      (h2 : ¬(e ≠ UNCHANGED ∧ mayEffective e = false)) :
      (s.apply r e UNCHANGED).toList ⊆ s.toList := by
    refine apply_within (fun hne => hr r ?_) (fun hne => he e ?_) (fun hne => absurd rfl hne)
    · simpa [hne] using h1
    · simpa [hne] using h2
  simp only [setReId] at h
  split_ifs at h with h1 h2 h3
  · cases h
    intro x hx
    refine happ h1 h2 ?_
    -- the saved id becomes the new effective one
    simp only [mem_toList] at hx ⊢
    tauto
  · cases h
    exact happ h1 h2

theorem setFsId_within (new : Id) (s : IdSet) : (setFsId false new s).toList ⊆ s.toList := by
  simp only [setFsId, Bool.not_false, Bool.true_and]
  split_ifs with h
  · exact fun _ hx => hx
  intro x hx
  have hnew : new ∈ s.toList := by
    simp only [Bool.not_eq_true, Bool.not_eq_false'] at h
    rcases Bool.or_eq_true _ _ ▸ h with h | h
    · exact canSet_mem h
    · rw [of_decide_eq_true h]
      simp
  simp only [mem_toList] at hx hnew ⊢
  rcases hx with rfl | rfl | rfl | rfl <;> tauto

/-! ## 6. Runs -/

inductive Call where
  | setuid (uid : BitVec 64)
  | setgid (gid : BitVec 64)
  | setresuid (ruid euid suid : BitVec 64)
  | setresgid (rgid egid sgid : BitVec 64)
  | setreuid (ruid euid : BitVec 64)
  | setregid (rgid egid : BitVec 64)
  | setfsuid (fsuid : BitVec 64)
  | setfsgid (fsgid : BitVec 64)
  | setgroups (size : BitVec 64) (list : Option (Vector Id 16))

def Call.run (p : Process F V) : Call → Sys F V
  | .setuid uid => sys_setuid p uid
  | .setgid gid => sys_setgid p gid
  | .setresuid r e s => sys_setresuid p r e s
  | .setresgid r e s => sys_setresgid p r e s
  | .setreuid r e => sys_setreuid p r e
  | .setregid r e => sys_setregid p r e
  | .setfsuid id => sys_setfsuid p id
  | .setfsgid id => sys_setfsgid p id
  | .setgroups size list => sys_setgroups p size list

inductive Action (F V : Type) where
  | fork (o : ForkOutcome F V)
  | call (c : Call)

/-- The process at a place acts; a child comes last. -/
def step (s : List (Process F V)) (i : Nat × Action F V) : List (Process F V) :=
  match s[i.1]? with
  | none => s
  | some p =>
    match i.2 with
    | .fork o => s ++ (forkProcess p o).toList
    | .call c => s.set i.1 (c.run p).2

/-- A process and all its descendants, those that have exited included. -/
def family (init : Process F V) : Machine (List (Process F V)) (Nat × Action F V) where
  start s := s = [init]
  step := step

/-! ## 7. What is kept -/

/-- All ids of a process; of the groups those in use. -/
def Process.ids (p : Process F V) : List Id :=
  p.userIds.toList ++ p.groupIds.toList ++
    p.supplementary_groups.toList.take p.supplementary_groups_count.toNat

structure ResourceLimits.AtMost (a b : ResourceLimits) : Prop where
  as : a.rlimit_as ≤ b.rlimit_as
  nofile_soft : a.rlimit_nofile_soft ≤ b.rlimit_nofile_soft
  nofile_hard : a.rlimit_nofile_hard ≤ b.rlimit_nofile_hard
  stack_soft : a.rlimit_stack_soft ≤ b.rlimit_stack_soft
  stack_hard : a.rlimit_stack_hard ≤ b.rlimit_stack_hard
  nproc_soft : a.rlimit_nproc_soft ≤ b.rlimit_nproc_soft
  nproc_hard : a.rlimit_nproc_hard ≤ b.rlimit_nproc_hard
  core_soft : a.rlimit_core_soft ≤ b.rlimit_core_soft
  core_hard : a.rlimit_core_hard ≤ b.rlimit_core_hard

theorem ResourceLimits.AtMost.refl (a : ResourceLimits) : a.AtMost a := by
  constructor <;> exact BitVec.le_refl _

structure Unprivileged (p : Process F V) : Prop where
  ids : 0 ∉ p.ids
  capabilities : p.capabilities = []

/-- The same credentials, capability masks, seccomp state and limits. -/
structure SameIdentity (parent child : Process F V) : Prop where
  credentials : child.toCredentials = parent.toCredentials
  masks : child.toCapabilityMasks = parent.toCapabilityMasks
  seccomp : child.toSeccompState = parent.toSeccompState
  limits : child.toResourceLimits = parent.toResourceLimits

/-- The parent has the defaults in what `forkProcess` does not list. -/
structure ForkDefaults (parent : Process F V) : Prop where
  suid : parent.suid = 0
  sgid : parent.sgid = 0
  fsuid : parent.fsuid = 0
  fsgid : parent.fsgid = 0
  groups : parent.supplementary_groups = Vector.replicate 16 0
  groups_count : parent.supplementary_groups_count = 0
  limits : parent.toResourceLimits = {}

/-- A fork that has its memory is of a parent with the defaults. -/
def ForksDefaults (s : List (Process F V)) (i : Nat × Action F V) : Prop :=
  ∀ p o, s[i.1]? = some p → i.2 = .fork o → o.succeeds = true → ForkDefaults p

/-- What a descendant of `init` must be: no id is 0, and no limit is above that of `init`. -/
structure Confined (init p : Process F V) : Prop where
  ids : 0 ∉ p.ids
  limits : p.toResourceLimits.AtMost init.toResourceLimits

/-! ## 8. Forks -/

theorem forkProcess_isSome (parent : Process F V) (o : ForkOutcome F V) :
    (forkProcess parent o).isSome = o.succeeds := by
  obtain ⟨fd, vmm, created, capabilities, pid⟩ := o
  cases fd <;> cases vmm <;> cases created <;> cases capabilities <;> rfl

variable {parent child : Process F V} {o : ForkOutcome F V}

/-- What a child is made of, as far as anybody asks here. -/
theorem forkProcess_child (h : forkProcess parent o = some child) :
    child.toCredentials =
        { uid := parent.uid, gid := parent.gid, euid := parent.euid, egid := parent.egid } ∧
      child.toCapabilityMasks = parent.toCapabilityMasks ∧
      child.toSeccompState = parent.toSeccompState ∧ child.toResourceLimits = {} ∧
      child.capabilities = parent.capabilities := by
  obtain ⟨fd, vmm, created, capabilities, pid⟩ := o
  cases fd <;> cases vmm <;> cases created <;> cases capabilities <;> cases h
  exact ⟨rfl, rfl, rfl, rfl, rfl⟩

/-- **A child is its parent's equal exactly if the parent has the defaults where nothing is
    copied.** -/
theorem forkProcess_same
    (h : forkProcess parent o = some child) : SameIdentity parent child ↔ ForkDefaults parent := by
  obtain ⟨hcred, hmasks, hseccomp, hlimits, -⟩ := forkProcess_child h
  constructor
  · intro hs
    have hc := hs.credentials.symm.trans hcred
    have hl := hs.limits.symm.trans hlimits
    exact
      { suid := congrArg Credentials.suid hc
        sgid := congrArg Credentials.sgid hc
        fsuid := congrArg Credentials.fsuid hc
        fsgid := congrArg Credentials.fsgid hc
        groups := congrArg Credentials.supplementary_groups hc
        groups_count := congrArg Credentials.supplementary_groups_count hc
        limits := hl }
  · intro hd
    refine ⟨hcred.trans ?_, hmasks, hseccomp, hlimits.trans hd.limits.symm⟩
    exact Credentials.ext rfl rfl rfl rfl hd.suid.symm hd.sgid.symm hd.fsuid.symm hd.fsgid.symm
      hd.groups.symm hd.groups_count.symm

theorem SameIdentity.ids (h : SameIdentity parent child) :
    child.ids = parent.ids := by
  simp only [Process.ids, Process.userIds, Process.groupIds, h.credentials]

/-- The saved user id of a child is that of root. -/
theorem forkProcess_suid (h : forkProcess parent o = some child) : child.suid = 0 :=
  congrArg Credentials.suid (forkProcess_child h).1

/-! ## 9. The calls of a process without privilege -/

/-- `p'` has no id that `p` has not, and the same capabilities and limits. -/
structure Moved (p p' : Process F V) : Prop where
  ids : p'.ids ⊆ p.ids
  capabilities : p'.capabilities = p.capabilities
  limits : p'.toResourceLimits = p.toResourceLimits

theorem Moved.refl (p : Process F V) : Moved p p := ⟨fun _ h => h, rfl, rfl⟩

theorem withUserIds_moved {p : Process F V} (h : s.toList ⊆ p.userIds.toList) :
    Moved p (p.withUserIds s) := by
  refine ⟨?_, rfl, rfl⟩
  intro x hx
  simp only [ids, mem_append] at hx ⊢
  rcases hx with (hx | hx) | hx
  · exact .inl (.inl (h hx))
  · exact .inl (.inr hx)
  · exact .inr hx

theorem withGroupIds_moved {p : Process F V} (h : s.toList ⊆ p.groupIds.toList) :
    Moved p (p.withGroupIds s) := by
  refine ⟨?_, rfl, rfl⟩
  intro x hx
  simp only [ids, mem_append] at hx ⊢
  rcases hx with (hx | hx) | hx
  · exact .inl (.inl hx)
  · exact .inl (.inr (h hx))
  · exact .inr hx

theorem orEPERM_moved {p : Process F V} {put : IdSet → Process F V} {o : Option IdSet}
    (h : ∀ s, o = some s → Moved p (put s)) : Moved p (orEPERM p put o).2 := by
  cases o with
  | none => exact .refl p
  | some s => exact h s rfl

section Unprivileged

variable {p : Process F V} (hp : Unprivileged p)

include hp

theorem Unprivileged.euid : p.euid ≠ 0 := by
  intro h
  exact hp.ids (by simp [Process.ids, Process.userIds, h])

theorem Unprivileged.euid_eq_false : decide (p.euid = 0) = false := decide_eq_false hp.euid

theorem Unprivileged.noSetUid (id : Id) : p.hasSetUidCapability id = false := by
  simp [hasSetUidCapability, hp.capabilities]

theorem Unprivileged.noSetGid (id : Id) : p.hasSetGidCapability id = false := by
  simp [hasSetGidCapability, hp.capabilities]

/-- **Without privilege a call brings no id in.** -/
theorem Unprivileged.run_moved (c : Call) : Moved p (c.run p).2 := by
  cases c with
  | setuid uid =>
    refine orEPERM_moved fun s h => withUserIds_moved ?_
    rw [hp.euid_eq_false, hp.noSetUid] at h
    exact setId_within h
  | setgid gid =>
    refine orEPERM_moved fun s h => withGroupIds_moved ?_
    rw [hp.euid_eq_false, hp.noSetGid] at h
    exact setId_within h
  | setresuid r e sv =>
    refine orEPERM_moved fun s h => withUserIds_moved ?_
    rw [hp.euid_eq_false] at h
    exact setResId_within hp.noSetUid h
  | setresgid r e sv =>
    refine orEPERM_moved fun s h => withGroupIds_moved ?_
    rw [hp.euid_eq_false] at h
    exact setResId_within hp.noSetGid h
  | setreuid r e =>
    refine orEPERM_moved fun s h => withUserIds_moved ?_
    simp only [hp.euid_eq_false, hp.noSetUid, Bool.false_or] at h
    refine setReId_within ?_ ?_ h
    · intro id hid
      simp only [Bool.or_eq_true, decide_eq_true_eq] at hid
      simp only [mem_toList, userIds]
      tauto
    intro id hid
    simp only [Bool.or_eq_true, decide_eq_true_eq] at hid
    simp only [mem_toList, userIds]
    tauto
  | setregid r e =>
    refine orEPERM_moved fun s h => withGroupIds_moved ?_
    simp only [hp.euid_eq_false, Bool.false_or] at h
    exact setReId_within (fun _ => canSet_mem) (fun _ => canSet_mem) h
  | setfsuid id =>
    refine withUserIds_moved ?_
    rw [hp.euid_eq_false]
    exact setFsId_within _ _
  | setfsgid id =>
    refine withGroupIds_moved ?_
    rw [hp.euid_eq_false]
    exact setFsId_within _ _
  | setgroups size list =>
    have h : sys_setgroups p size list = (.error .EPERM, p) :=
      if_pos ⟨hp.euid, hp.noSetGid 0⟩
    simp only [Call.run, h]
    exact .refl p

end Unprivileged

/-! ## 10. The family of an unprivileged process -/

theorem Unprivileged.of_moved {p p' : Process F V} (hp : Unprivileged p) (h : Moved p p') :
    Unprivileged p' :=
  ⟨fun h0 => hp.ids (h.ids h0), h.capabilities.trans hp.capabilities⟩

theorem step_fork {s : List (Process F V)} {k : Nat} {p : Process F V}
    (hp : s[k]? = some p) : step s (k, .fork o) = s ++ (forkProcess p o).toList := by
  simp only [step, hp]

theorem step_call {s : List (Process F V)} {k : Nat} {c : Call} {p : Process F V}
    (hp : s[k]? = some p) : step s (k, .call c) = s.set k (c.run p).2 := by
  simp only [step, hp]

theorem step_none {s : List (Process F V)} {k : Nat} (a : Action F V) (hp : s[k]? = none) :
    step s (k, a) = s := by
  simp only [step, hp]

/-- A member of the family in a run whose forks meet the condition. -/
structure Member (init p : Process F V) : Prop where
  unprivileged : Unprivileged p
  limits : p.toResourceLimits = init.toResourceLimits

variable {init : Process F V}

theorem Member.confined {p : Process F V} (h : Member init p) : Confined init p :=
  ⟨h.unprivileged.ids, h.limits ▸ .refl _⟩

theorem step_members {s : List (Process F V)} {i : Nat × Action F V}
    (hs : ∀ p ∈ s, Member init p) (hc : ForksDefaults s i) : ∀ p ∈ step s i, Member init p := by
  obtain ⟨k, a⟩ := i
  cases hk : s[k]? with
  | none =>
    rw [step_none a hk]
    exact hs
  | some p =>
    have hp := hs p (mem_of_getElem? hk)
    cases a with
    | fork o =>
      rw [step_fork hk]
      intro q hq
      rcases mem_append.1 hq with hq | hq
      · exact hs q hq
      have hf : forkProcess p o = some q := by simpa using hq
      have ho : o.succeeds = true := by rw [← forkProcess_isSome p o, hf]; rfl
      have hsame := (forkProcess_same hf).2 (hc p o hk rfl ho)
      refine ⟨⟨?_, ?_⟩, hsame.limits.trans hp.limits⟩
      · rw [hsame.ids]
        exact hp.unprivileged.ids
      · exact (forkProcess_child hf).2.2.2.2.trans hp.unprivileged.capabilities
    | call c =>
      rw [step_call hk]
      intro q hq
      rcases mem_or_eq_of_mem_set hq with hq | rfl
      · exact hs q hq
      · have hm := hp.unprivileged.run_moved c
        exact ⟨hp.unprivileged.of_moved hm, hm.limits.trans hp.limits⟩

theorem members (hinit : Unprivileged init) {s : List (Process F V)}
    (h : (family init).Reach ForksDefaults s) : ∀ p ∈ s, Member init p := by
  refine h.invariant (I := fun s => ∀ p ∈ s, Member init p) ?_ ?_
  · rintro s rfl p hp
    rw [mem_singleton.1 hp]
    exact ⟨hinit, rfl⟩
  · intro s i _ hs hc
    exact step_members hs hc

/-- A fork that breaks the condition leaves a child whose saved user id is 0. -/
theorem forksDefaults_of_confined {s : List (Process F V)}
    {i : Nat × Action F V} (h : ∀ p ∈ step s i, Confined init p) : ForksDefaults s i := by
  rintro p o hk ha ho
  obtain ⟨k, a⟩ := i
  obtain rfl : a = .fork o := ha
  obtain ⟨child, hf⟩ := Option.isSome_iff_exists.1 ((forkProcess_isSome p o).trans ho)
  rw [step_fork hk, hf] at h
  have hchild := (h child (by simp)).ids
  exact absurd (by simp [ids, userIds, forkProcess_suid hf]) hchild

theorem along_of_confined (l : List (Nat × Action F V)) (s : List (Process F V))
    (h : ∀ n, ∀ p ∈ (family init).exec s (l.take n), Confined init p) :
    (family init).Along ForksDefaults s l := by
  induction l generalizing s with
  | nil => trivial
  | cons i l ih => exact ⟨forksDefaults_of_confined (h 1), ih _ fun n => h (n + 1)⟩

/-- **Fork keeps the identity of a parent exactly if the parent has root's defaults where nothing
    is copied; and a family that begins without an id 0 and without capabilities stays free of
    id 0 and within its limits exactly as long as no other parent's fork succeeds.** -/
theorem forkIdentity :
    (∀ (parent child : Process F V) (o : ForkOutcome F V), forkProcess parent o = some child →
      (SameIdentity parent child ↔ ForkDefaults parent)) ∧
    ∀ init : Process F V, Unprivileged init → ∀ l : List (Nat × Action F V),
      (∀ n, ∀ p ∈ (family init).exec [init] (l.take n), Confined init p) ↔
        (family init).Along ForksDefaults [init] l := by
  refine ⟨fun parent child o h => forkProcess_same h, fun init hinit l => ⟨?_, ?_⟩⟩
  · exact along_of_confined l [init]
  intro h n p hp
  have hr : (family init).Reach ForksDefaults ((family init).exec [init] (l.take n)) :=
    Machine.Reach.exec (.start rfl) (h.take n)
  exact (members hinit hr p hp).confined

/-- A user with a low limit on open files. -/
def user : Process Unit Unit where
  uid := 1000
  gid := 1000
  euid := 1000
  egid := 1000
  suid := 1000
  sgid := 1000
  fsuid := 1000
  fsgid := 1000
  rlimit_nofile_hard := 16
  pid := 2
  pgid := 2
  sid := 2
  ctty := 0
  fd_table := ()
  user_vmm := ()
  heap_start := 0
  heap_break := 0
  capabilities := []
  cwd := [0x2f]
  cwd_len := 1

theorem user_unprivileged : Unprivileged user := ⟨by decide, rfl⟩

def forked : ForkOutcome Unit Unit := ⟨some (), some (), true, true, 3⟩

/-- A fork without the memory for the table of files, and two calls that ask for id 0. -/
def attempts : List (Nat × Action Unit Unit) :=
  [(0, .fork ⟨none, some (), true, true, 3⟩), (0, .call (.setuid 0)),
    (0, .call (.setresuid 0 1000 0))]

theorem attempts_forksDefaults : (family user).Along ForksDefaults [user] attempts := by
  refine ⟨?_, ?_, ?_, trivial⟩
  · rintro p o - ha ho
    cases ha
    cases ho
  · rintro p o - ha
    cases ha
  · rintro p o - ha
    cases ha

theorem forkIdentity_attempts :
    (∀ child, forkProcess user forked = some child →
      (SameIdentity user child ↔ ForkDefaults user)) ∧
    ∀ n, ∀ p ∈ (family user).exec [user] (attempts.take n), Confined user p :=
  ⟨fun child => forkIdentity.1 user child forked,
    (forkIdentity.2 user user_unprivileged attempts).2 attempts_forksDefaults⟩

/-- The child of the user has the saved id and the filesystem id of root and the default limit,
    and becomes root. -/
theorem forkIdentity_refuted :
    ∃ child root, forkProcess user forked = some child ∧
      (family user).exec [user] [(0, .fork forked), (1, .call (.setuid 0))] = [user, root] ∧
      child.suid = 0 ∧ child.fsuid = 0 ∧ user.rlimit_nofile_hard < child.rlimit_nofile_hard ∧
      root.euid = 0 ∧ Unprivileged user :=
  ⟨_, _, rfl, rfl, rfl, rfl, by decide, rfl, user_unprivileged⟩

end Zigk.Proc.Identity
