/-
  Subject:   SEMAPHORE SETS: `semop` against the execution of its operations one after another.

  `semop` goes over the operations twice: first it asks of each whether the values, as they are
  now, let it proceed, then it carries all of them out.

  * `semget`, `semop`, `semctl`, `applySemUndo` -- sem.zig; the wait queues are with the callers,
    an operation says how many threads it wakes;
  * `turn`, `sequential` -- the operations one after another, each at its turn;
  * **`semopAtomic`** -- `semop` is the sequential execution, all or nothing, exactly if no
    operation of -32768 is reached and the operations meet the first values just when each meets
    the value at its turn and no sum passes `SEMVMX`.
-/
import Zigk.Base.Machine
import Zigk.Ipc.Perm

namespace Zigk.Ipc

open Function List Except Option

/-! ## 1. sem.zig -/

def SEMMNI : Nat := 128
def SEMMSL : Nat := 250
def SEMVMX : Nat := 32767
def MAX_SEM_UNDO : Nat := 32

def IPC_NOWAIT : BitVec 16 := 0o4000#16
def SEM_UNDO : BitVec 16 := 0x1000#16

structure Semaphore where
  semval : Nat
  sempid : BitVec 32
  deriving DecidableEq, Repr

structure SemSet where
  id : BitVec 32 := 0
  key : BitVec 32 := 0
  perm : IpcPerm := ⟨0, 0, 0, 0, 0, 0, 0⟩
  nsems : Nat := 0
  sems : Option (List Semaphore) := none
  in_use : Bool := false

structure SemTable where
  sem_sets : Fin SEMMNI → SemSet := fun _ => {}
  sem_seq : BitVec 16 := 0

/-- An operation of an array; `sem_op` is an `i16`. -/
structure SemBuf where
  sem_num : Nat
  sem_op : Int
  sem_flg : BitVec 16
  lower : -32768 ≤ sem_op
  upper : sem_op ≤ 32767

structure SemUndo where
  semid : BitVec 32
  sem_num : Nat
  adjustment : Int
  deriving DecidableEq, Repr

/-- The caller with its adjustments. -/
structure SemProcess where
  cred : Cred
  sem_undo : List SemUndo := []

/-- A sum of `i32`, saturating. -/
def satAdd (a b : Int) : Int := max (-2147483648) (min 2147483647 (a + b))

def recordSemUndo (proc : SemProcess) (semid : BitVec 32) (sem_num : Nat) (adjustment : Int) :
    SemProcess :=
  match proc.sem_undo.findIdx? fun e => e.semid = semid ∧ e.sem_num = sem_num with
  | some i => { proc with sem_undo := proc.sem_undo.modify i fun e =>
    { e with adjustment := satAdd e.adjustment adjustment } }
  | none =>
    if proc.sem_undo.length < MAX_SEM_UNDO then
      { proc with sem_undo := proc.sem_undo ++ [⟨semid, sem_num, adjustment⟩] }
    else proc

def SemTable.findKey (t : SemTable) (key : BitVec 32) : Option (Fin SEMMNI) :=
  (List.finRange SEMMNI).find? fun i => (t.sem_sets i).in_use && (t.sem_sets i).key = key

/-- A private key names no set. -/
def SemTable.existing (t : SemTable) (key : BitVec 32) : Option (Fin SEMMNI) :=
  if key = IPC_PRIVATE then none else t.findKey key

def SemTable.findFree (t : SemTable) : Option (Fin SEMMNI) :=
  (List.finRange SEMMNI).find? fun i => !(t.sem_sets i).in_use

/-- The set made in a free slot; `alloc` says whether the heap had room. -/
def semCreate (t : SemTable) (key : BitVec 32) (nsems : Nat) (flags : BitVec 32) (proc : Cred)
    (alloc : Bool) : SemTable × Except IpcError (BitVec 32) :=
  match t.findFree with
  | none => (t, .error .ENOSPC)
  | some idx =>
    if alloc then
      let seq := t.sem_seq + 1
      let id := makeId idx.val seq
      let set : SemSet := {
        id := id
        key := key
        perm := ⟨key, proc.euid, proc.egid, proc.euid, proc.egid,
          (flags &&& 0o777#32).setWidth 16, seq⟩
        nsems := nsems
        sems := some (List.replicate nsems ⟨0, 0⟩)
        in_use := true }
      ({ sem_sets := update t.sem_sets idx set, sem_seq := seq }, .ok id)
    else (t, .error .ENOMEM)

def semget (t : SemTable) (key : BitVec 32) (nsems : Nat) (flags : BitVec 32) (proc : Cred)
    (alloc : Bool) : SemTable × Except IpcError (BitVec 32) :=
  if nsems = 0 ∨ nsems > SEMMSL then (t, .error .EINVAL)
  else
    match t.existing key with
    | some i =>
      let set := t.sem_sets i
      if flags &&& IPC_EXCL ≠ 0 ∧ flags &&& IPC_CREAT ≠ 0 then (t, .error .EEXIST)
      else if nsems > set.nsems then (t, .error .EINVAL)
      else if checkAccess set.perm proc .read then (t, .ok set.id)
      else (t, .error .EACCES)
    | none =>
      if flags &&& IPC_CREAT = 0 ∧ key ≠ IPC_PRIVATE then (t, .error .ENOENT)
      else semCreate t key nsems flags proc alloc

/-- The slot of an id that is not stale; `gone` is the error for one that is. -/
def SemTable.lookup (t : SemTable) (id : BitVec 32) (gone : IpcError) :
    Except IpcError (Fin SEMMNI) :=
  if h : idToIndex id < SEMMNI then
    let set := t.sem_sets ⟨idToIndex id, h⟩
    if !set.in_use || set.perm.seq != idToSeq id then .error gone else .ok ⟨idToIndex id, h⟩
  else .error .EINVAL

/-- An operation that may add needs write access. -/
def SemBuf.mode (sop : SemBuf) : AccessMode := if sop.sem_op ≥ 0 then .write else .read

/-- The check of the operations before any of them is looked at. -/
def checkSops (set : SemSet) (proc : Cred) : List SemBuf → Except IpcError Unit
  | [] => .ok ()
  | sop :: sops =>
    if sop.sem_num ≥ set.nsems then .error .EFBIG
    else if !checkAccess set.perm proc sop.mode then .error .EACCES
    else checkSops set proc sops

/-- The slot and the semaphores that `semop` works on. -/
def SemTable.enter (t : SemTable) (id : BitVec 32) (sops : List SemBuf) (proc : Cred) :
    Except IpcError (Fin SEMMNI × List Semaphore) := do
  let idx ← t.lookup id .EIDRM
  checkSops (t.sem_sets idx) proc sops
  match (t.sem_sets idx).sems with
  | none => .error .EINVAL
  | some sems => .ok (idx, sems)

def semAt (sems : List Semaphore) (i : Nat) : Except Trap Semaphore :=
  match sems[i]? with
  | some sem => .ok sem
  | none => .error .indexOutOfBounds

/-- `@intCast(-sop.sem_op)`: the negation is one of `i16`. -/
def decrement (sop : SemBuf) : Except Trap Nat :=
  if sop.sem_op = -32768 then .error .integerOverflow else .ok (-sop.sem_op).toNat

/-- The first pass: all operations can proceed on the values as they are. -/
def canProceed (sems : List Semaphore) : List SemBuf → Except Trap Bool
  | [] => .ok true
  | sop :: sops => do
      let sem ← semAt sems sop.sem_num
      if sop.sem_op < 0 then
        let decr ← decrement sop
        if sem.semval < decr then .ok false else canProceed sems sops
      else if sop.sem_op = 0 then
        if sem.semval ≠ 0 then .ok false else canProceed sems sops
      else canProceed sems sops

/-- The value after an operation; the values are `u32`. -/
def applyValue (semval : Nat) (sop : SemBuf) : Except Trap Nat :=
  if sop.sem_op < 0 then do
    let decr ← decrement sop
    Trap.sub semval decr
  else if semval + sop.sem_op.toNat < 2 ^ 32 then .ok (semval + sop.sem_op.toNat)
  else .error .integerOverflow

/-- One operation of the second pass. -/
def applyOp (pid : BitVec 32) (sems : List Semaphore) (sop : SemBuf) :
    Except Trap (List Semaphore) := do
  let sem ← semAt sems sop.sem_num
  let semval ← applyValue sem.semval sop
  return sems.set sop.sem_num ⟨semval, pid⟩

def recordUndo (id : BitVec 32) (proc : SemProcess) (sop : SemBuf) : SemProcess :=
  if sop.sem_flg &&& SEM_UNDO ≠ 0 then recordSemUndo proc id sop.sem_num (-sop.sem_op) else proc

/-- The second pass, with the adjustments of the caller. -/
def applyOps (id : BitVec 32) (sems : List Semaphore) (proc : SemProcess) (sops : List SemBuf) :
    Except Trap (List Semaphore × SemProcess) := do
  let sems' ← sops.foldlM (applyOp proc.cred.pid) sems
  return (sems', sops.foldl (recordUndo id) proc)

def SemTable.setSems (t : SemTable) (idx : Fin SEMMNI) (sems : List Semaphore) : SemTable :=
  { t with sem_sets := update t.sem_sets idx { t.sem_sets idx with sems := some sems } }

/-- What a pass of `semop` leaves behind. -/
structure SemResult where
  table : SemTable
  proc : SemProcess
  attempt : Attempt Unit
  wake : Wake := .nobody

/-- One pass of the loop of `semop`: it ends, or the caller waits in the queue of the set. -/
def semop (t : SemTable) (id : BitVec 32) (sops : List SemBuf) (proc : SemProcess) : SemResult :=
  match t.enter id sops proc.cred with
  | .error e => ⟨t, proc, .error e, .nobody⟩
  | .ok (idx, sems) =>
    match canProceed sems sops with
    | .error trap => ⟨t, proc, .trap trap, .nobody⟩
    | .ok false =>
      if sops.any fun sop => sop.sem_flg &&& IPC_NOWAIT ≠ 0 then
        ⟨t, proc, .error .EAGAIN, .nobody⟩
      else ⟨t, proc, .blocked, .nobody⟩
    | .ok true =>
      match applyOps id sems proc sops with
      | .error trap => ⟨t, proc, .trap trap, .nobody⟩
      | .ok (sems', proc') =>
        ⟨t.setSems idx sems', proc', .done (),
          if sops.any fun sop => 0 < sop.sem_op then .everybody else .nobody⟩

/-- `semctl` with `SETVAL`. -/
def semSetval (t : SemTable) (id : BitVec 32) (semnum arg : Nat) (proc : Cred) :
    SemTable × Except IpcError Wake :=
  match t.lookup id .EINVAL with
  | .error e => (t, .error e)
  | .ok idx =>
    let set := t.sem_sets idx
    if semnum ≥ set.nsems then (t, .error .ERANGE)
    else if !checkAccess set.perm proc .write then (t, .error .EACCES)
    else if arg > SEMVMX then (t, .error .ERANGE)
    else
      match set.sems with
      | none => (t, .error .EINVAL)
      | some sems =>
        (t.setSems idx (sems.modify semnum fun sem => { sem with semval := arg }), .ok .first)

/-- `semctl` with `IPC_RMID`. -/
def semRmid (t : SemTable) (id : BitVec 32) (proc : Cred) : SemTable × Except IpcError Wake :=
  match t.lookup id .EINVAL with
  | .error e => (t, .error e)
  | .ok idx =>
    let set := t.sem_sets idx
    if !isOwnerOrCreator set.perm proc.euid then (t, .error .EPERM)
    else ({ t with
      sem_sets := update t.sem_sets idx { set with in_use := false, sems := none } },
      .ok .everybody)

/-- `semctl` with `IPC_SET`: owner, group and mode from the buffer of the caller. -/
def semSet (t : SemTable) (id : BitVec 32) (buf : Option (BitVec 32 × BitVec 32 × BitVec 16))
    (proc : Cred) : SemTable × Except IpcError Wake :=
  match t.lookup id .EINVAL with
  | .error e => (t, .error e)
  | .ok idx =>
    let set := t.sem_sets idx
    if !isOwnerOrCreator set.perm proc.euid then (t, .error .EPERM)
    else
      match buf with
      | none => (t, .error .EFAULT)
      | some (uid, gid, mode) =>
        let perm := { set.perm with uid := uid, gid := gid, mode := mode &&& 0o777#16 }
        ({ t with sem_sets := update t.sem_sets idx { set with perm := perm } },
          .ok .nobody)

/-- `semctl` with `GETVAL`. -/
def semGetval (t : SemTable) (id : BitVec 32) (semnum : Nat) (proc : Cred) :
    Except IpcError Nat := do
  let idx ← t.lookup id .EINVAL
  let set := t.sem_sets idx
  if semnum ≥ set.nsems then .error .ERANGE
  else if !checkAccess set.perm proc .read then .error .EACCES
  else
    match set.sems with
    | none => .error .EINVAL
    | some sems => .ok ((sems[semnum]?.map Semaphore.semval).getD 0)

/-- The value after an adjustment: a sum of `u32`, saturating, or a difference down to zero. -/
def adjust (semval : Nat) (adjustment : Int) : Except Trap Nat :=
  if adjustment > 0 then .ok (min (2 ^ 32 - 1) (semval + adjustment.toNat))
  else if adjustment = -2147483648 then .error .integerOverflow
  else .ok (semval - (-adjustment).toNat)

/-- One entry of the adjustments of a process that exits: the slot whose threads are all woken. -/
def undoEntry (t : SemTable) (entry : SemUndo) : Except Trap (SemTable × Option (Fin SEMMNI)) :=
  if entry.adjustment = 0 then .ok (t, none)
  else
    match t.lookup entry.semid .EINVAL with
    | .error _ => .ok (t, none)
    | .ok idx =>
      match (t.sem_sets idx).sems with
      | none => .ok (t, none)
      | some sems =>
        if entry.sem_num ≥ (t.sem_sets idx).nsems then .ok (t, none)
        else do
          let sem ← semAt sems entry.sem_num
          let semval ← adjust sem.semval entry.adjustment
          return (t.setSems idx (sems.set entry.sem_num { sem with semval := semval }),
            some idx)

/-- The entries one after another; the slots whose threads are woken. -/
def applySemUndo (t : SemTable) : List SemUndo → Except Trap (SemTable × List (Fin SEMMNI))
  | [] => .ok (t, [])
  | entry :: entries => do
      let (t, woken) ← undoEntry t entry
      let (t, rest) ← applySemUndo t entries
      return (t, woken.toList ++ rest)

/-! ## 2. Reachable tables -/

inductive SemStep where
  | get (key : BitVec 32) (nsems : Nat) (flags : BitVec 32) (proc : Cred) (alloc : Bool)
  | op (id : BitVec 32) (sops : List SemBuf) (proc : SemProcess)
  | setval (id : BitVec 32) (semnum arg : Nat) (proc : Cred)
  | rmid (id : BitVec 32) (proc : Cred)
  | set (id : BitVec 32) (buf : Option (BitVec 32 × BitVec 32 × BitVec 16)) (proc : Cred)
  | undo (entries : List SemUndo)

/-- The table under any calls; a stop of the kernel leaves it as it is. -/
def semMachine : Machine SemTable SemStep where
  start t := t = {}
  step t
    | .get key nsems flags proc alloc => (semget t key nsems flags proc alloc).1
    | .op id sops proc => (semop t id sops proc).table
    | .setval id semnum arg proc => (semSetval t id semnum arg proc).1
    | .rmid id proc => (semRmid t id proc).1
    | .set id buf proc => (semSet t id buf proc).1
    | .undo entries =>
      match applySemUndo t entries with
      | .ok (t', _) => t'
      | .error _ => t

/-- A set has as many semaphores as it says. -/
def SemTable.Sized (t : SemTable) : Prop :=
  ∀ (i : Fin SEMMNI) (sems : List Semaphore), (t.sem_sets i).sems = some sems →
    sems.length = (t.sem_sets i).nsems

section Sized

variable {t t' : SemTable} {idx : Fin SEMMNI} {sems : List Semaphore} {id : BitVec 32}

/-- A change of one slot that keeps its semaphores in number. -/
theorem SemTable.Sized.change (h : t.Sized) (idx : Fin SEMMNI) {s : SemSet}
    (hs : ∀ sems, s.sems = some sems → sems.length = s.nsems) (seq : BitVec 16) :
    SemTable.Sized ⟨update t.sem_sets idx s, seq⟩ := by
  intro i sems hi
  by_cases e : i = idx
  · subst e
    simp only [update_self] at hi ⊢
    exact hs sems hi
  · simp only [update_of_ne e] at hi ⊢
    exact h i sems hi

theorem SemTable.Sized.setSems (h : t.Sized) (hlen : sems.length = (t.sem_sets idx).nsems) :
    (t.setSems idx sems).Sized :=
  h.change idx (fun _ he => Option.some.inj he ▸ hlen) _

theorem enter_ok {sops : List SemBuf} {proc : Cred} (h : t.enter id sops proc = .ok (idx, sems)) :
    t.lookup id .EIDRM = .ok idx ∧ checkSops (t.sem_sets idx) proc sops = .ok () ∧
      (t.sem_sets idx).sems = some sems := by
  unfold SemTable.enter at h
  rw [bind_ok_iff] at h
  obtain ⟨idx', hl, h⟩ := h
  rw [bind_ok_iff] at h
  obtain ⟨_, hc, h⟩ := h
  split at h
  · cases h
  · next hs =>
      cases h
      exact ⟨hl, hc, hs⟩

/-- The operations that pass the check name semaphores of the set. -/
theorem checkSops_ok {set : SemSet} {proc : Cred} {sops : List SemBuf}
    (h : checkSops set proc sops = .ok ()) : ∀ sop ∈ sops, sop.sem_num < set.nsems := by
  induction sops with
  | nil => exact fun _ hs => nomatch hs
  | cons sop sops ih =>
    unfold checkSops at h
    split at h
    · cases h
    next hn =>
      split at h
      · cases h
      intro s hs
      rcases mem_cons.1 hs with rfl | hs
      · exact Nat.lt_of_not_le hn
      · exact ih h s hs

theorem applyOp_ok {pid : BitVec 32} {sop : SemBuf} {sems' : List Semaphore}
    (h : applyOp pid sems sop = .ok sems') : sems'.length = sems.length := by
  unfold applyOp at h
  rw [bind_ok_iff] at h
  obtain ⟨sem, -, h⟩ := h
  rw [bind_ok_iff] at h
  obtain ⟨v, -, h⟩ := h
  cases h
  exact length_set

theorem applyOps_length {proc proc' : SemProcess} {sops : List SemBuf} {sems' : List Semaphore}
    (h : applyOps id sems proc sops = .ok (sems', proc')) : sems'.length = sems.length := by
  unfold applyOps at h
  rw [bind_ok_iff] at h
  obtain ⟨l, hl, h⟩ := h
  cases h
  induction sops generalizing sems with
  | nil =>
    cases hl
    rfl
  | cons sop sops ih =>
    rw [foldlM_cons, bind_ok_iff] at hl
    obtain ⟨l', h', hl⟩ := hl
    exact (ih hl).trans (applyOp_ok h')

theorem SemTable.Sized.semop (h : t.Sized) (id : BitVec 32) (sops : List SemBuf)
    (proc : SemProcess) : (semop t id sops proc).table.Sized := by
  unfold Ipc.semop
  split
  · exact h
  next idx sems hent =>
    split
    · exact h
    · split <;> exact h
    split
    · exact h
    · next sems' proc' happ =>
        exact h.setSems ((applyOps_length happ).trans (h idx sems (enter_ok hent).2.2))

theorem SemTable.Sized.semget (h : t.Sized) (key : BitVec 32) (nsems : Nat) (flags : BitVec 32)
    (proc : Cred) (alloc : Bool) : (semget t key nsems flags proc alloc).1.Sized := by
  have hcreate : (semCreate t key nsems flags proc alloc).1.Sized := by
    unfold semCreate
    split
    · exact h
    next idx _ =>
      split
      · refine h.change idx (fun sems he => ?_) _
        cases he
        exact length_replicate
      · exact h
  unfold Ipc.semget
  split
  · exact h
  split
  · simp only
    split_ifs <;> exact h
  · split
    · exact h
    · exact hcreate

theorem SemTable.Sized.semSetval (h : t.Sized) (id : BitVec 32) (semnum arg : Nat) (proc : Cred) :
    (semSetval t id semnum arg proc).1.Sized := by
  unfold Ipc.semSetval
  split
  · exact h
  next idx _ =>
    simp only
    split_ifs
    · exact h
    · exact h
    · exact h
    · split
      · exact h
      · next sems hs => exact h.setSems ((List.length_modify _ _ _).trans (h idx sems hs))

theorem SemTable.Sized.semRmid (h : t.Sized) (id : BitVec 32) (proc : Cred) :
    (semRmid t id proc).1.Sized := by
  unfold Ipc.semRmid
  split
  · exact h
  next idx _ =>
    simp only
    split_ifs
    · exact h
    · refine h.change idx (fun sems he => ?_) _
      cases he

theorem SemTable.Sized.semSet (h : t.Sized) (id : BitVec 32)
    (buf : Option (BitVec 32 × BitVec 32 × BitVec 16)) (proc : Cred) :
    (semSet t id buf proc).1.Sized := by
  unfold Ipc.semSet
  split
  · exact h
  next idx _ =>
    simp only
    split_ifs
    · exact h
    split
    · exact h
    · next uid gid mode =>
        let perm := { (t.sem_sets idx).perm with uid := uid, gid := gid, mode := mode &&& 0o777#16 }
        exact h.change idx (s := { t.sem_sets idx with perm := perm }) (h idx) _

theorem SemTable.Sized.undoEntry (h : t.Sized) {entry : SemUndo} {woken : Option (Fin SEMMNI)}
    (he : undoEntry t entry = .ok (t', woken)) : t'.Sized := by
  unfold Ipc.undoEntry at he
  split at he
  · cases he
    exact h
  split at he
  · cases he
    exact h
  next idx _ =>
    split at he
    · cases he
      exact h
    next sems hs =>
      split at he
      · cases he
        exact h
      rw [bind_ok_iff] at he
      obtain ⟨sem, -, he⟩ := he
      rw [bind_ok_iff] at he
      obtain ⟨v, -, he⟩ := he
      cases he
      exact h.setSems (length_set.trans (h idx sems hs))

theorem SemTable.Sized.applySemUndo (h : t.Sized) {entries : List SemUndo}
    {woken : List (Fin SEMMNI)} (he : applySemUndo t entries = .ok (t', woken)) : t'.Sized := by
  induction entries generalizing t woken with
  | nil =>
    cases he
    exact h
  | cons entry entries ih =>
    unfold Ipc.applySemUndo at he
    rw [bind_ok_iff] at he
    obtain ⟨⟨t₁, w⟩, h₁, he⟩ := he
    rw [bind_ok_iff] at he
    obtain ⟨⟨t₂, rest⟩, h₂, he⟩ := he
    cases he
    exact ih (h.undoEntry h₁) h₂

/-- **Every set has as many semaphores as it says**, after any calls. -/
theorem sized_of_reach (h : semMachine.Reachable t) : t.Sized := by
  refine h.invariant ?_ fun t s _ ht _ => ?_
  · rintro t rfl i sems hi
    cases hi
  cases s with
  | get key nsems flags proc alloc => exact ht.semget key nsems flags proc alloc
  | op id sops proc => exact ht.semop id sops proc
  | setval id semnum arg proc => exact ht.semSetval id semnum arg proc
  | rmid id proc => exact ht.semRmid id proc
  | set id buf proc => exact ht.semSet id buf proc
  | undo entries =>
    change SemTable.Sized (match Ipc.applySemUndo t entries with
      | .ok (t', _) => t'
      | .error _ => t)
    split
    · next he => exact ht.applySemUndo he
    · exact ht

end Sized

/-! ## 3. The operations one after another -/

def values (sems : List Semaphore) : List Nat := sems.map Semaphore.semval

/-- An operation at its turn; without a result it has to wait, or would pass `SEMVMX`. -/
def turn (vals : List Nat) (sop : SemBuf) : Option (List Nat) :=
  match vals[sop.sem_num]? with
  | none => none
  | some v =>
    if sop.sem_op < 0 then
      if (-sop.sem_op).toNat ≤ v then some (vals.set sop.sem_num (v - (-sop.sem_op).toNat))
      else none
    else if sop.sem_op = 0 then if v = 0 then some vals else none
    else if v + sop.sem_op.toNat ≤ SEMVMX then
      some (vals.set sop.sem_num (v + sop.sem_op.toNat))
    else none

def sequential (vals : List Nat) (sops : List SemBuf) : Option (List Nat) := sops.foldlM turn vals

/-- The operation can proceed on the value `v`. -/
def SemBuf.Meets (sop : SemBuf) (v : Nat) : Prop :=
  (sop.sem_op < 0 → (-sop.sem_op).toNat ≤ v) ∧ (sop.sem_op = 0 → v = 0)

instance (sop : SemBuf) (v : Nat) : Decidable (sop.Meets v) :=
  inferInstanceAs (Decidable (_ ∧ _))

/-- The value of the semaphore that the operation names. -/
def SemBuf.value (sop : SemBuf) (vals : List Nat) : Nat := vals.getD sop.sem_num 0

/-- `semop` is the sequential execution, all or nothing, and keeps the values in range; operations
    that do not pass the check change nothing. -/
def Atomic (t : SemTable) (id : BitVec 32) (sops : List SemBuf) (proc : SemProcess) : Prop :=
  let r := semop t id sops proc
  match t.enter id sops proc.cred with
  | .error e => r = ⟨t, proc, .error e, .nobody⟩
  | .ok (idx, sems) =>
    match sequential (values sems) sops with
    | some vals => r.attempt = .done () ∧
        (∃ sems', r.table = t.setSems idx sems' ∧ values sems' = vals) ∧ ∀ v ∈ vals, v ≤ SEMVMX
    | none => r.table = t ∧ r.proc = proc ∧ (r.attempt = .blocked ∨ r.attempt = .error .EAGAIN)

/-- The operations for which two passes will do: none of -32768 stands behind operations that meet
    the values, all meet the values just when each can be carried out at its turn, and the values
    after them are in range. -/
structure TwoPass (vals : List Nat) (sops : List SemBuf) : Prop where
  negated : ∀ d sop r, sops = d ++ sop :: r → (∀ s ∈ d, s.Meets (s.value vals)) →
    sop.sem_op ≠ -32768
  turns : (∀ sop ∈ sops, sop.Meets (sop.value vals)) ↔ (sequential vals sops).isSome
  range : ∀ vals', sequential vals sops = some vals' → ∀ v ∈ vals', v ≤ SEMVMX

section Passes

variable {sems : List Semaphore} {sops : List SemBuf} {sop : SemBuf} {vals : List Nat}

theorem values_getD (sop : SemBuf) (h : sop.sem_num < sems.length) :
    ∃ sem, semAt sems sop.sem_num = .ok sem ∧ sem.semval = sop.value (values sems) ∧
      (values sems)[sop.sem_num]? = some sem.semval := by
  refine ⟨sems[sop.sem_num], ?_, ?_, ?_⟩
  · rw [semAt, getElem?_eq_getElem h]
  · simp [SemBuf.value, values, h]
  · simp [values, h]

/-- One operation of the first pass: it stops the kernel, ends the pass, or lets it go on. -/
theorem canProceed_cons (sops : List SemBuf) (h : sop.sem_num < sems.length) :
    (sop.sem_op = -32768 ∧ ∃ t, canProceed sems (sop :: sops) = .error t) ∨
      (sop.sem_op ≠ -32768 ∧ ¬sop.Meets (sop.value (values sems)) ∧
        canProceed sems (sop :: sops) = .ok false) ∨
      (sop.sem_op ≠ -32768 ∧ sop.Meets (sop.value (values sems)) ∧
        canProceed sems (sop :: sops) = canProceed sems sops) := by
  obtain ⟨sem, hat, hv, -⟩ := values_getD sop h
  rw [canProceed, hat, ← hv]
  simp only [ok_bind, SemBuf.Meets]
  by_cases hneg : sop.sem_op < 0
  · rw [if_pos hneg, decrement]
    by_cases hmin : sop.sem_op = -32768
    · left
      rw [if_pos hmin]
      exact ⟨hmin, _, rfl⟩
    right
    rw [if_neg hmin, ok_bind]
    by_cases hlt : sem.semval < (-sop.sem_op).toNat
    · exact .inl ⟨hmin, fun hm => absurd (hm.1 hneg) (Nat.not_le.2 hlt), if_pos hlt⟩
    · exact .inr ⟨hmin, ⟨fun _ => Nat.le_of_not_lt hlt, fun h0 => by omega⟩, if_neg hlt⟩
  have hmin : sop.sem_op ≠ -32768 := by omega
  right
  rw [if_neg hneg]
  by_cases h0 : sop.sem_op = 0
  · rw [if_pos h0]
    by_cases hz : sem.semval = 0
    · exact .inr ⟨hmin, ⟨fun hn => absurd hn hneg, fun _ => hz⟩, if_neg (not_not.2 hz)⟩
    · exact .inl ⟨hmin, fun hm => hz (hm.2 h0), if_pos hz⟩
  · rw [if_neg h0]
    exact .inr ⟨hmin, ⟨fun hn => absurd hn hneg, fun h => absurd h h0⟩, rfl⟩

/-- **What the first pass finds out**: an operation of -32768 behind operations that meet the
    values, or whether all meet them. -/
theorem canProceed_cases (h : ∀ sop ∈ sops, sop.sem_num < sems.length) :
    ((∃ t, canProceed sems sops = .error t) ∧ ∃ d sop r, sops = d ++ sop :: r ∧
        (∀ s ∈ d, s.Meets (s.value (values sems))) ∧ sop.sem_op = -32768) ∨
      (canProceed sems sops = .ok false ∧ ∃ d sop r, sops = d ++ sop :: r ∧
        (∀ s ∈ d, s.sem_op ≠ -32768) ∧ sop.sem_op ≠ -32768 ∧
        ¬sop.Meets (sop.value (values sems))) ∨
      (canProceed sems sops = .ok true ∧
        ∀ s ∈ sops, s.Meets (s.value (values sems)) ∧ s.sem_op ≠ -32768) := by
  induction sops with
  | nil => exact .inr (.inr ⟨rfl, fun s hs => nomatch hs⟩)
  | cons sop sops ih =>
    rcases canProceed_cons sops (h sop mem_cons_self) with
      ⟨hmin, ht⟩ | ⟨hmin, hn, hp⟩ | ⟨hmin, hm, hp⟩
    · exact .inl ⟨ht, [], sop, sops, rfl, fun s hs => (nomatch hs), hmin⟩
    · exact .inr (.inl ⟨hp, [], sop, sops, rfl, fun s hs => (nomatch hs), hmin, hn⟩)
    rw [hp]
    rcases ih fun s hs => h s (mem_cons_of_mem _ hs) with
      ⟨ht, d, s, r, rfl, hd, hs⟩ | ⟨hf, d, s, r, rfl, hd, hs, hn⟩ | ⟨ht, hall⟩
    · exact .inl ⟨ht, sop :: d, s, r, rfl, forall_mem_cons.2 ⟨hm, hd⟩, hs⟩
    · exact .inr (.inl ⟨hf, sop :: d, s, r, rfl, forall_mem_cons.2 ⟨hmin, hd⟩, hs, hn⟩)
    · exact .inr (.inr ⟨ht, forall_mem_cons.2 ⟨⟨hm, hmin⟩, hall⟩⟩)

/-- An operation that can be carried out at its turn is carried out. -/
theorem applyOp_turn (pid : BitVec 32) (h : sop.sem_num < sems.length) (hmin : sop.sem_op ≠ -32768)
    (ht : turn (values sems) sop = some vals) :
    ∃ sems', applyOp pid sems sop = .ok sems' ∧ values sems' = vals := by
  obtain ⟨sem, hat, -, hget⟩ := values_getD sop h
  have hset : ∀ v, values (sems.set sop.sem_num ⟨v, pid⟩) = (values sems).set sop.sem_num v :=
    fun v => map_set
  unfold turn at ht
  rw [hget] at ht
  simp only at ht
  rw [applyOp, hat, ok_bind]
  split_ifs at ht with hneg hle h0 hz hmax
  · cases ht
    refine ⟨_, ?_, hset _⟩
    rw [applyValue, if_pos hneg, decrement, if_neg hmin, ok_bind, Trap.sub, if_pos hle]
    rfl
  · cases ht
    have hval : sem.semval + sop.sem_op.toNat = sem.semval := by simp [h0]
    refine ⟨sems.set sop.sem_num ⟨sem.semval, pid⟩, ?_, ?_⟩
    · rw [applyValue, if_neg hneg, hval, if_pos (by omega)]
      rfl
    rw [hset]
    obtain ⟨hlt, hv⟩ := List.getElem?_eq_some_iff.1 hget
    rw [← hv]
    exact set_getElem_self hlt
  · cases ht
    have hmax' : sem.semval + sop.sem_op.toNat ≤ 32767 := hmax
    refine ⟨_, ?_, hset _⟩
    rw [applyValue, if_neg hneg, if_pos (by omega)]
    rfl

/-- **What can be executed sequentially is what the second pass does.** -/
theorem applyOps_sequential (pid : BitVec 32) (h : ∀ sop ∈ sops, sop.sem_num < sems.length)
    (hmin : ∀ sop ∈ sops, sop.sem_op ≠ -32768) (hs : sequential (values sems) sops = some vals) :
    ∃ sems', sops.foldlM (applyOp pid) sems = .ok sems' ∧ values sems' = vals := by
  induction sops generalizing sems with
  | nil =>
    cases hs
    exact ⟨sems, rfl, rfl⟩
  | cons sop sops ih =>
    rw [sequential, foldlM_cons, bind_eq_bind, bind_eq_some_iff] at hs
    obtain ⟨v, hv, hs⟩ := hs
    obtain ⟨sems₁, hop, rfl⟩ := applyOp_turn pid (h sop mem_cons_self)
      (hmin sop mem_cons_self) hv
    obtain ⟨sems', hops, hvals⟩ := ih
      (fun s hs => (applyOp_ok hop).symm ▸ h s (mem_cons_of_mem _ hs))
      (fun s hs => hmin s (mem_cons_of_mem _ hs)) hs
    refine ⟨sems', ?_, hvals⟩
    rw [foldlM_cons, hop]
    exact hops

end Passes

section Main

variable {t : SemTable} {id : BitVec 32} {sops : List SemBuf} {proc : SemProcess}
  {idx : Fin SEMMNI} {sems : List Semaphore}

/-- An operation of -32768 cannot stand behind operations that meet the values if one that does
    not meet them comes first. -/
theorem negated_of_blocked {vals : List Nat} {d r : List SemBuf} {sop : SemBuf}
    (hd : ∀ s ∈ d, s.sem_op ≠ -32768) (hmin : sop.sem_op ≠ -32768)
    (hn : ¬sop.Meets (sop.value vals)) {d' r' : List SemBuf} {sop' : SemBuf}
    (he : d ++ sop :: r = d' ++ sop' :: r') (hd' : ∀ s ∈ d', s.Meets (s.value vals)) :
    sop'.sem_op ≠ -32768 := by
  rcases append_eq_append_iff.1 he with ⟨as, rfl, has⟩ | ⟨bs, rfl, hbs⟩
  · cases as with
    | nil => exact (List.cons.inj has).1 ▸ hmin
    | cons a as =>
      refine absurd (hd' sop (mem_append_right _ ?_)) hn
      rw [(List.cons.inj has).1]
      exact mem_cons_self
  cases bs with
  | nil => exact (List.cons.inj hbs).1 ▸ hmin
  | cons b bs =>
    refine hd sop' (mem_append_right _ ?_)
    rw [(List.cons.inj hbs).1]
    exact mem_cons_self

theorem semop_enter (h : t.enter id sops proc.cred = .ok (idx, sems)) :
    semop t id sops proc = match canProceed sems sops with
      | .error trap => ⟨t, proc, .trap trap, .nobody⟩
      | .ok false =>
        if sops.any fun sop => sop.sem_flg &&& IPC_NOWAIT ≠ 0 then
          ⟨t, proc, .error .EAGAIN, .nobody⟩
        else ⟨t, proc, .blocked, .nobody⟩
      | .ok true =>
        match applyOps id sems proc sops with
        | .error trap => ⟨t, proc, .trap trap, .nobody⟩
        | .ok (sems', proc') =>
          ⟨t.setSems idx sems', proc', .done (),
            if sops.any fun sop => 0 < sop.sem_op then .everybody else .nobody⟩ := by
  rw [semop, h]

/-- A pass that is not over changes nothing. -/
theorem semop_blocked (h : t.enter id sops proc.cred = .ok (idx, sems))
    (hp : canProceed sems sops = .ok false) :
    (semop t id sops proc).table = t ∧ (semop t id sops proc).proc = proc ∧
      ((semop t id sops proc).attempt = .blocked ∨
        (semop t id sops proc).attempt = .error .EAGAIN) := by
  rw [semop_enter h, hp]
  simp only
  split
  · exact ⟨rfl, rfl, .inr rfl⟩
  · exact ⟨rfl, rfl, .inl rfl⟩

/-- A pass that goes to the end carries the operations out, or stops the kernel. -/
theorem semop_proceeds (h : t.enter id sops proc.cred = .ok (idx, sems))
    (hp : canProceed sems sops = .ok true) :
    (semop t id sops proc).attempt ≠ .blocked ∧
      (semop t id sops proc).attempt ≠ .error .EAGAIN := by
  rw [semop_enter h, hp]
  simp only
  split <;> exact ⟨nofun, nofun⟩

/-- **`semop` is the sequential execution, all or nothing, exactly for operations for which two
    passes will do**, in every table that calls can lead to. -/
theorem semopAtomic (t : SemTable) (id : BitVec 32) (sops : List SemBuf) (proc : SemProcess)
    (h : semMachine.Reachable t) :
    Atomic t id sops proc ↔ ∀ idx sems, t.enter id sops proc.cred = .ok (idx, sems) →
      TwoPass (values sems) sops := by
  cases hent : t.enter id sops proc.cred with
  | error e =>
    refine iff_of_true ?_ fun _ _ h => nomatch h
    simp only [Atomic, hent, semop]
  | ok r =>
    obtain ⟨idx, sems⟩ := r
    have hiff : (∀ idx' sems', (.ok (idx, sems) : Except IpcError _) = .ok (idx', sems') →
        TwoPass (values sems') sops) ↔ TwoPass (values sems) sops :=
      ⟨fun h => h idx sems rfl, fun h _ _ he => by cases he; exact h⟩
    rw [hiff]
    obtain ⟨-, hcheck, hsems⟩ := enter_ok hent
    have hidx : ∀ sop ∈ sops, sop.sem_num < sems.length := fun sop hs => by
      rw [sized_of_reach h idx sems hsems]
      exact checkSops_ok hcheck sop hs
    simp only [Atomic, hent]
    rcases canProceed_cases hidx with
      ⟨⟨trap, htrap⟩, d, sop, r, hsplit, hd, hmin⟩ | ⟨hf, d, sop, r, hsplit, hd, hmin, hn⟩ |
      ⟨ht, hall⟩
    · -- the negation stops the kernel
      have hr : (semop t id sops proc).attempt = .trap trap := by rw [semop_enter hent, htrap]
      refine iff_of_false ?_ fun htwo => htwo.negated d sop r hsplit hd hmin
      split
      · exact fun h => nomatch hr.symm.trans h.1
      · rintro ⟨-, -, h | h⟩
        · exact nomatch hr.symm.trans h
        · exact nomatch hr.symm.trans h
    · obtain ⟨htable, hproc, hattempt⟩ := semop_blocked hent hf
      have hnot : ¬∀ s ∈ sops, s.Meets (s.value (values sems)) := fun hm =>
        hn (hm sop (hsplit ▸ mem_append_right _ mem_cons_self))
      cases hseq : sequential (values sems) sops with
      | none =>
        refine iff_of_true ⟨htable, hproc, hattempt⟩ ⟨?_, ?_, fun _ h => ?_⟩
        · intro d' sop' r' he
          exact negated_of_blocked hd hmin hn (hsplit ▸ he)
        · rw [hseq]
          exact iff_of_false hnot (by simp)
        · rw [hseq] at h
          cases h
      | some vals =>
        refine iff_of_false (fun h => ?_) fun htwo => hnot (htwo.turns.2 (by rw [hseq]; rfl))
        rcases hattempt with ha | ha
        · exact nomatch ha.symm.trans h.1
        · exact nomatch ha.symm.trans h.1
    have hnegated : ∀ d sop r, sops = d ++ sop :: r →
        (∀ s ∈ d, s.Meets (s.value (values sems))) → sop.sem_op ≠ -32768 :=
      fun d sop r he _ =>
        (hall sop (he ▸ mem_append_right _ mem_cons_self)).2
    have hmeets : ∀ s ∈ sops, s.Meets (s.value (values sems)) := fun s hs => (hall s hs).1
    cases hseq : sequential (values sems) sops with
    | none =>
      refine iff_of_false (fun h => ?_) fun htwo => ?_
      · obtain ⟨hb, he⟩ := semop_proceeds hent ht
        exact h.2.2.elim hb he
      · have hsome := htwo.turns.1 hmeets
        rw [hseq] at hsome
        cases hsome
    | some vals =>
      obtain ⟨sems', hops, hvals⟩ := applyOps_sequential proc.cred.pid hidx
        (fun s hs => (hall s hs).2) hseq
      have happ : applyOps id sems proc sops =
          .ok (sems', sops.foldl (recordUndo id) proc) := by
        rw [applyOps, hops]
        rfl
      have hr := semop_enter hent
      rw [ht] at hr
      simp only [happ] at hr
      constructor
      · rintro ⟨-, -, hrange⟩
        refine ⟨hnegated, iff_of_true hmeets (by rw [hseq]; rfl), fun vals' h => ?_⟩
        rw [hseq] at h
        cases h
        exact hrange
      · intro htwo
        rw [hr]
        exact ⟨rfl, ⟨sems', rfl, hvals⟩, htwo.range vals hseq⟩

end Main

/-! ## 4. Arrays for which two passes will do -/

section Simple

variable {vals vals' : List Nat} {sops : List SemBuf} {sop : SemBuf}

/-- The turn of an operation leaves the values of the other semaphores. -/
theorem turn_getElem? (h : turn vals sop = some vals') {i : Nat} (hi : i ≠ sop.sem_num) :
    vals'[i]? = vals[i]? := by
  unfold turn at h
  split at h
  · cases h
  split_ifs at h
  all_goals cases h
  · exact getElem?_set_ne hi.symm
  · rfl
  · exact getElem?_set_ne hi.symm

/-- An operation whose sum stays in range has its turn exactly if it meets the value. -/
theorem turn_isSome (hidx : sop.sem_num < vals.length)
    (hmax : sop.value vals + sop.sem_op.toNat ≤ SEMVMX) :
    (turn vals sop).isSome ↔ sop.Meets (sop.value vals) := by
  have hget : vals[sop.sem_num]? = some (sop.value vals) := by
    simp [SemBuf.value, hidx]
  unfold turn
  rw [hget]
  generalize sop.value vals = v at hmax
  simp only [SemBuf.Meets]
  by_cases hneg : sop.sem_op < 0
  · rw [if_pos hneg]
    by_cases hle : (-sop.sem_op).toNat ≤ v
    · rw [if_pos hle]
      exact iff_of_true rfl ⟨fun _ => hle, fun h0 => by omega⟩
    · rw [if_neg hle]
      exact iff_of_false (by simp) fun h => hle (h.1 hneg)
  rw [if_neg hneg]
  by_cases h0 : sop.sem_op = 0
  · rw [if_pos h0]
    by_cases hv : v = 0
    · rw [if_pos hv]
      exact iff_of_true rfl ⟨fun h => absurd h hneg, fun _ => hv⟩
    · rw [if_neg hv]
      exact iff_of_false (by simp) fun h => hv (h.2 h0)
  · rw [if_neg h0, if_pos hmax]
    exact iff_of_true rfl ⟨fun h => absurd h hneg, fun h => absurd h h0⟩

theorem turn_range (hvals : ∀ v ∈ vals, v ≤ SEMVMX) (h : turn vals sop = some vals') :
    ∀ v ∈ vals', v ≤ SEMVMX := by
  unfold turn at h
  split at h
  · cases h
  next v hv =>
    have hmem := hvals v (mem_of_getElem? hv)
    split_ifs at h with hneg hle h0 hz hmax
    all_goals cases h
    · intro w hw
      rcases mem_or_eq_of_mem_set hw with hw | rfl
      · exact hvals w hw
      · omega
    · exact hvals
    · intro w hw
      rcases mem_or_eq_of_mem_set hw with hw | rfl
      · exact hvals w hw
      · exact hmax

theorem turn_length (h : turn vals sop = some vals') : vals'.length = vals.length := by
  unfold turn at h
  split at h
  · cases h
  split_ifs at h
  all_goals cases h
  · exact length_set
  · rfl
  · exact length_set

/-- **Where no semaphore occurs twice, no operation is -32768 and the sums stay in range, two
    passes will do.** -/
theorem twoPass_of_nodup (hidx : ∀ sop ∈ sops, sop.sem_num < vals.length)
    (hvals : ∀ v ∈ vals, v ≤ SEMVMX) (hmin : ∀ sop ∈ sops, sop.sem_op ≠ -32768)
    (hmax : ∀ sop ∈ sops, sop.value vals + sop.sem_op.toNat ≤ SEMVMX)
    (hnodup : (sops.map SemBuf.sem_num).Nodup) : TwoPass vals sops where
  negated d sop r he _ := hmin sop (he ▸ mem_append_right _ mem_cons_self)
  turns := by
    clear hmin hvals
    induction sops generalizing vals with
    | nil => exact iff_of_true (fun s hs => nomatch hs) rfl
    | cons sop sops ih =>
      rw [map_cons, nodup_cons] at hnodup
      have hturn := turn_isSome (hidx sop mem_cons_self) (hmax sop mem_cons_self)
      rw [sequential, foldlM_cons, forall_mem_cons]
      cases ht : turn vals sop with
      | none =>
        rw [ht] at hturn
        exact iff_of_false (fun h => absurd (hturn.2 h.1) (by simp)) (by simp)
      | some vals₁ =>
        rw [ht] at hturn
        have hsame : ∀ s ∈ sops, s.value vals₁ = s.value vals := fun s hs => by
          have hne : s.sem_num ≠ sop.sem_num := fun e =>
            hnodup.1 (e ▸ mem_map_of_mem hs)
          rw [SemBuf.value, SemBuf.value, getD_eq_getElem?_getD,
            getD_eq_getElem?_getD, turn_getElem? ht hne]
        have hidx₁ : ∀ s ∈ sops, s.sem_num < vals₁.length := fun s hs =>
          (turn_length ht).symm ▸ hidx s (mem_cons_of_mem _ hs)
        have hrest := ih hidx₁
          (fun s hs => (hsame s hs).symm ▸ hmax s (mem_cons_of_mem _ hs)) hnodup.2
        refine (and_iff_right (hturn.1 rfl)).trans (Iff.trans ?_ hrest)
        exact forall₂_congr fun s hs => by rw [hsame s hs]
  range := by
    intro vals' h
    clear hidx hmin hmax hnodup
    induction sops generalizing vals with
    | nil =>
      cases h
      exact hvals
    | cons sop sops ih =>
      rw [sequential, foldlM_cons, bind_eq_bind, bind_eq_some_iff] at h
      obtain ⟨v, hv, h⟩ := h
      exact ih (turn_range hvals hv) h

end Simple

/-! ## 5. Two decrements -/

/-- A private set of one semaphore with the value 1. -/
def oneSem : SemTable :=
  semMachine.exec {} [.get IPC_PRIVATE 1 IPC_CREAT root true, .setval 1 0 1 root]

theorem oneSem_reachable : semMachine.Reachable oneSem := by
  have hstart : semMachine.Reachable {} := .start rfl
  exact hstart.exec _

def take : SemBuf := ⟨0, -1, 0, by decide, by decide⟩

theorem oneSem_enter (sops : List SemBuf) (h : sops = [take] ∨ sops = [take, take]) :
    oneSem.enter 1 sops root = .ok (⟨0, by decide⟩, [⟨1, 0⟩]) := by
  rcases h with rfl | rfl <;> rfl

/-- One decrement is atomic. -/
theorem semopAtomic_take : Atomic oneSem 1 [take] ⟨root, []⟩ := by
  refine (semopAtomic oneSem 1 [take] ⟨root, []⟩ oneSem_reachable).2 fun idx sems h => ?_
  rw [oneSem_enter _ (.inl rfl)] at h
  cases h
  exact twoPass_of_nodup (by decide) (by decide) (by decide) (by decide) (by decide)

/-- **Two decrements of a semaphore with the value 1 do not wait: they stop the kernel.** -/
theorem semopAtomic_refuted :
    ¬∀ (t : SemTable) (id : BitVec 32) (sops : List SemBuf) (proc : SemProcess),
      semMachine.Reachable t → Atomic t id sops proc := by
  intro h
  have hatomic := h oneSem 1 [take, take] ⟨root, []⟩ oneSem_reachable
  have hseq : sequential (values [⟨1, 0⟩]) [take, take] = none := by decide
  have htrap : (semop oneSem 1 [take, take] ⟨root, []⟩).attempt = .trap .integerOverflow := rfl
  exact hatomic.2.2.elim nofun nofun

end Zigk.Ipc
