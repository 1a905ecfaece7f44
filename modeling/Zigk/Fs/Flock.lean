/-
  Subject:   ADVISORY FILE LOCKS (kernel/fs/flock.zig, sys_flock, the last `unref` of a descriptor).

  * `FlockManager` -- the lock table; `tryAcquire`, `release`, `releaseOnClose` -- what is done
    under the lock of a bucket;
  * `flockStep` -- threads that open, share, lock, unlock and close descriptors, one section under a
    bucket lock at a time. `held` is a history variable: which process holds which lock;
  * `lockOf` -- the entry of a file; `tryAcquire_spec`, `release_lockOf`, `releaseOnClose_lockOf` --
    the operations as updates of a map from files to entries.

  A slot that is not active is `none`. A blocked thread may look again at any time: the wait queues
  only say when it does. The reference count of a descriptor is the number of its references, each
  with the process that has it.
-/
import Zigk.Base.Machine
import Zigk.Base.Slots

namespace Zigk.Flock

open Function Option

/-! ## 1. The lock table -/

def MAX_LOCKS : Nat := 256

def NUM_BUCKETS : Nat := 16

def LOCKS_PER_BUCKET : Nat := MAX_LOCKS / NUM_BUCKETS

/-- `LOCK_SH` or `LOCK_EX`. -/
inductive LockType where
  | shared
  | exclusive
  deriving DecidableEq

abbrev FileKey := BitVec 64

abbrev Pid := BitVec 32

structure FileLock where
  file_key : FileKey
  lock_type : LockType
  owner_pid : Pid
  refcount : Nat
  deriving DecidableEq

open FileLock

namespace FileLock

variable (lock : FileLock)

/-- The entry after an unlock by `pid`: a holder that is not the owner only takes back its
    reference. -/
def released (pid : Pid) : Option FileLock :=
  if lock.owner_pid ≠ pid ∧ 1 < lock.refcount then
    some { lock with refcount := lock.refcount - 1 }
  else none

/-- The entry after a close. -/
def dropped : Option FileLock :=
  if 1 < lock.refcount then some { lock with refcount := lock.refcount - 1 } else none

end FileLock

structure FlockManager where
  buckets : Fin NUM_BUCKETS → Slots LOCKS_PER_BUCKET FileLock

/-- What an attempt comes to: the lock, `ENOLCK`, or a conflict. -/
inductive Attempt where
  | granted
  | full
  | conflict
  deriving DecidableEq

namespace FlockManager

def init : FlockManager := ⟨fun _ _ => none⟩

def getBucketIndex (file_key : FileKey) : Fin NUM_BUCKETS :=
  let upper := (file_key >>> 32).setWidth 32
  let lower := file_key.setWidth 32
  let hash := (upper ^^^ lower).toNat
  ⟨hash % NUM_BUCKETS, Nat.mod_lt _ (by decide)⟩

variable (m : FlockManager)

def findLock (b : Fin NUM_BUCKETS) (file_key : FileKey) : Option (Fin LOCKS_PER_BUCKET) :=
  (m.buckets b).find FileLock.file_key file_key

def findFreeSlot (b : Fin NUM_BUCKETS) : Option (Fin LOCKS_PER_BUCKET) := (m.buckets b).findFree

/-- The entry of a file. -/
def lockOf (file_key : FileKey) : Option FileLock :=
  (m.buckets (getBucketIndex file_key)).look FileLock.file_key file_key

def setSlot (b : Fin NUM_BUCKETS) (i : Fin LOCKS_PER_BUCKET) (o : Option FileLock) : FlockManager :=
  ⟨update m.buckets b (update (m.buckets b) i o)⟩

def canAcquire (existing : Option FileLock) (lock_type : LockType) (owner_pid : Pid) : Bool :=
  match existing with
  | none => true
  | some lock => decide (lock.owner_pid = owner_pid) ||
      decide (lock.lock_type = .shared) && decide (lock_type = .shared)

/-- One pass of the loop of `acquire`. -/
def tryAcquire (file_key : FileKey) (lock_type : LockType) (owner_pid : Pid) :
    FlockManager × Attempt :=
  let b := getBucketIndex file_key
  let existing := m.findLock b file_key
  if canAcquire (existing.bind (m.buckets b)) lock_type owner_pid then
    match existing with
    | some i =>
      let grant (lock : FileLock) : FileLock :=
        if lock.owner_pid = owner_pid then { lock with lock_type }
        else { lock with refcount := lock.refcount + 1 }
      (m.setSlot b i ((m.buckets b i).map grant), .granted)
    | none =>
      match m.findFreeSlot b with
      | some i =>
        (m.setSlot b i (some { file_key, lock_type, owner_pid, refcount := 1 }), .granted)
      | none => (m, .full)
  else (m, .conflict)

/-- The entry of a file goes through `f`. -/
def edit (file_key : FileKey) (f : FileLock → Option FileLock) : FlockManager :=
  let b := getBucketIndex file_key
  match m.findLock b file_key with
  | none => m
  | some i => m.setSlot b i ((m.buckets b i).bind f)

def release (file_key : FileKey) (owner_pid : Pid) : FlockManager :=
  m.edit file_key (·.released owner_pid)

def releaseOnClose (file_key : FileKey) : FlockManager := m.edit file_key dropped

end FlockManager

/-! ## 2. Threads and descriptors -/

inductive Errno where
  | EBADF
  | EINVAL

/-- A call of `sys_flock`, or the end of a `close`, that has yet to take the lock of its bucket. -/
inductive Call where
  | acquiring (file_key : FileKey) (lock_type : LockType) (nonblock : Bool)
  | releasing (file_key : FileKey)
  | closing (file_key : FileKey)

def LOCK_SH : BitVec 32 := 1

def LOCK_EX : BitVec 32 := 2

def LOCK_NB : BitVec 32 := 4

def LOCK_UN : BitVec 32 := 8

def LOCK_MASK : BitVec 32 := LOCK_SH ||| LOCK_EX ||| LOCK_UN

/-- `refs`: the process of each reference. -/
structure FileDescriptor where
  file_identifier : FileKey
  refs : List Pid

/-- `sys_flock` by a process, up to the table. -/
def sys_flock (fd : FileDescriptor) (pid : Pid) (operation : BitVec 64) : Except Errno Call :=
  if pid ∉ fd.refs then .error .EBADF
  else if fd.file_identifier = 0 then .error .EINVAL
  else
    let op := operation.setWidth 32
    let nonblock := decide (op &&& LOCK_NB ≠ 0)
    let lock_type := op &&& LOCK_MASK
    if lock_type = LOCK_SH then .ok (.acquiring fd.file_identifier .shared nonblock)
    else if lock_type = LOCK_EX then .ok (.acquiring fd.file_identifier .exclusive nonblock)
    else if lock_type = LOCK_UN then .ok (.releasing fd.file_identifier)
    else .error .EINVAL

/-- Threads in `T`. `held`: the lock that each process holds on each file. -/
structure Flocks (T : Type) where
  mgr : FlockManager
  fds : List FileDescriptor
  calls : T → Option Call
  held : FileKey → Pid → Option LockType

inductive Event (T : Type) where
  | opens (t : T) (file_identifier : FileKey)
  /-- A reference for another table or slot: `dup`, `fork`, a passed descriptor. -/
  | ref (d : Nat) (pid : Pid)
  | flock (t : T) (d : Nat) (operation : BitVec 64)
  | close (t : T) (d : Nat)
  /-- The section under the bucket lock. -/
  | run (t : T)

namespace Flocks

variable {T : Type} (w : Flocks T)

def hasDescriptor (file_key : FileKey) (pid : Pid) : Prop :=
  ∃ fd ∈ w.fds, fd.file_identifier = file_key ∧ pid ∈ fd.refs

instance (file_key : FileKey) (pid : Pid) : Decidable (w.hasDescriptor file_key pid) :=
  inferInstanceAs (Decidable (∃ fd ∈ w.fds, _ ∧ _))

def setHeld (file_key : FileKey) (pid : Pid) (o : Option LockType) : Flocks T :=
  { w with held := update w.held file_key (update (w.held file_key) pid o) }

/-- A process without a descriptor of the file has given up its lock. -/
def forget (file_key : FileKey) (pid : Pid) : Flocks T :=
  if w.hasDescriptor file_key pid then w else w.setHeld file_key pid none

/-- A reference to the descriptor `fd` at `d` is given back. -/
def dropRef (d : Nat) (fd : FileDescriptor) (pid : Pid) : Flocks T :=
  { w with fds := w.fds.set d { fd with refs := fd.refs.erase pid } }

variable [DecidableEq T]

def setCall (t : T) (c : Option Call) : Flocks T := { w with calls := update w.calls t c }

/-- `unref`, with the last reference up to `releaseOnClose`. -/
def close (t : T) (pid : Pid) (d : Nat) : Flocks T :=
  match w.fds[d]? with
  | none => w
  | some fd =>
    let w' := w.dropRef d fd pid
    if pid ∈ fd.refs then
      if fd.refs.erase pid = [] then
        if fd.file_identifier = 0 then w'
        else w'.setCall t (some (.closing fd.file_identifier))
      else w'.forget fd.file_identifier pid
    else w

def run (t : T) (pid : Pid) : Flocks T :=
  match w.calls t with
  | none => w
  | some (.acquiring file_key lock_type nonblock) =>
    match w.mgr.tryAcquire file_key lock_type pid with
    | (mgr, .granted) =>
      ({ w with mgr }.setCall t none).setHeld file_key pid (some lock_type)
    | (mgr, .full) => { w with mgr }.setCall t none
    | (mgr, .conflict) => if nonblock then { w with mgr }.setCall t none else { w with mgr }
  | some (.releasing file_key) =>
    ({ w with mgr := w.mgr.release file_key pid }.setCall t none).setHeld file_key pid none
  | some (.closing file_key) =>
    ({ w with mgr := w.mgr.releaseOnClose file_key }.setCall t none).forget file_key pid

end Flocks

variable {T : Type} [DecidableEq T] (pid : T → Pid)

/-- A thread in a call begins no other. -/
def flockStep (w : Flocks T) : Event T → Flocks T
  | .opens t file_identifier =>
    if (w.calls t).isSome then w
    else { w with fds := w.fds ++ [{ file_identifier, refs := [pid t] }] }
  | .ref d p =>
    match w.fds[d]? with
    | some fd =>
      if fd.refs = [] then w
      else { w with fds := w.fds.set d { fd with refs := p :: fd.refs } }
    | none => w
  | .flock t d operation =>
    if (w.calls t).isSome then w
    else
      match w.fds[d]? with
      | none => w
      | some fd =>
        match sys_flock fd (pid t) operation with
        | .ok c => w.setCall t (some c)
        | .error _ => w
  | .close t d => if (w.calls t).isSome then w else w.close t (pid t) d
  | .run t => w.run t (pid t)

def Flocks.init : Flocks T where
  mgr := .init
  fds := []
  calls _ := none
  held _ _ := none

def flocks : Machine (Flocks T) (Event T) where
  start w := w = Flocks.init
  step := flockStep pid

/-! ## 3. The table as a map -/

namespace FlockManager

variable {m : FlockManager} {k k' : FileKey} {b : Fin NUM_BUCKETS} {i : Fin LOCKS_PER_BUCKET}
  {o : Option FileLock} {l : FileLock} {ty : LockType} {p : Pid}

/-- No file has two entries. -/
def OneEach (m : FlockManager) : Prop := ∀ b, Slots.OneEach file_key (m.buckets b)

theorem findLock_bind (m : FlockManager) (k : FileKey) :
    (m.findLock (getBucketIndex k) k).bind (m.buckets (getBucketIndex k)) = m.lockOf k := rfl

section SetSlot

theorem OneEach.setSlot (h : m.OneEach)
    (hb : Slots.OneEach file_key (update (m.buckets b) i o)) :
    (m.setSlot b i o).OneEach := by
  intro c
  unfold FlockManager.setSlot
  dsimp only
  by_cases hc : c = b
  · subst hc
    rw [update_self]
    exact hb
  · rw [update_of_ne hc]
    exact h c

/-- The entries of its bucket decide. -/
theorem lockOf_setSlot (hb : ∀ k', Slots.look FileLock.file_key (update
      (m.buckets (getBucketIndex k)) i o) k' =
      if k' = k then o else (m.buckets (getBucketIndex k)).look FileLock.file_key k')
    (k' : FileKey) : (m.setSlot (getBucketIndex k) i o).lockOf k' =
      if k' = k then o else m.lockOf k' := by
  unfold lockOf setSlot
  dsimp only
  by_cases hc : getBucketIndex k' = getBucketIndex k
  · rw [hc, update_self, hb]
  · rw [update_of_ne hc, if_neg]
    rintro rfl
    exact hc rfl

end SetSlot

/-- The entry that a granted attempt leaves. -/
inductive Grants (k : FileKey) (ty : LockType) (p : Pid) : Option FileLock → FileLock → Prop where
  | fresh : Grants k ty p none ⟨k, ty, p, 1⟩
  | own (l : FileLock) (h : l.owner_pid = p) : Grants k ty p (some l) { l with lock_type := ty }
  | joined (l : FileLock) (h : l.owner_pid ≠ p) (hl : l.lock_type = .shared) (hty : ty = .shared) :
      Grants k ty p (some l) { l with refcount := l.refcount + 1 }

/-- **An attempt leaves the table alone, or changes the entry of the file and no other.** -/
theorem tryAcquire_cases (h : m.OneEach) (k : FileKey) (ty : LockType) (p : Pid) :
    (m.tryAcquire k ty p).1 = m ∧ (m.tryAcquire k ty p).2 ≠ .granted ∨
      (m.tryAcquire k ty p).2 = .granted ∧ (m.tryAcquire k ty p).1.OneEach ∧
        ∃ l', Grants k ty p (m.lockOf k) l' ∧
          ∀ k', (m.tryAcquire k ty p).1.lockOf k' = if k' = k then some l' else m.lockOf k' := by
  unfold tryAcquire
  dsimp only
  rw [findLock_bind]
  split
  · rename_i hcan
    split
    · rename_i i hi
      obtain ⟨l, hl, hk⟩ := Slots.find_some hi
      have hlock : m.lockOf k = some l := by
        rw [← findLock_bind, hi, bind_some, hl]
      rw [hlock] at hcan ⊢
      rw [hl, map_some]
      generalize hl' : (if l.owner_pid = p then { l with lock_type := ty }
        else { l with refcount := l.refcount + 1 }) = l'
      have hkey : l'.file_key = k := by
        rw [← hl', ← hk]
        split <;> rfl
      have ho : ∀ a ∈ some l', a.file_key = k := by
        rintro a ⟨⟩
        exact hkey
      refine .inr ⟨rfl, h.setSlot ((h _).set hi ho), l', ?_,
        lockOf_setSlot fun k' => Slots.look_set (h _) hi ho⟩
      split at hl'
      · rename_i hp
        rw [← hl']
        exact .own l hp
      rename_i hp
      unfold canAcquire at hcan
      dsimp only at hcan
      rw [decide_eq_false hp, Bool.false_or, Bool.and_eq_true, decide_eq_true_eq,
        decide_eq_true_eq] at hcan
      rw [← hl']
      exact .joined l hp hcan.1 hcan.2
    · rename_i hnone
      have hlock : m.lockOf k = none := Slots.look_eq_none.2 hnone
      split
      · rename_i i hi
        have hfree := Slots.findFree_some hi
        have hkey : Slots.find FileLock.file_key (m.buckets (getBucketIndex k))
          (FileLock.file_key ⟨k, ty, p, 1⟩) = none := hnone
        refine .inr ⟨rfl, h.setSlot ((h _).add hkey), _, ?_,
          lockOf_setSlot fun k' => Slots.look_add (h _) hkey hfree⟩
        rw [hlock]
        exact .fresh
      · exact .inl ⟨rfl, nofun⟩
  · exact .inl ⟨rfl, nofun⟩

theorem edit_spec (h : m.OneEach) (k : FileKey) {f : FileLock → Option FileLock}
    (hf : ∀ l, ∀ l' ∈ f l, l'.file_key = l.file_key) :
    (m.edit k f).OneEach ∧
      ∀ k', (m.edit k f).lockOf k' = if k' = k then (m.lockOf k).bind f else m.lockOf k' := by
  unfold edit
  dsimp only
  split
  · rename_i hnone
    refine ⟨h, fun k' => ?_⟩
    split_ifs with hk
    · rw [hk, lockOf, Slots.look_eq_none.2 hnone]
      rfl
    · rfl
  rename_i i hi
  obtain ⟨l, hl, hk⟩ := Slots.find_some hi
  have hlock : m.lockOf k = some l := by
    rw [← findLock_bind, hi, bind_some, hl]
  rw [hl, hlock, bind_some]
  have ho : ∀ a ∈ f l, a.file_key = k := fun a ha => (hf l a ha).trans hk
  exact ⟨h.setSlot ((h _).set hi ho), lockOf_setSlot fun k' => Slots.look_set (h _) hi ho⟩

theorem release_spec (h : m.OneEach) (k : FileKey) (p : Pid) :
    (m.release k p).OneEach ∧ ∀ k', (m.release k p).lockOf k' =
      if k' = k then (m.lockOf k).bind (·.released p) else m.lockOf k' := by
  refine edit_spec h k fun l l' hl => ?_
  unfold released at hl
  split at hl <;> cases hl
  rfl

theorem releaseOnClose_spec (h : m.OneEach) (k : FileKey) :
    (m.releaseOnClose k).OneEach ∧ ∀ k', (m.releaseOnClose k).lockOf k' =
      if k' = k then (m.lockOf k).bind dropped else m.lockOf k' := by
  refine edit_spec h k fun l l' hl => ?_
  unfold dropped at hl
  split at hl <;> cases hl
  rfl

end FlockManager

end Zigk.Flock
