/-
  Subject:   WHICH DESCRIPTORS ARE OF ONE FILE: the identifier that `open` gives a descriptor
             (vfs.zig), the filesystems it comes from (initrd.zig, devfs.zig), and its two users,
             the lock table (flock.zig) and the page cache (page_cache.zig).

  * `fileIdentifier` -- the mount and the lower half of the address of the private data;
  * `initrdOpen`, `devfsOpen` -- a container from the heap for every open, or what the device has;
  * **`fileIdentity`** -- in the runs of such opens the identifier is that of the file, and locks
    and pages are those of the file.

  Left out: permissions, contents, positions and the inotify hooks.
-/
import Mathlib.Data.Nat.Bitwise
import Zigk.Base.Machine
import Zigk.Fs.Vfs

namespace Zigk.Fs

open List Option

/-! ## 1. The filesystems -/

/-- A file of a filesystem: its directory, or the place of an entry. -/
inductive FsFile where
  | root
  | entry (i : Nat)
  deriving DecidableEq, Repr

/-- The private data of a descriptor: a new container, which `close` frees, or what the file has. -/
inductive PrivateData where
  | allocated
  | shared (addr : Option Nat)
  deriving DecidableEq, Repr

/-- What the `open` of a filesystem makes. -/
structure Opened where
  file : FsFile
  data : PrivateData
  deriving DecidableEq, Repr

def O_ACCMODE : BitVec 32 := 3

/-- A header of the archive. -/
structure TarEntry where
  name : Path
  regular : Bool
  deriving DecidableEq, Repr

def dotSlash : Path := [46, 47]

def dotDot : Path := [46, 46]

def stripSlash (path : Path) : Path := if path.head? = some slash then path.tail else path

/-- Leading `./` sequences go. -/
def stripDotSlashes : Path → Path
  | a :: b :: l => if a = 46 ∧ b = slash then stripDotSlashes l else a :: b :: l
  | l => l

def headerName (e : TarEntry) : Path :=
  if dotSlash.isPrefixOf e.name then e.name.drop 2 else e.name

/-- The header of the file; a path with `..` has none. -/
def findFile (archive : List TarEntry) (path : Path) : Option Nat :=
  let search_name := stripSlash path
  if dotDot <:+: search_name then none
  else
    let search_name := stripDotSlashes search_name
    if search_name = [] then none
    else archive.findIdx? fun e => e.regular && headerName e == search_name

def initrdOpen (archive : List TarEntry) (initrd_dir_tag : Nat) (path : Path) (flags : BitVec 32) :
    Option Opened :=
  if path = [slash] ∨ path = [slash, 46] then
    if flags &&& O_ACCMODE ≠ 0 then none else some ⟨.root, .shared (some initrd_dir_tag)⟩
  else (findFile archive path).map fun i => ⟨.entry i, .allocated⟩

/-- The names and private data of the devices, the builtin ones first. -/
abbrev Devices := List (Path × Option Nat)

def devSlash : Path := [47, 100, 101, 118, 47]

def lookupDeviceEntry (devices : Devices) (path : Path) : Option Nat :=
  let name := if devSlash.isPrefixOf path then path.drop 5 else path
  devices.findIdx? fun d => name == d.1

def devfsOpen (devices : Devices) (devfs_dir_tag : Nat) (path : Path) (flags : BitVec 32) :
    Option Opened :=
  let name := stripSlash path
  if name = [] ∨ name = [46] then
    if flags &&& O_ACCMODE ≠ 0 then none else some ⟨.root, .shared (some devfs_dir_tag)⟩
  else
    match lookupDeviceEntry devices name with
    | none => none
    | some i => (devices[i]?).map fun d => ⟨.entry i, .shared d.2⟩

/-! ## 2. Descriptors -/

def MAX_FDS : Nat := 256

/-- The lower 32 bits of the address. -/
def fileId (private_data : Option Nat) : Nat := private_data.getD 0 % 2 ^ 32

def fileIdentifier (mount_idx : Nat) (private_data : Option Nat) : Nat :=
  mount_idx <<< 32 ||| fileId private_data

structure FileDescriptor where
  /-- What it was opened on. -/
  file : FsFile
  vfs_mount_idx : Nat
  private_data : Option Nat
  /-- `close` frees the private data. -/
  owned : Bool
  refcount : Nat
  file_identifier : Nat
  deriving DecidableEq, Repr

/-- The descriptors, a place for each that there ever was; the tables of the processes with the
    places; and the containers in use. -/
structure Files where
  fds : List (Option FileDescriptor) := []
  tables : List (List (Option Nat))
  heap : List Nat := []
  deriving DecidableEq, Repr

/-- The kernel is built with a heap of this size. -/
def HEAP_SIZE : Nat := 2 * 1024 * 1024

/-- What the heap can give for a container: no address that is in use. -/
def Files.available (s : Files) (heap_start addr : Nat) : Bool :=
  0 < addr && heap_start ≤ addr && addr < heap_start + HEAP_SIZE && !s.heap.contains addr

namespace Files

def fd? (s : Files) (k : Nat) : Option FileDescriptor := (s.fds[k]?).join

/-- The place behind the number `n` of process `p`. -/
def get (s : Files) (p n : Nat) : Option Nat := ((s.tables[p]?).bind fun t => t[n]?).join

def allocFdNum (table : List (Option Nat)) : Option Nat := table.findIdx? Option.isNone

def createFd (idx : Nat) (o : Opened) (addr : Nat) : FileDescriptor :=
  let private_data := match o.data with
    | .allocated => some addr
    | .shared a => a
  { file := o.file
    vfs_mount_idx := idx
    private_data := private_data
    owned := o.data = .allocated
    refcount := 1
    file_identifier := fileIdentifier idx private_data }

/-- The end of the system call `open`: without a free number the descriptor is destroyed, and its
    container is not freed. -/
def install (s : Files) (p : Nat) (fd : FileDescriptor) : Files :=
  let heap := if fd.owned then fd.private_data.toList ++ s.heap else s.heap
  match (s.tables[p]?).bind allocFdNum, s.tables[p]? with
  | some n, some table => {
      fds := s.fds ++ [some fd]
      tables := s.tables.set p (table.set n (some s.fds.length))
      heap := heap }
  | _, _ => { s with heap := heap }

/-- One reference less; the last one closes the file. -/
def unref (s : Files) (k : Nat) : Files :=
  match s.fd? k with
  | none => s
  | some fd =>
    if fd.refcount ≤ 1 then
      { s with
        fds := s.fds.set k none
        heap := if fd.owned then s.heap.diff fd.private_data.toList else s.heap }
    else { s with fds := s.fds.set k (some { fd with refcount := fd.refcount - 1 }) }

def ref (s : Files) (k : Nat) : Files :=
  match s.fd? k with
  | none => s
  | some fd => { s with fds := s.fds.set k (some { fd with refcount := fd.refcount + 1 }) }

def setFd (s : Files) (p n : Nat) (o : Option Nat) : Files :=
  match s.tables[p]? with
  | none => s
  | some table => { s with tables := s.tables.set p (table.set n o) }

def close (s : Files) (p n : Nat) : Files :=
  match s.get p n with
  | none => s
  | some k => (s.setFd p n none).unref k

def dup (s : Files) (p old_fd : Nat) : Files :=
  match s.get p old_fd, (s.tables[p]?).bind allocFdNum with
  | some k, some new_fd => (s.ref k).setFd p new_fd (some k)
  | _, _ => s

def dup2 (s : Files) (p old_fd new_fd : Nat) : Files :=
  if new_fd ≥ MAX_FDS ∨ old_fd = new_fd then s
  else
    match s.get p old_fd with
    | none => s
    | some k => ((s.close p new_fd).ref k).setFd p new_fd (some k)

end Files

inductive FileEvent where
  /-- `addr` is what the heap gives, if the filesystem asks for a container. -/
  | open (p : Nat) (path : Path) (flags : BitVec 32) (addr : Nat)
  | dup (p old_fd : Nat)
  | dup2 (p old_fd new_fd : Nat)
  | close (p fd : Nat)
  deriving DecidableEq, Repr

section Machine

variable (v : Vfs) (opens : Nat → Path → BitVec 32 → Option Opened) (heap_start : Nat)

/-- The mount that `Vfs.open` selects, and what its filesystem makes. -/
def vfsOpen (path : Path) (flags : BitVec 32) : Option (Nat × Opened) :=
  match v.open path flags with
  | .ok (idx, .open rel_path flags) => (opens idx rel_path flags).map fun o => (idx, o)
  | _ => none

def Files.handle (s : Files) : FileEvent → Files
  | .open p path flags addr =>
    match vfsOpen v opens path flags with
    | none => s
    | some (idx, o) =>
      if o.data = .allocated ∧ s.available heap_start addr = false then s
      else s.install p (createFd idx o addr)
  | .dup p old_fd => s.dup p old_fd
  | .dup2 p old_fd new_fd => s.dup2 p old_fd new_fd
  | .close p fd => s.close p fd

/-- Any number of processes, without descriptors at first. -/
def fileMachine : Machine Files FileEvent where
  start s := ∃ n, s = { tables := List.replicate n (List.replicate MAX_FDS none) }
  step s e := s.handle v opens heap_start e

end Machine

/-! ## 3. Locks and pages -/

def NUM_BUCKETS : Nat := 16

def LOCK_SH : Nat := 1

structure FileLock where
  file_key : Nat
  lock_type : Nat
  owner_pid : Nat
  refcount : Nat
  active : Bool
  deriving DecidableEq, Repr

abbrev FlockManager := List (List FileLock)

inductive FlockError where
  | ENOLCK
  /-- The lock is held; without LOCK_NB the caller waits and tries again. -/
  | EAGAIN
  deriving DecidableEq, Repr

def getBucketIndex (file_key : Nat) : Nat := ((file_key >>> 32) ^^^ (file_key % 2 ^ 32)) % NUM_BUCKETS

namespace FlockManager

def bucket (mgr : FlockManager) (file_key : Nat) : List FileLock := mgr.getD (getBucketIndex file_key) []

def holds (file_key : Nat) (l : FileLock) : Bool := l.active && l.file_key = file_key

def findLock (mgr : FlockManager) (file_key : Nat) : Option FileLock :=
  (mgr.bucket file_key).find? (holds file_key)

def canAcquire (existing : Option FileLock) (lock_type owner_pid : Nat) : Bool :=
  match existing with
  | none => true
  | some lock => lock.owner_pid = owner_pid || lock.lock_type = LOCK_SH && lock_type = LOCK_SH

def setSlot (mgr : FlockManager) (file_key i : Nat) (lock : FileLock) : FlockManager :=
  mgr.set (getBucketIndex file_key) ((mgr.bucket file_key).set i lock)

/-- One pass of `acquire` through the lock of the bucket. -/
def acquire (mgr : FlockManager) (file_key lock_type owner_pid : Nat) :
    Except FlockError FlockManager :=
  if canAcquire (mgr.findLock file_key) lock_type owner_pid then
    match (mgr.bucket file_key).findIdx? (holds file_key), mgr.findLock file_key with
    | some i, some lock =>
      if lock.owner_pid = owner_pid then
        .ok (mgr.setSlot file_key i { lock with lock_type := lock_type })
      else .ok (mgr.setSlot file_key i { lock with refcount := lock.refcount + 1 })
    | _, _ =>
      match (mgr.bucket file_key).findIdx? fun l => !l.active with
      | none => .error .ENOLCK
      | some i => .ok (mgr.setSlot file_key i ⟨file_key, lock_type, owner_pid, 1, true⟩)
  else .error .EAGAIN

end FlockManager

def HASH_BUCKETS : Nat := 256

structure CachedPage where
  phys_addr : Nat
  file_id : Nat
  page_offset : Nat
  deriving DecidableEq, Repr

abbrev PageCache := List (List CachedPage)

namespace PageCache

def hash (file_id page_offset : Nat) : Nat :=
  (file_id * 0x9E3779B97F4A7C15 % 2 ^ 64 ^^^ page_offset * 0x517CC1B727220A95 % 2 ^ 64) % HASH_BUCKETS

def bucket (cache : PageCache) (i : Nat) : List CachedPage := cache.getD i []

def lookupLocked (cache : PageCache) (file_id page_offset : Nat) : Option CachedPage :=
  (cache.bucket (hash file_id page_offset)).find? fun p =>
    p.file_id = file_id && p.page_offset = page_offset

def insertLocked (cache : PageCache) (page : CachedPage) : PageCache :=
  let i := hash page.file_id page.page_offset
  cache.set i (page :: cache.bucket i)

end PageCache

section Keys

variable {mgr mgr' : FlockManager} {k k' t pid : Nat}

theorem find?_set {α : Type} (l : List α) (i : Nat) (x : α) (q : α → Bool) (hx : q x = false)
    (hi : ∀ y, l[i]? = some y → q y = false) : (l.set i x).find? q = l.find? q := by
  induction l generalizing i with
  | nil => rfl
  | cons a l ih =>
    cases i with
    | zero => rw [set_cons_zero, find?_cons, find?_cons, hx, hi a rfl]
    | succ i =>
      rw [set_cons_succ, find?_cons, find?_cons, ih i hi]

theorem getD_set_nil {α : Type} (l : List (List α)) (i j : Nat) (x : List α) :
    (l.set i x).getD j [] = if i = j ∧ i < l.length then x else l.getD j [] := by
  rw [getD_eq_getElem?_getD, getD_eq_getElem?_getD, getElem?_set]
  by_cases e : i = j
  · subst e
    by_cases h : i < l.length
    · simp [h]
    · simp [h]
  · simp [e]

/-- A slot that is of another file, before and after, is not seen. -/
theorem findLock_setSlot {i : Nat} {lock : FileLock} (hlock : FlockManager.holds k' lock = false)
    (hi : ∀ y, (mgr.bucket k)[i]? = some y → FlockManager.holds k' y = false) :
    (mgr.setSlot k i lock).findLock k' = mgr.findLock k' := by
  unfold FlockManager.findLock
  have hbucket : (mgr.setSlot k i lock).bucket k' = if getBucketIndex k = getBucketIndex k' ∧
      getBucketIndex k < mgr.length then (mgr.bucket k).set i lock else mgr.bucket k' :=
    getD_set_nil mgr _ _ _
  rw [hbucket]
  split_ifs with h
  · rw [find?_set _ _ _ _ hlock hi, FlockManager.bucket, h.1]
    rfl
  · rfl

/-- **A lock on one file leaves the locks of the others.** -/
theorem acquire_other (h : mgr.acquire k t pid = .ok mgr') (hne : k ≠ k') :
    mgr'.findLock k' = mgr.findLock k' := by
  have hother : ∀ y : FileLock, FlockManager.holds k y = true → FlockManager.holds k' y = false := by
    intro y hy
    simp only [FlockManager.holds, Bool.and_eq_true, decide_eq_true_eq] at hy
    simp [FlockManager.holds, hy.2, hne]
  unfold FlockManager.acquire at h
  split_ifs at h
  cases hidx : (mgr.bucket k).findIdx? (FlockManager.holds k) with
  | some i =>
    obtain ⟨hlt, hhold, -⟩ := findIdx?_eq_some_iff_getElem.mp hidx
    have hslot : ∀ y, (mgr.bucket k)[i]? = some y → FlockManager.holds k' y = false := by
      intro y hy
      rw [getElem?_eq_getElem hlt] at hy
      exact hother y (Option.some.inj hy ▸ hhold)
    cases hfind : mgr.findLock k with
    | none =>
      have hnone := find?_eq_none.mp hfind _ (getElem_mem hlt)
      exact absurd hhold hnone
    | some lock =>
      have hlock : FlockManager.holds k lock = true := find?_some hfind
      have hkey := hother lock hlock
      simp only [hidx, hfind] at h
      split_ifs at h
      · cases h
        exact findLock_setSlot hkey hslot
      · cases h
        exact findLock_setSlot hkey hslot
  | none =>
    simp only [hidx] at h
    cases hfree : (mgr.bucket k).findIdx? fun l => !l.active with
    | none => simp only [hfree] at h; cases h
    | some i =>
      simp only [hfree] at h
      cases h
      obtain ⟨hlt, hinactive, -⟩ := findIdx?_eq_some_iff_getElem.mp hfree
      refine findLock_setSlot (hother _ (by simp [FlockManager.holds])) fun y hy => ?_
      rw [getElem?_eq_getElem hlt] at hy
      rw [← Option.some.inj hy]
      simp only [Bool.not_eq_true'] at hinactive
      simp [FlockManager.holds, hinactive]

/-- **A page of one file is not a page of another.** -/
theorem insertLocked_other {cache : PageCache} {page : CachedPage} (hne : page.file_id ≠ k)
    (off : Nat) : (cache.insertLocked page).lookupLocked k off = cache.lookupLocked k off := by
  have hbucket : (cache.insertLocked page).bucket (PageCache.hash k off) =
      if PageCache.hash page.file_id page.page_offset = PageCache.hash k off ∧
        PageCache.hash page.file_id page.page_offset < cache.length
      then page :: cache.bucket (PageCache.hash page.file_id page.page_offset)
      else cache.bucket (PageCache.hash k off) :=
    getD_set_nil cache _ _ _
  unfold PageCache.lookupLocked
  rw [hbucket]
  split_ifs with h
  · rw [find?_cons, decide_eq_false hne, h.1]
    rfl
  · rfl

end Keys

/-! ## 4. The invariant -/

section Identity

variable {v : Vfs} {opens : Nat → Path → BitVec 32 → Option Opened} {heap_start : Nat}
  {s s' : Files} {k p n : Nat} {d d' : FileDescriptor}

/-- An open with a container is of a file of its mount that has no descriptor; shared private data
    tells the files apart. -/
def Separate (v : Vfs) (opens : Nat → Path → BitVec 32 → Option Opened) (s : Files) :
    FileEvent → Prop
  | .open _ path flags addr => ∀ idx o, vfsOpen v opens path flags = some (idx, o) →
      ∀ k d, s.fd? k = some d → d.vfs_mount_idx = idx →
        match o.data with
        | .allocated =>
          d.file ≠ o.file ∧ (d.owned = false → fileId d.private_data ≠ fileId (some addr))
        | .shared a => d.file = o.file ↔ fileId d.private_data = fileId a
  | _ => True

/-- Both were opened on one file of one mount. -/
def SameFile (d d' : FileDescriptor) : Prop :=
  d.vfs_mount_idx = d'.vfs_mount_idx ∧ d.file = d'.file

structure FilesOk (heap_start : Nat) (s : Files) : Prop where
  heap : s.heap.Nodup
  range : ∀ a ∈ s.heap, heap_start ≤ a ∧ a < heap_start + HEAP_SIZE
  /-- A container in use belongs to at most one descriptor. -/
  owned : ∀ k d, s.fd? k = some d → d.owned = true → ∃ a ∈ s.heap, d.private_data = some a
  apart : ∀ k k' d d', s.fd? k = some d → s.fd? k' = some d' → d.owned = true → d'.owned = true →
    d.private_data = d'.private_data → k = k'
  identifier : ∀ k d, s.fd? k = some d →
    d.file_identifier = fileIdentifier d.vfs_mount_idx d.private_data
  same : ∀ k k' d d', s.fd? k = some d → s.fd? k' = some d' →
    (d.file_identifier = d'.file_identifier ↔ SameFile d d')

/-- Nothing but the count of references differs. -/
structure Recounted (d d' : FileDescriptor) : Prop where
  file : d'.file = d.file
  mount : d'.vfs_mount_idx = d.vfs_mount_idx
  data : d'.private_data = d.private_data
  owned : d'.owned = d.owned
  identifier : d'.file_identifier = d.file_identifier

theorem Recounted.refl (d : FileDescriptor) : Recounted d d := ⟨rfl, rfl, rfl, rfl, rfl⟩

theorem fileIdentifier_eq_iff {i j : Nat} {a b : Option Nat} :
    fileIdentifier i a = fileIdentifier j b ↔ i = j ∧ fileId a = fileId b := by
  have ha : fileId a < 2 ^ 32 := Nat.mod_lt _ (by decide)
  have hb : fileId b < 2 ^ 32 := Nat.mod_lt _ (by decide)
  unfold fileIdentifier
  rw [← Nat.shiftLeft_add_eq_or_of_lt ha, ← Nat.shiftLeft_add_eq_or_of_lt hb, Nat.shiftLeft_eq,
    Nat.shiftLeft_eq]
  constructor
  · intro h
    exact ⟨by omega, by omega⟩
  · rintro ⟨rfl, e⟩
    rw [e]

/-- The heap is smaller than what the lower half of an address tells apart. -/
theorem fileId_inj {a b : Nat} (ha : heap_start ≤ a ∧ a < heap_start + HEAP_SIZE)
    (hb : heap_start ≤ b ∧ b < heap_start + HEAP_SIZE) (h : fileId (some a) = fileId (some b)) :
    a = b := by
  simp only [fileId, getD_some, HEAP_SIZE] at *
  omega

theorem SameFile.symm (h : SameFile d d') : SameFile d' d := ⟨h.1.symm, h.2.symm⟩

/-- Steps that only count references and drop descriptors. -/
theorem FilesOk.recount (h : FilesOk heap_start s)
    (hfds : ∀ k d', s'.fd? k = some d' → ∃ d, s.fd? k = some d ∧ Recounted d d')
    (hheap : s'.heap.Nodup) (hsub : ∀ a ∈ s'.heap, a ∈ s.heap)
    (howned : ∀ k d a, s'.fd? k = some d → d.owned = true → d.private_data = some a →
      a ∈ s.heap → a ∈ s'.heap) : FilesOk heap_start s' := by
  refine ⟨hheap, fun a ha => h.range a (hsub a ha), ?_, ?_, ?_, ?_⟩
  · intro k d' hd' ho
    obtain ⟨d, hd, hr⟩ := hfds k d' hd'
    obtain ⟨a, ha, hdata⟩ := h.owned k d hd (hr.owned ▸ ho)
    have hdata' := hr.data.trans hdata
    exact ⟨a, howned k d' a hd' ho hdata' ha, hdata'⟩
  · intro k k' d' e' hd' he' ho ho' hdata
    obtain ⟨d, hd, hr⟩ := hfds k d' hd'
    obtain ⟨e, he, hr'⟩ := hfds k' e' he'
    rw [hr.data, hr'.data] at hdata
    exact h.apart k k' d e hd he (hr.owned ▸ ho) (hr'.owned ▸ ho') hdata
  · intro k d' hd'
    obtain ⟨d, hd, hr⟩ := hfds k d' hd'
    rw [hr.identifier, hr.mount, hr.data]
    exact h.identifier k d hd
  · intro k k' d' e' hd' he'
    obtain ⟨d, hd, hr⟩ := hfds k d' hd'
    obtain ⟨e, he, hr'⟩ := hfds k' e' he'
    rw [hr.identifier, hr'.identifier, h.same k k' d e hd he]
    unfold SameFile
    rw [hr.mount, hr'.mount, hr.file, hr'.file]

theorem fd?_set {k j : Nat} {o : Option FileDescriptor} (heap : List Nat)
    (h : Files.fd? { s with fds := s.fds.set k o, heap := heap } j = some d) :
    j = k ∧ o = some d ∨ j ≠ k ∧ s.fd? j = some d := by
  unfold Files.fd? at h ⊢
  by_cases e : k = j
  · subst e
    rw [getElem?_set_self'] at h
    cases hk : s.fds[k]? with
    | none => rw [hk] at h; cases h
    | some o' =>
      rw [hk] at h
      exact .inl ⟨rfl, h⟩
  · rw [getElem?_set_ne e] at h
    exact .inr ⟨Ne.symm e, h⟩

section

variable (h : FilesOk heap_start s)
include h

theorem FilesOk.setFd (p n : Nat) (o : Option Nat) :
    FilesOk heap_start (s.setFd p n o) := by
  unfold Files.setFd
  cases s.tables[p]? with
  | none => exact h
  | some table => exact ⟨h.heap, h.range, h.owned, h.apart, h.identifier, h.same⟩

theorem FilesOk.ref (k : Nat) : FilesOk heap_start (s.ref k) := by
  unfold Files.ref
  cases hk : s.fd? k with
  | none => exact h
  | some d =>
    refine h.recount (fun j d' hd' => ?_) h.heap (fun _ ha => ha) fun _ _ _ _ _ _ ha => ha
    rcases fd?_set s.heap hd' with ⟨rfl, e⟩ | ⟨-, hj⟩
    · cases e
      exact ⟨d, hk, rfl, rfl, rfl, rfl, rfl⟩
    · exact ⟨d', hj, .refl d'⟩

/-- **The last reference frees the container**, and no other descriptor has it. -/
theorem FilesOk.unref (k : Nat) : FilesOk heap_start (s.unref k) := by
  unfold Files.unref
  cases hk : s.fd? k with
  | none => exact h
  | some d =>
    simp only
    by_cases hlast : d.refcount ≤ 1
    · rw [if_pos hlast]
      have hold : ∀ j d', Files.fd? { s with fds := s.fds.set k none } j = some d' →
          j ≠ k ∧ s.fd? j = some d' := by
        intro j d' hd'
        rcases fd?_set s.heap hd' with ⟨-, e⟩ | hj
        · cases e
        · exact hj
      have hfds : ∀ j d', Files.fd? { s with fds := s.fds.set k none } j = some d' →
          ∃ d, s.fd? j = some d ∧ Recounted d d' :=
        fun j d' hd' => ⟨d', (hold j d' hd').2, .refl d'⟩
      by_cases ho : d.owned = true
      · rw [if_pos ho]
        obtain ⟨a, ha, hdata⟩ := h.owned k d hk ho
        rw [hdata]
        simp only [toList_some, diff_cons, diff_nil]
        refine h.recount hfds (h.heap.erase a) (fun b hb => mem_of_mem_erase hb) ?_
        intro j d' b hd' ho' hdata' hb
        obtain ⟨hne, hj⟩ := hold j d' hd'
        refine (h.heap.mem_erase_iff).mpr ⟨?_, hb⟩
        rintro rfl
        exact hne (h.apart j k d' d hj hk ho' ho (hdata'.trans hdata.symm))
      · rw [if_neg ho]
        exact h.recount hfds h.heap (fun _ hb => hb) fun _ _ _ _ _ _ hb => hb
    · rw [if_neg hlast]
      refine h.recount (fun j d' hd' => ?_) h.heap (fun _ ha => ha) fun _ _ _ _ _ _ ha => ha
      rcases fd?_set s.heap hd' with ⟨rfl, e⟩ | ⟨-, hj⟩
      · cases e
        exact ⟨d, hk, rfl, rfl, rfl, rfl, rfl⟩
      · exact ⟨d', hj, .refl d'⟩

theorem FilesOk.close (p n : Nat) : FilesOk heap_start (s.close p n) := by
  unfold Files.close
  cases s.get p n with
  | none => exact h
  | some k => exact (h.setFd p n none).unref k

theorem FilesOk.dup (p old_fd : Nat) :
    FilesOk heap_start (s.dup p old_fd) := by
  unfold Files.dup
  split
  · exact (h.ref _).setFd p _ _
  · exact h

theorem FilesOk.dup2 (p old_fd new_fd : Nat) :
    FilesOk heap_start (s.dup2 p old_fd new_fd) := by
  unfold Files.dup2
  split_ifs
  · exact h
  · cases s.get p old_fd with
    | none => exact h
    | some k => exact ((h.close p new_fd).ref k).setFd p new_fd _

end

theorem available_spec {addr : Nat} (h : s.available heap_start addr = true) :
    (heap_start ≤ addr ∧ addr < heap_start + HEAP_SIZE) ∧ addr ∉ s.heap := by
  simp only [Files.available, Bool.and_eq_true, decide_eq_true_eq, Bool.not_eq_true',
    contains_eq_mem, decide_eq_false_iff_not] at h
  exact ⟨⟨h.1.1.2, h.1.2⟩, h.2⟩

section Install

variable {idx addr : Nat} {o : Opened}

/-- What the condition says of the descriptor that an open makes. -/
theorem createFd_same (h : FilesOk heap_start s)
    (hnew : o.data = .allocated → s.available heap_start addr = true)
    (hsep : ∀ k d, s.fd? k = some d → d.vfs_mount_idx = idx →
      match o.data with
      | .allocated =>
        d.file ≠ o.file ∧ (d.owned = false → fileId d.private_data ≠ fileId (some addr))
      | .shared a => d.file = o.file ↔ fileId d.private_data = fileId a)
    (hd : s.fd? k = some d) :
    d.file_identifier = (Files.createFd idx o addr).file_identifier ↔
      SameFile d (Files.createFd idx o addr) := by
  rw [h.identifier k d hd, Files.createFd, fileIdentifier_eq_iff, SameFile]
  refine and_congr_right fun hidx => ?_
  have hs := hsep k d hd hidx
  cases hdata : o.data with
  | shared a =>
    simp only [hdata] at hs ⊢
    exact hs.symm
  | allocated =>
    simp only [hdata] at hs ⊢
    refine iff_of_false (fun e => ?_) hs.1
    cases ho : d.owned with
    | false => exact hs.2 ho e
    | true =>
      obtain ⟨a, ha, hpd⟩ := h.owned k d hd ho
      obtain ⟨hrange, hfresh⟩ := available_spec (hnew hdata)
      rw [hpd] at e
      exact hfresh (fileId_inj (h.range a ha) hrange e ▸ ha)

theorem fd?_append {fd : FileDescriptor} {tables : List (List (Option Nat))} {heap : List Nat}
    (h : Files.fd? { s with fds := s.fds ++ [some fd], tables := tables, heap := heap } k = some d) :
    s.fd? k = some d ∨ k = s.fds.length ∧ d = fd := by
  unfold Files.fd? at h ⊢
  rcases Nat.lt_trichotomy k s.fds.length with hlt | rfl | hgt
  · rw [getElem?_append_left hlt] at h
    exact .inl h
  · rw [getElem?_append_right (le_refl _), Nat.sub_self] at h
    cases h
    exact .inr ⟨rfl, rfl⟩
  · rw [getElem?_eq_none (by rw [length_append, length_singleton]; omega)] at h
    cases h

/-- **An open that keeps the files apart.** -/
theorem FilesOk.install (h : FilesOk heap_start s) (p : Nat)
    (hnew : o.data = .allocated → s.available heap_start addr = true)
    (hsep : ∀ k d, s.fd? k = some d → d.vfs_mount_idx = idx →
      match o.data with
      | .allocated =>
        d.file ≠ o.file ∧ (d.owned = false → fileId d.private_data ≠ fileId (some addr))
      | .shared a => d.file = o.file ↔ fileId d.private_data = fileId a) :
    FilesOk heap_start (s.install p (Files.createFd idx o addr)) := by
  have hsame := fun {k d} => createFd_same (k := k) (d := d) h hnew hsep
  generalize hfd : Files.createFd idx o addr = fd at hsame
  have hid : fd.file_identifier = fileIdentifier fd.vfs_mount_idx fd.private_data := by
    rw [← hfd]
    rfl
  -- the container of the new descriptor, if it has one, is nobody else's
  have hown : fd.owned = true → fd.private_data = some addr ∧
      (heap_start ≤ addr ∧ addr < heap_start + HEAP_SIZE) ∧ addr ∉ s.heap := by
    intro ho
    rw [← hfd] at ho ⊢
    have hdata : o.data = .allocated := of_decide_eq_true ho
    simp only [Files.createFd, hdata, true_and]
    exact available_spec (hnew hdata)
  obtain ⟨hnodup, hrange, hsub, hin⟩ :
      (if fd.owned then fd.private_data.toList ++ s.heap else s.heap).Nodup ∧
      (∀ a ∈ if fd.owned then fd.private_data.toList ++ s.heap else s.heap,
        heap_start ≤ a ∧ a < heap_start + HEAP_SIZE) ∧
      (∀ a ∈ s.heap, a ∈ if fd.owned then fd.private_data.toList ++ s.heap else s.heap) ∧
      (fd.owned = true → addr ∈ if fd.owned then fd.private_data.toList ++ s.heap else s.heap) := by
    cases ho : fd.owned with
    | false => exact ⟨h.heap, h.range, fun a ha => ha, fun e => nomatch e⟩
    | true =>
      obtain ⟨hpd, hr, hfresh⟩ := hown ho
      rw [if_pos rfl, hpd]
      refine ⟨nodup_cons.mpr ⟨hfresh, h.heap⟩, fun a ha => ?_, fun a ha => .tail _ ha,
        fun _ => .head _⟩
      rcases mem_cons.mp ha with rfl | ha
      · exact hr
      · exact h.range a ha
  unfold Files.install
  generalize (if fd.owned then fd.private_data.toList ++ s.heap else s.heap) = heap at *
  -- an old descriptor has another container
  have hother : ∀ k d, s.fd? k = some d → d.owned = true → fd.owned = true →
      d.private_data ≠ fd.private_data := by
    intro k d hd ho ho' e
    obtain ⟨hpd, -, hfresh⟩ := hown ho'
    obtain ⟨a, ha, hpd'⟩ := h.owned k d hd ho
    rw [hpd', hpd] at e
    exact hfresh (Option.some.inj e ▸ ha)
  split
  · refine ⟨hnodup, hrange, ?_, ?_, ?_, ?_⟩
    · intro k d hd ho
      rcases fd?_append hd with hd | ⟨-, rfl⟩
      · obtain ⟨a, ha, hpd⟩ := h.owned k d hd ho
        exact ⟨a, hsub a ha, hpd⟩
      · exact ⟨addr, hin ho, (hown ho).1⟩
    · intro k k' d d' hd hd' ho ho' hpd
      rcases fd?_append hd with h1 | ⟨rfl, rfl⟩
      · rcases fd?_append hd' with h2 | ⟨-, rfl⟩
        · exact h.apart k k' d d' h1 h2 ho ho' hpd
        · exact absurd hpd (hother k d h1 ho ho')
      · rcases fd?_append hd' with h2 | ⟨rfl, -⟩
        · exact absurd hpd.symm (hother k' d' h2 ho' ho)
        · rfl
    · intro k d hd
      rcases fd?_append hd with hd | ⟨-, rfl⟩
      · exact h.identifier k d hd
      · exact hid
    · intro k k' d d' hd hd'
      rcases fd?_append hd with h1 | ⟨rfl, rfl⟩
      · rcases fd?_append hd' with h2 | ⟨-, rfl⟩
        · exact h.same k k' d d' h1 h2
        · exact hsame h1
      · rcases fd?_append hd' with h2 | ⟨rfl, rfl⟩
        · exact (eq_comm.trans (hsame h2)).trans ⟨SameFile.symm, SameFile.symm⟩
        · exact iff_of_true rfl ⟨rfl, rfl⟩
  · exact ⟨hnodup, hrange, fun k d hd ho => (h.owned k d hd ho).imp fun a ha => ⟨hsub a ha.1, ha.2⟩,
      h.apart, h.identifier, h.same⟩

end Install

/-- **Every step that keeps the files apart.** -/
theorem FilesOk.handle (h : FilesOk heap_start s) (e : FileEvent) (hc : Separate v opens s e) :
    FilesOk heap_start (s.handle v opens heap_start e) := by
  cases e with
  | dup p old_fd => exact h.dup p old_fd
  | dup2 p old_fd new_fd => exact h.dup2 p old_fd new_fd
  | close p fd => exact h.close p fd
  | «open» p path flags addr =>
    simp only [Files.handle]
    cases ho : vfsOpen v opens path flags with
    | none => exact h
    | some r =>
      obtain ⟨idx, o⟩ := r
      simp only
      split_ifs with hoom
      · exact h
      · refine h.install p (fun hdata => ?_) (hc idx o ho)
        by_contra hav
        exact hoom ⟨hdata, Bool.not_eq_true _ |>.mp hav⟩

theorem files_run (h : (fileMachine v opens heap_start).Reach (Separate v opens) s) :
    FilesOk heap_start s := by
  refine Machine.Reach.invariant (fun s hs => ?_) (fun s e _ hs hc => hs.handle e hc) h
  obtain ⟨n, rfl⟩ := hs
  have hnone : ∀ k d, Files.fd? { tables := List.replicate n (List.replicate MAX_FDS none) } k ≠
      some d := by
    intro k d hk
    cases hk
  exact ⟨nodup_nil, fun a ha => (nomatch ha), fun k d hd => absurd hd (hnone k d),
    fun k _ d _ hd => absurd hd (hnone k d), fun k d hd => absurd hd (hnone k d),
    fun k _ d _ hd => absurd hd (hnone k d)⟩

/-! ## 5. The identity of files -/

/-- The number `n` of process `p` is a descriptor. -/
def Files.Live (s : Files) (p n : Nat) (d : FileDescriptor) : Prop :=
  ∃ k, s.get p n = some k ∧ s.fd? k = some d

/-- **The identifier is that of the file**: the locks and pages of one file are shared by all its
    descriptors, and no lock and no page of one file is seen through a descriptor of another. -/
theorem fileIdentity (h : (fileMachine v opens heap_start).Reach (Separate v opens) s)
    {q m : Nat} (hd : s.Live p n d) (hd' : s.Live q m d') :
    (d.file_identifier = d'.file_identifier ↔ SameFile d d') ∧
    (SameFile d d' →
      (∀ (mgr : FlockManager) t pid,
        mgr.acquire d.file_identifier t pid = mgr.acquire d'.file_identifier t pid) ∧
      ∀ (cache : PageCache) off,
        cache.lookupLocked d.file_identifier off = cache.lookupLocked d'.file_identifier off) ∧
    (¬ SameFile d d' →
      (∀ (mgr mgr' : FlockManager) t pid, mgr.acquire d.file_identifier t pid = .ok mgr' →
        mgr'.findLock d'.file_identifier = mgr.findLock d'.file_identifier) ∧
      ∀ (cache : PageCache) (page : CachedPage) off, page.file_id = d.file_identifier →
        (cache.insertLocked page).lookupLocked d'.file_identifier off =
          cache.lookupLocked d'.file_identifier off) := by
  obtain ⟨k, -, hk⟩ := hd
  obtain ⟨k', -, hk'⟩ := hd'
  have hsame := (files_run h).same k k' d d' hk hk'
  refine ⟨hsame, fun he => ?_, fun hne => ?_⟩
  · rw [hsame.mpr he]
    exact ⟨fun _ _ _ => rfl, fun _ _ => rfl⟩
  · have hid : d.file_identifier ≠ d'.file_identifier := fun e => hne (hsame.mp e)
    exact ⟨fun mgr mgr' t pid hacq => acquire_other hacq hid,
      fun cache page off hpage => insertLocked_other (by rw [hpage]; exact hid) off⟩

end Identity

/-! ## 6. Runs on a small archive -/

/-- An archive with one file. -/
def smallArchive : List TarEntry := [⟨[97], true⟩]

def smallDevices : Devices := [([110], none), ([122], none)]

/-- The archive at `/` and the devices at `/d`. -/
def smallVfs : Vfs :=
  match Vfs.init.mount [slash] ⟨fun _ => true⟩ with
  | .ok v =>
    match v.mount [slash, 100] ⟨fun _ => true⟩ with
    | .ok v => v
    | .error _ => v
  | .error _ => Vfs.init

def smallOpens (idx : Nat) (path : Path) (flags : BitVec 32) : Option Opened :=
  if idx = 0 then initrdOpen smallArchive 0x1000 path flags
  else devfsOpen smallDevices 0x1001 path flags

def smallRun (l : List FileEvent) : Files :=
  (fileMachine smallVfs smallOpens 0x100000).exec
    { tables := List.replicate 2 (List.replicate MAX_FDS none) } l

theorem smallRun_reachable (l : List FileEvent) :
    (fileMachine smallVfs smallOpens 0x100000).Reachable (smallRun l) := by
  have hs : (fileMachine smallVfs smallOpens 0x100000).start
      { tables := List.replicate 2 (List.replicate MAX_FDS none) } := ⟨2, rfl⟩
  exact Machine.Reachable.exec (.start hs) l

/-- Two processes open the file, and one of them the two devices. -/
def openTwice : List FileEvent :=
  [.open 0 [47, 97] 0 0x100010, .open 1 [47, 97] 0 0x100020, .open 0 [47, 100, 47, 110] 0 1,
    .open 0 [47, 100, 47, 122] 0 1]

theorem live_of_bind {s : Files} {p n : Nat} {d : FileDescriptor}
    (h : (s.get p n).bind s.fd? = some d) : s.Live p n d := bind_eq_some_iff.mp h

def noLocks : FlockManager := List.replicate NUM_BUCKETS (List.replicate 16 ⟨0, 0, 0, 0, false⟩)

/-- **Two opens of one file do not exclude each other's locks, and two devices share one**: each
    open of the archive has a container of its own, the devices have none. -/
theorem fileIdentity_refuted : ∃ v opens heap_start s,
    (fileMachine v opens heap_start).Reachable s ∧
    (∃ d d', s.Live 0 0 d ∧ s.Live 1 0 d' ∧ SameFile d d' ∧
      d.file_identifier ≠ d'.file_identifier ∧
      ∃ mgr mgr' : FlockManager, noLocks.acquire d.file_identifier 2 7 = .ok mgr ∧
        mgr.acquire d'.file_identifier 2 8 = .ok mgr') ∧
    ∃ d d', s.Live 0 1 d ∧ s.Live 0 2 d' ∧ ¬ SameFile d d' ∧
      d.file_identifier = d'.file_identifier := by
  have h1 : ((smallRun openTwice).get 0 0).bind (smallRun openTwice).fd? =
      some ⟨.entry 0, 0, some 0x100010, true, 1, 0x100010⟩ := by decide +kernel
  have h2 : ((smallRun openTwice).get 1 0).bind (smallRun openTwice).fd? =
      some ⟨.entry 0, 0, some 0x100020, true, 1, 0x100020⟩ := by decide +kernel
  have h3 : ((smallRun openTwice).get 0 1).bind (smallRun openTwice).fd? =
      some ⟨.entry 0, 1, none, false, 1, 0x100000000⟩ := by decide +kernel
  have h4 : ((smallRun openTwice).get 0 2).bind (smallRun openTwice).fd? =
      some ⟨.entry 1, 1, none, false, 1, 0x100000000⟩ := by decide +kernel
  refine ⟨smallVfs, smallOpens, 0x100000, _, smallRun_reachable openTwice,
    ⟨_, _, live_of_bind h1, live_of_bind h2, ⟨rfl, rfl⟩, by decide, _, _, rfl, rfl⟩,
    _, _, live_of_bind h3, live_of_bind h4, fun h => (nomatch h.2), rfl⟩

/-- A number and its duplicate. -/
theorem fileIdentity_dup : ∃ (s : Files) (d d' : FileDescriptor), s.Live 0 0 d ∧ s.Live 0 1 d' ∧
    SameFile d d' ∧ d.file_identifier = d'.file_identifier := by
  have h1 : ((smallRun [.open 0 [47, 97] 0 0x100010, .dup 0 0]).get 0 0).bind
      (smallRun [.open 0 [47, 97] 0 0x100010, .dup 0 0]).fd? =
      some ⟨.entry 0, 0, some 0x100010, true, 2, 0x100010⟩ := by decide +kernel
  have h2 : ((smallRun [.open 0 [47, 97] 0 0x100010, .dup 0 0]).get 0 1).bind
      (smallRun [.open 0 [47, 97] 0 0x100010, .dup 0 0]).fd? =
      some ⟨.entry 0, 0, some 0x100010, true, 2, 0x100010⟩ := by decide +kernel
  have hs : (fileMachine smallVfs smallOpens 0x100000).start
      { tables := List.replicate 2 (List.replicate MAX_FDS none) } := ⟨2, rfl⟩
  have halong : (fileMachine smallVfs smallOpens 0x100000).Along (Separate smallVfs smallOpens)
      { tables := List.replicate 2 (List.replicate MAX_FDS none) }
      [.open 0 [47, 97] 0 0x100010, .dup 0 0] :=
    ⟨fun _ _ _ _ _ hd => (nomatch hd), trivial, trivial⟩
  have hreach := Machine.Reach.exec (.start hs) halong
  have hid := fileIdentity hreach (live_of_bind h1) (live_of_bind h2)
  exact ⟨_, _, _, live_of_bind h1, live_of_bind h2, ⟨rfl, rfl⟩, hid.1.mpr ⟨rfl, rfl⟩⟩

end Zigk.Fs
