/-
  Subject:   FD TABLES (kernel/fs/fd.zig): the tables, the descriptors in them, and the calls of the
             threads that share them.

  * `FdTables` -- the slots and the counts of all tables, the descriptors with their reference
    counts, the calls in progress, and the history of the descriptors;
  * `put`, `clear`, `ref`, `unref`, `destroy` -- what the sections of the calls are made of;
  * `fdStep` -- the calls of all threads, from one section under a lock to the next; `unref` and the
    close op are steps of their own.

  An address may be used again as soon as its descriptor is freed. Left out: the contents of the
  descriptors, the writeback of the page cache, the hooks of inotify and of the VFS, and the table
  itself, which a process frees at its end.
-/
import Mathlib.Algebra.Ring.Nat
import Zigk.Base.Holders
import Zigk.Base.Machine

namespace Zigk.Fd

open Function

def MAX_FDS : Nat := 256

abbrev FdSlot := Fin MAX_FDS

/-- What a call does behind a close: nothing, the second half of `dup2`, or the next slot of
    `closeAll`. -/
inductive FdRest (B D : Type) where
  | done
  | dup2 (b : B) (old_fd : Nat) (new_fd : FdSlot) (fd : D)
  | closeAll (b : B) (i : FdSlot)

/-- Where a call stands. -/
inductive FdCall (B D : Type) where
  /-- With a descriptor that is not installed yet. -/
  | made (fd : D)
  /-- With a descriptor out of its slot, before `unref`, and before the close op. -/
  | unref (fd : D) (rest : FdRest B D)
  | destroy (fd : D) (rest : FdRest B D)
  /-- `dup2`, before it takes the lock again. -/
  | dup2 (b : B) (old_fd : Nat) (new_fd : FdSlot) (fd : D)
  /-- `closeAll`, before its look at a slot, and before it closes what it saw there. -/
  | closeAll (b : B) (i : Nat)
  | closeSeen (b : B) (i : FdSlot)

def FdRest.call {B D : Type} : FdRest B D → Option (FdCall B D)
  | .done => none
  | .dup2 b old_fd new_fd fd => some (.dup2 b old_fd new_fd fd)
  | .closeAll b i => some (.closeAll b (i + 1))

structure FdTables (T B D : Type) where
  /-- `fds` and `count` of all tables, and which of them exist. -/
  fds : B × FdSlot → Option D := fun _ => none
  count : B → Nat := fun _ => 0
  used : B → Bool
  live : D → Bool := fun _ => false
  refcount : D → Nat := fun _ => 0
  calls : T → Option (FdCall B D) := fun _ => none
  /-- History: how often a descriptor was made at an address, how often it was closed, or freed
      without having been installed, and what stood in a slot that was written over. -/
  created : D → Nat := fun _ => 0
  closed : D → Nat := fun _ => 0
  abandoned : D → Nat := fun _ => 0
  overwritten : List D := []

namespace FdTables

variable {T B D : Type} (s : FdTables T B D) (b : B)

/-- The lowest free slot. -/
def allocFdNumLocked : Option FdSlot := (List.finRange MAX_FDS).find? fun i => (s.fds (b, i)).isNone

def getLocked (fd_num : Nat) : Option D :=
  if h : fd_num < MAX_FDS then s.fds (b, ⟨fd_num, h⟩) else none

def idle (t : T) : Bool := (s.calls t).isNone

/-- What a thread does with the descriptor that it made. -/
def withMade (t : T) (f : D → FdTables T B D) : FdTables T B D :=
  match s.calls t with
  | some (.made fd) => f fd
  | _ => s

section Write

variable [DecidableEq T] [DecidableEq B] [DecidableEq D]

/-- A slot is written, whatever stands in it. -/
def put (i : FdSlot) (fd : D) : FdTables T B D :=
  { s with
    fds := update s.fds (b, i) (some fd)
    count := update s.count b (s.count b + 1)
    overwritten := (s.fds (b, i)).toList ++ s.overwritten }

def clear (i : FdSlot) : FdTables T B D :=
  { s with
    fds := update s.fds (b, i) none
    count := update s.count b (s.count b - 1) }

def setCall (t : T) (c : Option (FdCall B D)) : FdTables T B D :=
  { s with calls := update s.calls t c }

def setCount (fd : D) (n : Nat) : FdTables T B D :=
  { s with refcount := update s.refcount fd n }

/-- `ref`: the counter is a `u32` and wraps. -/
def ref (fd : D) : FdTables T B D := s.setCount fd ((s.refcount fd + 1) % 2 ^ 32)

def free (fd : D) : FdTables T B D := { s with live := update s.live fd false }

/-- `createFd`: the heap gives an address that is free. -/
def create (t : T) (fd : D) : FdTables T B D :=
  { (s.setCount fd 1).setCall t (some (.made fd)) with
    live := update s.live fd true
    created := update s.created fd (s.created fd + 1) }

/-- A caller that cannot install its descriptor frees it. -/
def abandon (t : T) (fd : D) : FdTables T B D :=
  { ((s.setCount fd 0).setCall t none).free fd with
    abandoned := update s.abandoned fd (s.abandoned fd + 1) }

/-- `unref`: of the last reference, and of one that does not exist, the counter stays at zero. -/
def unref (t : T) (fd : D) (rest : FdRest B D) : FdTables T B D :=
  if s.refcount fd ≤ 1 then (s.setCount fd 0).setCall t (some (.destroy fd rest))
  else (s.setCount fd (s.refcount fd - 1)).setCall t rest.call

/-- The close op, and the descriptor is freed. -/
def destroy (t : T) (fd : D) (rest : FdRest B D) : FdTables T B D :=
  { (s.setCall t rest.call).free fd with
    closed := update s.closed fd (s.closed fd + 1) }

/-! ## Sections under the lock of a table -/

def installLocked (fd_num : Nat) (fd : D) : FdTables T B D :=
  if h : fd_num < MAX_FDS then s.put b ⟨fd_num, h⟩ fd else s

/-- `remove`, as the first part of a close. -/
def remove (t : T) (fd_num : Nat) (rest : FdRest B D) : FdTables T B D :=
  if h : fd_num < MAX_FDS then
    match s.fds (b, ⟨fd_num, h⟩) with
    | some fd => (s.clear b ⟨fd_num, h⟩).setCall t (some (.unref fd rest))
    | none => s.setCall t rest.call
  else s.setCall t rest.call

def allocAndInstall (t : T) (fd : D) : FdTables T B D :=
  match s.allocFdNumLocked b with
  | some i => (s.put b i fd).setCall t none
  | none => s

/-- A slot that refers to a descriptor as well. -/
def share (i : FdSlot) (fd : D) : FdTables T B D := (s.ref fd).put b i fd

def dup (old_fd : Nat) : FdTables T B D :=
  match s.getLocked b old_fd with
  | none => s
  | some fd =>
    match s.allocFdNumLocked b with
    | none => s
    | some i => s.share b i fd

/-- `dup2`, up to where it gives the lock back. -/
def dup2 (t : T) (old_fd new_fd : Nat) : FdTables T B D :=
  if h : new_fd < MAX_FDS then
    if old_fd = new_fd then s
    else
      match s.getLocked b old_fd with
      | none => s
      | some fd =>
        match s.fds (b, ⟨new_fd, h⟩) with
        | some existing =>
          (s.clear b ⟨new_fd, h⟩).setCall t (some (.unref existing (.dup2 b old_fd ⟨new_fd, h⟩ fd)))
        | none => s.share b ⟨new_fd, h⟩ fd
  else s

/-- The rest of it: the slot `old_fd` is looked at again, the slot `new_fd` is not. -/
def dup2Again (t : T) (old_fd : Nat) (new_fd : FdSlot) (fd : D) : FdTables T B D :=
  (if s.getLocked b old_fd = some fd then s.share b new_fd fd else s).setCall t none

/-- One slot of `clone`. -/
def cloneSlot (b' : B) (i : FdSlot) : FdTables T B D :=
  match s.fds (b, i) with
  | some fd => s.share b' i fd
  | none => s

/-- `FdTable.init` of the new table. -/
def initTable (b' : B) : FdTables T B D :=
  { s with
    fds := fun p => if p.1 = b' then none else s.fds p
    count := update s.count b' 0
    used := update s.used b' true }

def clone (b' : B) : FdTables T B D :=
  (List.finRange MAX_FDS).foldl (fun s i => s.cloneSlot b b' i) (s.initTable b')

/-- The next step of a call. -/
def next (t : T) : FdCall B D → FdTables T B D
  | .made _ => s
  | .unref fd rest => s.unref t fd rest
  | .destroy fd rest => s.destroy t fd rest
  | .dup2 b old_fd new_fd fd => s.dup2Again b t old_fd new_fd fd
  | .closeAll b i =>
    if h : i < MAX_FDS then
      s.setCall t (some (if (s.fds (b, ⟨i, h⟩)).isSome then .closeSeen b ⟨i, h⟩
        else .closeAll b (i + 1)))
    else s.setCall t none
  | .closeSeen b i => s.remove b t i (.closeAll b i)

end Write

end FdTables

/-! ## Runs -/

inductive FdInput (T B D : Type) where
  | create (t : T) (fd : D)
  | abandon (t : T)
  | install (t : T) (b : B) (fd_num : Nat)
  | allocAndInstall (t : T) (b : B)
  | dup (b : B) (old_fd : Nat)
  | dup2 (t : T) (b : B) (old_fd new_fd : Nat)
  | close (t : T) (b : B) (fd_num : Nat)
  | clone (b b' : B)
  | closeAll (t : T) (b : B)
  | next (t : T)

section Machine

variable {T B D : Type} [DecidableEq T] [DecidableEq B] [DecidableEq D]

def fdStep (s : FdTables T B D) : FdInput T B D → FdTables T B D
  | .create t fd => if s.idle t ∧ s.live fd = false then s.create t fd else s
  | .abandon t => s.withMade t (s.abandon t)
  | .install t b fd_num =>
    if s.used b then s.withMade t fun fd => (s.installLocked b fd_num fd).setCall t none else s
  | .allocAndInstall t b => if s.used b then s.withMade t (s.allocAndInstall b t) else s
  | .dup b old_fd => if s.used b then s.dup b old_fd else s
  | .dup2 t b old_fd new_fd => if s.used b ∧ s.idle t then s.dup2 b t old_fd new_fd else s
  | .close t b fd_num => if s.used b ∧ s.idle t then s.remove b t fd_num .done else s
  | .clone b b' => if s.used b ∧ s.used b' = false then s.clone b b' else s
  | .closeAll t b => if s.used b ∧ s.idle t then s.setCall t (some (.closeAll b 0)) else s
  | .next t =>
    match s.calls t with
    | some c => s.next t c
    | none => s

/-- Some tables exist, and are empty. -/
def fdMachine (T B D : Type) [DecidableEq T] [DecidableEq B] [DecidableEq D] :
    Machine (FdTables T B D) (FdInput T B D) where
  start s := ∃ used, s = { used := used }
  step := fdStep

end Machine

end Zigk.Fd
