/-
  Subject:   `dup2` ONTO AN OPEN DESCRIPTOR, AND `close` (kernel/fs/fd.zig).

  * `FdTable` -- a table, the descriptors at their addresses, the page cache, the world;
  * `close`, `dup2` -- both with their own copy of the sequence behind the last `unref`;
  * `dup2_eq_close` -- **when the two do the same**: if the replaced descriptor has another
    reference, or no file, or the page cache nothing to flush of it.

  One thread runs. Left out: `position` and `lock`, that `writeback` saves and takes, and
  `private_data`, which the ops carry.
-/
import Zigk.Fs.Flush

namespace Zigk.Dup

open Function
open Zigk.Pages

def MAX_FDS : Nat := 256

def O_WRONLY : UInt32 := 1

def O_RDWR : UInt32 := 2

def O_ACCMODE : UInt32 := 3

def IN_CLOSE_WRITE : UInt32 := 8

def IN_CLOSE_NOWRITE : UInt32 := 16

def EBADF : Int := -9

/-- `D` is what a page can contain, and `W` the world: files, locks, mounts, and who watches. -/
structure FileDescriptor (D W : Type) where
  /-- `ops.write`, of a page at a byte offset, and `ops.close`. -/
  write : Option (UInt64 → D → W → W)
  closeOp : Option (W → W)
  flags : UInt32
  refcount : Nat
  vfs_mount_idx : Option UInt8
  file_identifier : UInt64
  /-- As far as `vfs_path_len`. -/
  vfs_path : List UInt8

def FileDescriptor.isWritable {D W : Type} (d : FileDescriptor D W) : Bool :=
  d.flags &&& O_ACCMODE = O_WRONLY || d.flags &&& O_ACCMODE = O_RDWR

/-- `flock.releaseOnClose`, and the hooks that are set. -/
structure Hooks (W : Type) where
  releaseOnClose : UInt64 → W → W
  inotify_close_hook : Option (List UInt8 → UInt32 → W → W)
  vfs_close_hook : Option (UInt8 → W → W)

structure FdTable (F T P D W : Type) where
  fds : Fin MAX_FDS → Option F
  count : Nat
  /-- The descriptors by address. -/
  fd : F → Option (FileDescriptor D W)
  cache : PageCache T P D
  world : W

namespace FdTable

variable {F T P D W : Type} [DecidableEq F] [DecidableEq P] (h : Hooks W) (s : FdTable F T P D W)

/-! ## 1. The parts -/

def getLocked (fd_num : Nat) : Option F :=
  if h : fd_num < MAX_FDS then s.fds ⟨fd_num, h⟩ else none

def clear (i : Fin MAX_FDS) : FdTable F T P D W :=
  { s with fds := update s.fds i none, count := s.count - 1 }

def put (i : Fin MAX_FDS) (f : F) : FdTable F T P D W :=
  { s with fds := update s.fds i (some f), count := s.count + 1 }

def act (g : W → W) : FdTable F T P D W := { s with world := g s.world }

def modify (f : F) (g : FileDescriptor D W → FileDescriptor D W) : FdTable F T P D W :=
  { s with fd := update s.fd f ((s.fd f).map g) }

def setCount (f : F) (n : Nat) : FdTable F T P D W := s.modify f fun d => { d with refcount := n }

def ref (f : F) : FdTable F T P D W := s.modify f fun d => { d with refcount := d.refcount + 1 }

/-- The last reference releases the lock of the file; a count of zero stays, and counts as last. -/
def unref (f : F) (d : FileDescriptor D W) : FdTable F T P D W × Bool :=
  if d.refcount = 0 then (s, true)
  else if d.refcount = 1 then
    ((if d.file_identifier ≠ 0 then (s.setCount f 0).act (h.releaseOnClose d.file_identifier)
      else s.setCount f 0), true)
  else (s.setCount f (d.refcount - 1), false)

/-- `page_cache.writeback`, if the file can be written, and `page_cache.invalidate`. -/
def flush (d : FileDescriptor D W) : FdTable F T P D W :=
  let r := s.cache.flush (if d.isWritable then d.write else none) d.file_identifier s.world
  { s with cache := r.1, world := r.2 }

def destroy (f : F) : FdTable F T P D W := { s with fd := update s.fd f none }

/-- `install`, also over a descriptor. -/
def install (fd_num : Nat) (f : F) : FdTable F T P D W :=
  if h : fd_num < MAX_FDS then s.put ⟨fd_num, h⟩ f else s

/-- The close op. -/
def closeFn (d : FileDescriptor D W) : FdTable F T P D W :=
  match d.closeOp with
  | some close_fn => s.act close_fn
  | none => s

def notifyClosed (d : FileDescriptor D W) : FdTable F T P D W :=
  if d.vfs_path.length > 0 then
    match h.inotify_close_hook with
    | some hook =>
      s.act (hook d.vfs_path (if d.isWritable then IN_CLOSE_WRITE else IN_CLOSE_NOWRITE))
    | none => s
  else s

/-- The mount has one open file less. -/
def leaveMount (d : FileDescriptor D W) : FdTable F T P D W :=
  match d.vfs_mount_idx with
  | some idx =>
    match h.vfs_close_hook with
    | some hook => s.act (hook idx)
    | none => s
  | none => s

/-! ## 2. `close` and `dup2` -/

def close (fd_num : Nat) : FdTable F T P D W × Int :=
  if hn : fd_num < MAX_FDS then
    match s.fds ⟨fd_num, hn⟩ with
    | none => (s, EBADF)
    | some f =>
      match s.fd f with
      | none => (s.clear ⟨fd_num, hn⟩, 0)
      | some d =>
        match (s.clear ⟨fd_num, hn⟩).unref h f d with
        | (s, true) =>
          let s := if d.file_identifier ≠ 0 then s.flush d else s
          let s := s.closeFn d
          let s := s.notifyClosed h d
          let s := s.leaveMount h d
          (s.destroy f, 0)
        | (s, false) => (s, 0)
  else (s, EBADF)

def dup2 (old_fd new_fd : Nat) : FdTable F T P D W × Option Nat :=
  if hn : new_fd < MAX_FDS then
    if old_fd = new_fd then (s, if (s.getLocked old_fd).isSome then some new_fd else none)
    else
      match s.getLocked old_fd with
      | none => (s, none)
      | some f =>
        match s.fds ⟨new_fd, hn⟩ with
        | none => ((s.ref f).put ⟨new_fd, hn⟩ f, some new_fd)
        | some e =>
          -- the lock of the table is given back for what follows
          let s := match s.fd e with
            | none => s.clear ⟨new_fd, hn⟩
            | some d =>
              match (s.clear ⟨new_fd, hn⟩).unref h e d with
              | (s, true) =>
                let s := s.closeFn d
                let s := s.notifyClosed h d
                let s := s.leaveMount h d
                s.destroy e
              | (s, false) => s
          if s.getLocked old_fd = some f then ((s.ref f).put ⟨new_fd, hn⟩ f, some new_fd)
          else (s, none)
  else (s, none)

/-! ## 3. Their difference -/

/-- Only descriptors and the world are different. -/
structure SameTable (s X : FdTable F T P D W) : Prop where
  fds : X.fds = s.fds
  cache : X.cache = s.cache

variable {h : Hooks W} {s X Y : FdTable F T P D W} {f e : F} {d : FileDescriptor D W}

namespace SameTable

omit [DecidableEq F] [DecidableEq P]

theorem refl : s.SameTable s := ⟨rfl, rfl⟩

theorem trans (hX : s.SameTable X) (hY : X.SameTable Y) : s.SameTable Y :=
  ⟨hY.fds.trans hX.fds, hY.cache.trans hX.cache⟩

theorem closeFn : s.SameTable (s.closeFn d) := by
  unfold FdTable.closeFn
  split
  · exact ⟨rfl, rfl⟩
  · exact refl

theorem notifyClosed : s.SameTable (s.notifyClosed h d) := by
  unfold FdTable.notifyClosed
  split
  · split
    · exact ⟨rfl, rfl⟩
    · exact refl
  · exact refl

theorem leaveMount : s.SameTable (s.leaveMount h d) := by
  unfold FdTable.leaveMount
  split
  · split
    · exact ⟨rfl, rfl⟩
    · exact refl
  · exact refl

end SameTable

/-- What both do behind the last `unref`, and `close` behind its flush. -/
def shut (h : Hooks W) (f : F) (d : FileDescriptor D W) (s : FdTable F T P D W) :
    FdTable F T P D W := (((s.closeFn d).notifyClosed h d).leaveMount h d).destroy f

omit [DecidableEq P] in
theorem shut_same (s : FdTable F T P D W) : s.SameTable (shut h f d s) :=
  (SameTable.closeFn.trans (SameTable.notifyClosed.trans SameTable.leaveMount)).trans ⟨rfl, rfl⟩

omit [DecidableEq P] in
/-- Which reference is the last one, and what becomes of it. -/
theorem unref_spec (h : Hooks W) (s : FdTable F T P D W) (f : F) (d : FileDescriptor D W) :
    s.SameTable (s.unref h f d).1 ∧ ((s.unref h f d).2 = true ↔ d.refcount ≤ 1) := by
  unfold unref
  by_cases hz : d.refcount = 0
  · rw [if_pos hz]
    exact ⟨.refl, by simp [hz]⟩
  rw [if_neg hz]
  by_cases ho : d.refcount = 1
  · rw [if_pos ho]
    refine ⟨?_, by simp [ho]⟩
    split
    · exact ⟨rfl, rfl⟩
    · exact ⟨rfl, rfl⟩
  · rw [if_neg ho]
    refine ⟨⟨rfl, rfl⟩, ?_⟩
    simp only [Bool.false_eq_true, false_iff]
    omega

variable {old_fd new_fd : Nat}

/-- `close`, once its slot is read. -/
theorem close_eq (h : Hooks W) (hn : new_fd < MAX_FDS) (hnew : s.fds ⟨new_fd, hn⟩ = some e)
    (hd : s.fd e = some d) : (s.close h new_fd).1 =
      match (s.clear ⟨new_fd, hn⟩).unref h e d with
        | (s, true) => shut h e d (if d.file_identifier ≠ 0 then s.flush d else s)
        | (s, false) => s := by
  unfold close
  rw [dif_pos hn, hnew]
  dsimp only
  rw [hd]
  dsimp only
  cases (s.clear ⟨new_fd, hn⟩).unref h e d with
  | mk Y last =>
    cases last with
    | true => rfl
    | false => rfl

omit [DecidableEq F] [DecidableEq P] in
/-- The other slots are as they were when `dup2` has its lock again. -/
theorem getLocked_clear (hn : new_fd < MAX_FDS) (hne : old_fd ≠ new_fd)
    (hX : (s.clear ⟨new_fd, hn⟩).SameTable X) : X.getLocked old_fd = s.getLocked old_fd := by
  unfold getLocked
  by_cases ho : old_fd < MAX_FDS
  · rw [dif_pos ho, dif_pos ho, hX.fds]
    exact update_of_ne (fun he => hne (Fin.mk.inj he)) ..
  · rw [dif_neg ho, dif_neg ho]

omit [DecidableEq P] in
theorem dup2_eq (h : Hooks W) (hn : new_fd < MAX_FDS) (hne : old_fd ≠ new_fd)
    (hold : s.getLocked old_fd = some f) (hnew : s.fds ⟨new_fd, hn⟩ = some e)
    (hd : s.fd e = some d) : s.dup2 h old_fd new_fd =
      (((match (s.clear ⟨new_fd, hn⟩).unref h e d with
        | (s, true) => shut h e d s
        | (s, false) => s).ref f).put ⟨new_fd, hn⟩ f, some new_fd) := by
  have hsame := (unref_spec h (s.clear ⟨new_fd, hn⟩) e d).1
  unfold dup2
  rw [dif_pos hn, if_neg hne, hold]
  dsimp only
  rw [hnew]
  dsimp only
  rw [hd]
  dsimp only
  have hlock : (match (s.clear ⟨new_fd, hn⟩).unref h e d with
      | (s, true) => shut h e d s
      | (s, false) => s).getLocked old_fd = some f := by
    cases hu : (s.clear ⟨new_fd, hn⟩).unref h e d with
    | mk Y last =>
      rw [hu] at hsame
      cases last with
      | true => exact (getLocked_clear hn hne (hsame.trans (shut_same Y))).trans hold
      | false => exact (getLocked_clear hn hne hsame).trans hold
  exact if_pos hlock

omit [DecidableEq F] in
theorem flush_settled (hs : s.cache.Settled d.file_identifier (d.isWritable && d.write.isSome)) :
    s.flush d = s := by
  have hw : (if d.isWritable then d.write else none).isSome = (d.isWritable && d.write.isSome) := by
    cases d.isWritable with
    | true => rfl
    | false => rfl
  rw [← hw] at hs
  unfold flush
  rw [PageCache.flush_eq_self.2 hs]

omit [DecidableEq F] in
theorem settled_of_flush (hf : (s.flush d).cache = s.cache) :
    s.cache.Settled d.file_identifier (d.isWritable && d.write.isSome) := by
  have hw : (if d.isWritable then d.write else none).isSome = (d.isWritable && d.write.isSome) := by
    cases d.isWritable with
    | true => rfl
    | false => rfl
  rw [← hw]
  unfold flush at hf
  dsimp only at hf
  exact PageCache.flush_eq_self.1.1 hf

/-- **`dup2` onto an open descriptor does what `close` and `install` do** if and only if the
    replaced descriptor keeps a reference, is of no file, or the page cache has nothing of its file
    to flush: `dup2` does not flush. -/
theorem dup2_eq_close (hne : old_fd ≠ new_fd) (hold : s.getLocked old_fd = some f)
    (hnew : s.getLocked new_fd = some e) (hd : s.fd e = some d) :
    s.dup2 h old_fd new_fd = (((s.close h new_fd).1.ref f).install new_fd f, some new_fd) ↔
      1 < d.refcount ∨ d.file_identifier = 0 ∨
        s.cache.Settled d.file_identifier (d.isWritable && d.write.isSome) := by
  unfold getLocked at hnew
  split at hnew
  · rename_i hn
    rw [dup2_eq h hn hne hold hnew hd, close_eq h hn hnew hd]
    obtain ⟨hsame, hlast⟩ := unref_spec h (s.clear ⟨new_fd, hn⟩) e d
    cases hu : (s.clear ⟨new_fd, hn⟩).unref h e d with
    | mk Y last =>
      rw [hu] at hsame hlast
      have hcache : Y.cache = s.cache := hsame.cache
      unfold install
      cases last with
      | false =>
        dsimp only
        rw [dif_pos hn]
        have hmore : 1 < d.refcount := by
          have := mt hlast.2 Bool.false_ne_true
          omega
        exact ⟨fun _ => .inl hmore, fun _ => rfl⟩
      | true =>
        dsimp only
        rw [dif_pos hn]
        have hfew : ¬ 1 < d.refcount := not_lt.2 (hlast.1 rfl)
        by_cases hid : d.file_identifier = 0
        · rw [if_neg (not_not.2 hid)]
          exact ⟨fun _ => .inr (.inl hid), fun _ => rfl⟩
        rw [if_pos hid]
        constructor
        · intro he
          have hc : (shut h e d Y).cache = (shut h e d (Y.flush d)).cache :=
            congrArg (fun r => r.1.cache) he
          rw [(shut_same Y).cache, (shut_same (Y.flush d)).cache] at hc
          have hs := settled_of_flush hc.symm
          rw [hcache] at hs
          exact .inr (.inr hs)
        · rintro (hmore | hzero | hs)
          · exact absurd hmore hfew
          · exact absurd hzero hid
          · rw [← hcache] at hs
            rw [flush_settled hs]
  · cases hnew

end FdTable

/-! ## 4. One table -/

/-- A read-only descriptor of file 7 with so many references. -/
def readOnly (refcount : Nat) : FileDescriptor Nat Unit :=
  { write := none, closeOp := none, flags := 0, refcount := refcount, vfs_mount_idx := none,
    file_identifier := 7, vfs_path := [] }

/-- Page 0 of file 7 is cached, without a reference. -/
def onePage : PageCache Unit Unit Nat :=
  { page := fun _ => some
      { data := 1, fileId := 7, pageOffset := 0, refCount := 0, dirty := false, valid := true }
    buckets := fun b => if b = hash 7 0 then [()] else []
    totalPages := 1 }

/-- Slot 1 has the descriptor of file 7, slot 0 another one. -/
def twoFds (refcount : Nat) : FdTable Bool Unit Unit Nat Unit :=
  { fds := fun i => if i.val = 0 then some false else if i.val = 1 then some true else none
    count := 2
    fd := fun f => some (if f then readOnly refcount else { readOnly 1 with file_identifier := 8 })
    cache := onePage
    world := () }

def noHooks : Hooks Unit :=
  { releaseOnClose := fun _ w => w, inotify_close_hook := none, vfs_close_hook := none }

/-- The descriptor is referenced once more. -/
theorem dup2_eq_close_shared : (twoFds 2).dup2 noHooks 0 1 =
    ((((twoFds 2).close noHooks 1).1.ref false).install 1 false, some 1) :=
  (FdTable.dup2_eq_close (e := true) (d := readOnly 2) (by decide) (by decide) (by decide) rfl).2
    (.inl (by decide))

/-- `dup2` leaves a page in the cache that `close` frees. -/
theorem dup2_eq_close_refuted : ¬ ∀ (s : FdTable Bool Unit Unit Nat Unit) (old_fd new_fd : Nat)
    (f e : Bool) (d : FileDescriptor Nat Unit), old_fd ≠ new_fd → s.getLocked old_fd = some f →
    s.getLocked new_fd = some e → s.fd e = some d → s.dup2 noHooks old_fd new_fd =
        (((s.close noHooks new_fd).1.ref f).install new_fd f, some new_fd) := by
  intro h
  have he := h (twoFds 1) 0 1 false true (readOnly 1) (by decide) (by decide) (by decide) rfl
  have hpage := congrArg (fun r => (r.1.cache.page ()).isSome) he
  have hkept : (((twoFds 1).dup2 noHooks 0 1).1.cache.page ()).isSome = true := by decide +kernel
  have hfreed : (((((twoFds 1).close noHooks 1).1.ref false).install 1 false).cache.page ()).isSome =
      false := by decide +kernel
  exact absurd (hkept.symm.trans (hpage.trans hfreed)) (by decide)

end Zigk.Dup
