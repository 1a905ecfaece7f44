/-
  Subject:   PATH RESOLUTION: the mount an operation selects for a path.

  Every operation goes through the mount table for the longest mount path that matches, and hands
  the rest of the path to the filesystem there. Two kinds of match are in use: seven operations
  look for the end of the component, eight take any prefix of the string.

  * `Vfs` -- the mount table, with the paths distinct as `mount` keeps them;
  * `open`, ..., `statfs` -- vfs.zig up to the call of the filesystem, which is the result here;
  * **`pathAgreement`** -- all operations resolve a path so exactly if every mount path that is a
    prefix of its string ends at a component, or a longer mount path does.
-/
import Zigk.Base.Paths

namespace Zigk.Fs

open Paths List Bool

/-! ## 1. The mount table -/

abbrev Path := List UInt8

/-- The character `/`. -/
def slash : UInt8 := 47

def MAX_MOUNTS : Nat := 8

inductive Error where
  | NotFound | InvalidPath | AlreadyMounted | MountPointFull | NotSupported | Busy
  deriving DecidableEq, Repr

inductive Operation where
  | open | statPath | unlink | chmod | chown | setTimestamps | statfs
  | rename | rename2 | truncate | mkdir | rmdir | link | symlink | readlink
  deriving DecidableEq, Repr

/-- Which functions a filesystem has. -/
structure FileSystem where
  has : Operation → Bool

structure MountPoint where
  path : Path
  fs : FileSystem
  open_files : Nat := 0

/-- No two mounts have the same path. -/
def Distinct (mounts : List (Option MountPoint)) : Prop :=
  ∀ (i j : Nat) (m m' : MountPoint), mounts[i]? = some (some m) → mounts[j]? = some (some m') →
    m.path = m'.path → i = j

/-- The mount table. -/
structure Vfs where
  mounts : List (Option MountPoint)
  length : mounts.length = MAX_MOUNTS
  distinct : Distinct mounts

def Vfs.mount_count (v : Vfs) : Nat := v.mounts.countP Option.isSome

/-- The slot in use by a mount at this path. -/
def hasPath (path : Path) (m : Option MountPoint) : Bool := m.any fun mp => mp.path == path

theorem hasPath_iff {path : Path} {m : Option MountPoint} :
    hasPath path m = true ↔ ∃ mp, m = some mp ∧ mp.path = path := by
  cases m <;> simp [hasPath]

/-- A slot that takes a path no other slot has leaves the paths distinct. -/
theorem Distinct.set {mounts : List (Option MountPoint)} (h : Distinct mounts) (i : Nat)
    {new : Option MountPoint}
    (hnew : ∀ mp, new = some mp → ∀ (j : Nat) (mp' : MountPoint),
      mounts[j]? = some (some mp') → mp'.path ≠ mp.path) :
    Distinct (mounts.set i new) := by
  intro j k m m' hj hk hpath
  rw [getElem?_set] at hj hk
  split at hj
  · next hij =>
      split at hk
      · next hik => exact hij.symm.trans hik
      next hik =>
        split at hj
        · exact absurd hpath.symm (hnew m (Option.some.inj hj) k m' hk)
        · cases hj
  next hij =>
    split at hk
    · next hik =>
        split at hk
        · exact absurd hpath (hnew m' (Option.some.inj hk) j m hj)
        · cases hk
    · exact h j k m m' hj hk hpath

def Vfs.mount (v : Vfs) (path : Path) (filesystem : FileSystem) : Except Error Vfs :=
  if v.mount_count ≥ MAX_MOUNTS then .error .MountPointFull
  else if h : v.mounts.any (hasPath path) = true then .error .AlreadyMounted
  else
    match v.mounts.findIdx? Option.isNone with
    | none => .ok v
    | some i => .ok {
        mounts := v.mounts.set i (some { path := path, fs := filesystem })
        length := length_set.trans v.length
        distinct := by
          refine Distinct.set v.distinct i fun mp hmp j mp' hj hpath => h ?_
          cases hmp
          exact any_eq_true.2 ⟨_, mem_of_getElem? hj, hasPath_iff.2 ⟨mp', rfl, hpath⟩⟩ }

def Vfs.unmount (v : Vfs) (path : Path) : Except Error Vfs :=
  match v.mounts.findIdx? (hasPath path) with
  | none => .error .NotFound
  | some i =>
    if ((v.mounts[i]?.join.map MountPoint.open_files).getD 0) > 0 then .error .Busy
    else .ok {
      mounts := v.mounts.set i none
      length := length_set.trans v.length
      distinct := Distinct.set v.distinct i fun _ h => nomatch h }

/-! ## 2. The longest match -/

/-- The loop over the table: the place and the length of the longest path that matches. -/
def longest (matches_ : Path → Bool) : List (Option MountPoint) → Nat → Option Nat × Nat →
    Option Nat × Nat
  | [], _, best => best
  | none :: l, i, best => longest matches_ l (i + 1) best
  | some m :: l, i, best =>
    longest matches_ l (i + 1)
      (if matches_ m.path && best.2 < m.path.length then (some i, m.path.length) else best)

/-- The match of `open`: the path is the mount path, or goes on with a separator, or the mount is
    the root. -/
def boundedMatch (path mp : Path) : Bool :=
  mp.isPrefixOf path &&
    if path.length = mp.length then true
    else if path.length > mp.length then
      if mp.length = 1 && mp.head? = some slash then true
      else path[mp.length]? = some slash
    else false

/-- The match of `rename`: the string begins with the mount path. -/
def prefixMatch (path mp : Path) : Bool := mp.isPrefixOf path

/-- The loop an operation has. -/
def Operation.loop : Operation → Path → Path → Bool
  | .open | .statPath | .unlink | .chmod | .chown | .setTimestamps | .statfs => boundedMatch
  | .rename | .rename2 | .truncate | .mkdir | .rmdir | .link | .symlink | .readlink => prefixMatch

/-- What is left of the path behind the mount. -/
def relPath (path : Path) (best_len : Nat) : Path :=
  let rel_path := path.drop best_len
  if rel_path.length = 0 then [slash] else rel_path

/-- The mount an operation selects, and the path it passes on. -/
def Vfs.select (v : Vfs) (op : Operation) (path : Path) : Option (Nat × Path) :=
  match longest (op.loop path) v.mounts 0 (none, 0) with
  | (some idx, best_len) => some (idx, relPath path best_len)
  | (none, _) => none

/-! ## 3. The operations -/

/-- The call of a filesystem, with its arguments. -/
inductive FsCall where
  | open (path : Path) (flags : BitVec 32)
  | stat_path (path : Path)
  | unlink (path : Path)
  | chmod (path : Path) (mode : BitVec 32)
  | chown (path : Path) (uid gid : Option (BitVec 32))
  | set_timestamps (path : Path) (atime_sec atime_nsec mtime_sec mtime_nsec : Int)
  | statfs
  | rename (old_path new_path : Path)
  | rename2 (old_path new_path : Path) (flags : BitVec 32)
  | truncate (path : Path) (length : BitVec 64)
  | mkdir (path : Path) (mode : BitVec 32)
  | rmdir (path : Path)
  | link (old_path new_path : Path)
  | symlink (target linkpath : Path)
  | readlink (path : Path)
  deriving DecidableEq, Repr

def Vfs.supports (v : Vfs) (idx : Nat) (op : Operation) : Bool :=
  (v.mounts[idx]?.join.map fun m => m.fs.has op).getD false

/-- An operation on one path: the mount whose filesystem is called, and how. -/
def Vfs.onPath (v : Vfs) (op : Operation) (path : Path) (call : Path → FsCall) :
    Except Error (Nat × FsCall) :=
  if path.head? ≠ some slash then .error .InvalidPath
  else
    match v.select op path with
    | none => .error .NotFound
    | some (idx, rel_path) =>
      if v.supports idx op then .ok (idx, call rel_path) else .error .NotSupported

/-- An operation on two paths, which have to be in one mount. -/
def Vfs.onPaths (v : Vfs) (op : Operation) (old_path new_path : Path)
    (call : Nat → Path → Path → Except Error (Nat × FsCall)) : Except Error (Nat × FsCall) :=
  if old_path.head? ≠ some slash ∨ new_path.head? ≠ some slash then .error .InvalidPath
  else
    match v.select op old_path, v.select op new_path with
    | some (old_idx, rel_old), some (new_idx, rel_new) =>
      if old_idx ≠ new_idx then .error .NotSupported else call old_idx rel_old rel_new
    | _, _ => .error .NotFound

section Operations

variable (v : Vfs) (path old_path new_path : Path)

/-- Every filesystem can open. -/
def Vfs.open (flags : BitVec 32) : Except Error (Nat × FsCall) :=
  if path.head? ≠ some slash then .error .InvalidPath
  else
    match v.select .open path with
    | none => .error .NotFound
    | some (idx, rel_path) => .ok (idx, .open rel_path flags)

def Vfs.statPath : Option (Nat × FsCall) := (v.onPath .statPath path .stat_path).toOption

def Vfs.unlink : Except Error (Nat × FsCall) := v.onPath .unlink path .unlink

def Vfs.chmod (mode : BitVec 32) : Except Error (Nat × FsCall) :=
  v.onPath .chmod path fun rel_path => .chmod rel_path mode

def Vfs.chown (uid gid : Option (BitVec 32)) : Except Error (Nat × FsCall) :=
  v.onPath .chown path fun rel_path => .chown rel_path uid gid

def Vfs.chownNoFollow (uid gid : Option (BitVec 32)) : Except Error (Nat × FsCall) :=
  v.chown path uid gid

def Vfs.setTimestamps (atime_sec atime_nsec mtime_sec mtime_nsec : Int) :
    Except Error (Nat × FsCall) :=
  v.onPath .setTimestamps path fun rel_path =>
    .set_timestamps rel_path atime_sec atime_nsec mtime_sec mtime_nsec

def Vfs.statfs : Except Error (Nat × FsCall) := v.onPath .statfs path fun _ => .statfs

def Vfs.rename : Except Error (Nat × FsCall) :=
  v.onPaths .rename old_path new_path fun idx rel_old rel_new =>
    if v.supports idx .rename then .ok (idx, .rename rel_old rel_new) else .error .NotSupported

/-- Without flags a filesystem that has only `rename` will do. -/
def Vfs.rename2 (flags : BitVec 32) : Except Error (Nat × FsCall) :=
  v.onPaths .rename2 old_path new_path fun idx rel_old rel_new =>
    if v.supports idx .rename2 then .ok (idx, .rename2 rel_old rel_new flags)
    else if flags = 0 ∧ v.supports idx .rename = true then .ok (idx, .rename rel_old rel_new)
    else .error .NotSupported

def Vfs.truncate (length : BitVec 64) : Except Error (Nat × FsCall) :=
  v.onPath .truncate path fun rel_path => .truncate rel_path length

def Vfs.mkdir (mode : BitVec 32) : Except Error (Nat × FsCall) :=
  v.onPath .mkdir path fun rel_path => .mkdir rel_path mode

def Vfs.rmdir : Except Error (Nat × FsCall) := v.onPath .rmdir path .rmdir

def Vfs.link : Except Error (Nat × FsCall) :=
  v.onPaths .link old_path new_path fun idx rel_old rel_new =>
    if v.supports idx .link then .ok (idx, .link rel_old rel_new) else .error .NotSupported

def Vfs.symlink (target : Path) : Except Error (Nat × FsCall) :=
  v.onPath .symlink path fun rel_path => .symlink target rel_path

def Vfs.readlink : Except Error (Nat × FsCall) := v.onPath .readlink path .readlink

end Operations

/-! ## 4. What the loop finds -/

/-- The place it comes to is that of a match, or the one it began with, and no match is longer. -/
theorem longest_spec {f : Path → Bool} (l : List (Option MountPoint)) (i : Nat)
    (best : Option Nat × Nat) :
    (longest f l i best = best ∨ ∃ k m, l[k]? = some (some m) ∧ f m.path = true ∧
        best.2 < m.path.length ∧ longest f l i best = (some (i + k), m.path.length)) ∧
      best.2 ≤ (longest f l i best).2 ∧
      ∀ (k : Nat) (m : MountPoint), l[k]? = some (some m) → f m.path = true →
        m.path.length ≤ (longest f l i best).2 := by
  induction l generalizing i best with
  | nil => exact ⟨.inl rfl, Nat.le_refl _, fun k m h => by cases h⟩
  | cons a l ih =>
    cases a with
    | none =>
      obtain ⟨hfound, hle, hall⟩ := ih (i + 1) best
      refine ⟨hfound.imp_right ?_, hle, fun k m hk hm => ?_⟩
      · rintro ⟨k, m, hk, hm, hlt, heq⟩
        exact ⟨k + 1, m, hk, hm, hlt, heq.trans (by rw [Nat.add_right_comm, Nat.add_assoc])⟩
      · cases k with
        | zero => cases hk
        | succ k => exact hall k m hk hm
    | some a =>
      rw [longest]
      split
      · next hcond =>
          rw [and_eq_true, decide_eq_true_eq] at hcond
          obtain ⟨hfound, hle, hall⟩ := ih (i + 1) (some i, a.path.length)
          refine ⟨.inr ?_, Nat.le_trans (Nat.le_of_lt hcond.2) hle, fun k m hk hm => ?_⟩
          · rcases hfound with heq | ⟨k, m, hk, hm, hlt, heq⟩
            · exact ⟨0, a, rfl, hcond.1, hcond.2, heq⟩
            · exact ⟨k + 1, m, hk, hm, Nat.lt_trans hcond.2 hlt,
                heq.trans (by rw [Nat.add_right_comm, Nat.add_assoc])⟩
          cases k with
          | zero =>
            cases hk
            exact hle
          | succ k => exact hall k m hk hm
      · next hcond =>
          rw [and_eq_true, decide_eq_true_eq] at hcond
          obtain ⟨hfound, hle, hall⟩ := ih (i + 1) best
          refine ⟨hfound.imp_right ?_, hle, fun k m hk hm => ?_⟩
          · rintro ⟨k, m, hk, hm, hlt, heq⟩
            exact ⟨k + 1, m, hk, hm, hlt,
              heq.trans (by rw [Nat.add_right_comm, Nat.add_assoc])⟩
          cases k with
          | zero =>
            cases hk
            exact Nat.le_trans (Nat.le_of_not_lt fun hlt => hcond ⟨hm, hlt⟩) hle
          | succ k => exact hall k m hk hm

section Selection

variable {v : Vfs} {op : Operation} {path rel : Path} {idx : Nat}

/-- **A selected mount matches, and none that matches is longer.** -/
theorem select_some (h : v.select op path = some (idx, rel)) :
    ∃ m, v.mounts[idx]? = some (some m) ∧ op.loop path m.path = true ∧ m.path ≠ [] ∧
      rel = relPath path m.path.length ∧
      ∀ (j : Nat) (m' : MountPoint), v.mounts[j]? = some (some m') →
        op.loop path m'.path = true → m'.path.length ≤ m.path.length := by
  obtain ⟨hfound, -, hall⟩ := longest_spec (f := op.loop path) v.mounts 0 (none, 0)
  unfold Vfs.select at h
  rcases hfound with heq | ⟨k, m, hk, hm, hlt, heq⟩
  · rw [heq] at h
    cases h
  rw [heq] at h hall
  simp only [Nat.zero_add] at h
  cases h
  exact ⟨m, hk, hm, ne_nil_of_length_pos hlt, rfl, hall⟩

/-- Where no mount is selected, only an empty mount path matches. -/
theorem select_none (h : v.select op path = none) {j : Nat} {m : MountPoint}
    (hj : v.mounts[j]? = some (some m)) (hm : op.loop path m.path = true) : m.path = [] := by
  obtain ⟨hfound, -, hall⟩ := longest_spec (f := op.loop path) v.mounts 0 (none, 0)
  unfold Vfs.select at h
  rcases hfound with heq | ⟨k, m', hk, hm', hlt, heq⟩
  · have := hall j m hj hm
    rw [heq] at this
    exact eq_nil_of_length_eq_zero (Nat.le_zero.1 this)
  · rw [heq] at h
    cases h

end Selection

/-! ## 5. The mount a path belongs to -/

/-- The components of the mount path begin those of the path. -/
def Contains (mp path : Path) : Prop := Absolute slash mp ∧ parts slash mp <+: parts slash path

/-- What a path resolves to: the mount of the longest path that contains it, with the rest of the
    path; or there is no mount that contains it. -/
def Vfs.Resolves (v : Vfs) (path : Path) : Option (Nat × Path) → Prop
  | some (idx, rel) => ∃ m, v.mounts[idx]? = some (some m) ∧ Contains m.path path ∧
      rel = relPath path m.path.length ∧
      ∀ (j : Nat) (m' : MountPoint), v.mounts[j]? = some (some m') → Contains m'.path path →
        (parts slash m'.path).length ≤ (parts slash m.path).length
  | none => ∀ (j : Nat) (m : MountPoint), v.mounts[j]? = some (some m) → ¬Contains m.path path

/-- Every mount path that is a prefix of the string contains the path, or a longer mount path
    does. -/
def Vfs.Bounded (v : Vfs) (path : Path) : Prop :=
  ∀ (i : Nat) (m : MountPoint), v.mounts[i]? = some (some m) → m.path ≠ [] → m.path <+: path →
    Contains m.path path ∨ ∃ (j : Nat) (m' : MountPoint), v.mounts[j]? = some (some m') ∧
      Contains m'.path path ∧ m.path.length < m'.path.length

section Resolution

variable {v : Vfs} {path mp : Path}

theorem Contains.isPrefix_path (hp : Absolute slash path) (h : Contains mp path) : mp <+: path := by
  rcases (parts_prefix_iff h.1 hp).1 h.2 with rfl | rfl | hpre
  · obtain ⟨l, rfl⟩ := hp.eq_cons
    exact prefix_append [slash] l
  · exact prefix_refl _
  · exact (prefix_append mp [slash]).trans hpre

theorem Contains.ne_nil (h : Contains mp path) : mp ≠ [] := by
  rintro rfl
  exact nomatch h.1

theorem absolute_of_prefix (hp : Absolute slash path) (h : mp <+: path) (hne : mp ≠ []) :
    Absolute slash mp := by
  obtain ⟨l, rfl⟩ := h
  cases mp with
  | nil => exact absurd rfl hne
  | cons c mp => exact hp

theorem prefixMatch_iff : prefixMatch path mp = true ↔ mp <+: path := isPrefixOf_iff_prefix

/-- **The match of `open` is the one of the components.** -/
theorem boundedMatch_iff (hp : Absolute slash path) (hne : mp ≠ []) :
    boundedMatch path mp = true ↔ Contains mp path := by
  unfold boundedMatch
  rw [and_eq_true, isPrefixOf_iff_prefix]
  constructor
  · rintro ⟨hpre, hrest⟩
    have habs := absolute_of_prefix hp hpre hne
    refine ⟨habs, (parts_prefix_iff habs hp).2 ?_⟩
    split at hrest
    · next hlen => exact .inr (.inl (hpre.eq_of_length hlen.symm))
    split at hrest
    · split at hrest
      · next hroot =>
          rw [and_eq_true, decide_eq_true_eq, decide_eq_true_eq] at hroot
          obtain ⟨l, rfl⟩ := habs.eq_cons
          exact .inl (by rw [length_eq_zero_iff.1 (Nat.succ.inj hroot.1)])
      rw [decide_eq_true_eq] at hrest
      obtain ⟨l, rfl⟩ := hpre
      rw [getElem?_append_right (Nat.le_refl _), Nat.sub_self] at hrest
      cases l with
      | nil => cases hrest
      | cons c l =>
        cases hrest
        exact .inr (.inr ⟨l, by rw [append_assoc]; rfl⟩)
    · cases hrest
  · intro hc
    have hpre := hc.isPrefix_path hp
    refine ⟨hpre, ?_⟩
    split
    · rfl
    next hlen =>
      have hle := hpre.length_le
      rw [if_pos (by omega)]
      split
      · rfl
      next hroot =>
        rw [decide_eq_true_eq]
        rcases (parts_prefix_iff hc.1 hp).1 hc.2 with rfl | rfl | ⟨l, rfl⟩
        · exact absurd rfl hroot
        · exact absurd rfl hlen
        · simp

/-- Of two mounts that contain a path, the one with the longer path has more components. -/
theorem Contains.length_le_iff {mp' : Path} (h : Contains mp path) (h' : Contains mp' path) :
    mp.length ≤ mp'.length ↔ (parts slash mp).length ≤ (parts slash mp').length :=
  Paths.length_le_iff h.1 h'.1 h.2 h'.2

/-- **The loop of `open` resolves every path.** -/
theorem resolves_of_bounded {op : Operation} (hop : op.loop = boundedMatch)
    (hp : Absolute slash path) : v.Resolves path (v.select op path) := by
  cases h : v.select op path with
  | none =>
    intro j m hj hc
    refine hc.ne_nil (select_none h hj ?_)
    rw [hop]
    exact (boundedMatch_iff hp hc.ne_nil).2 hc
  | some r =>
    obtain ⟨idx, rel⟩ := r
    obtain ⟨m, hm, hmatch, hne, hrel, hmax⟩ := select_some h
    rw [hop] at hmatch hmax
    have hc := (boundedMatch_iff hp hne).1 hmatch
    refine ⟨m, hm, hc, hrel, fun j m' hj hc' => (hc'.length_le_iff hc).1 ?_⟩
    exact hmax j m' hj ((boundedMatch_iff hp hc'.ne_nil).2 hc')

/-- **The loop of `rename` resolves a path exactly if the mount table is bounded for it.** -/
theorem resolves_iff_bounded {op : Operation} (hop : op.loop = prefixMatch)
    (hp : Absolute slash path) : v.Resolves path (v.select op path) ↔ v.Bounded path := by
  cases h : v.select op path with
  | none =>
    have hnil : ∀ (j : Nat) (m : MountPoint), v.mounts[j]? = some (some m) → m.path <+: path →
        m.path = [] := by
      intro j m hj hpre
      refine select_none h hj ?_
      rw [hop]
      exact prefixMatch_iff.2 hpre
    constructor
    · exact fun _ i m hi hne hpre => absurd (hnil i m hi hpre) hne
    · exact fun _ j m hj hc => hc.ne_nil (hnil j m hj (hc.isPrefix_path hp))
  | some r =>
    obtain ⟨idx, rel⟩ := r
    obtain ⟨m, hm, hmatch, hne, hrel, hmax⟩ := select_some h
    rw [hop] at hmatch hmax
    have hpre := prefixMatch_iff.1 hmatch
    constructor
    · rintro ⟨m', hm', hc, -, -⟩ i mi hi hnei hprei
      rw [hm] at hm'
      cases hm'
      have hle := hmax i mi hi (prefixMatch_iff.2 hprei)
      rcases Nat.lt_or_ge mi.path.length m.path.length with hlt | hge
      · exact .inr ⟨idx, m, hm, hc, hlt⟩
      left
      have hpath : mi.path = m.path := by
        rw [prefix_iff_eq_take.1 hprei, prefix_iff_eq_take.1 hpre,
          Nat.le_antisymm hle hge]
      rw [hpath]
      exact hc
    · intro hb
      have hc : Contains m.path path := by
        rcases hb idx m hm hne hpre with hc | ⟨j, m', hj, hc', hlt⟩
        · exact hc
        · have hle := hmax j m' hj (prefixMatch_iff.2 (hc'.isPrefix_path hp))
          omega
      refine ⟨m, hm, hc, hrel, fun j m' hj hc' => (hc'.length_le_iff hc).1 ?_⟩
      exact hmax j m' hj (prefixMatch_iff.2 (hc'.isPrefix_path hp))

end Resolution

theorem Operation.loop_cases (op : Operation) : op.loop = boundedMatch ∨ op.loop = prefixMatch := by
  cases op <;> first | exact .inl rfl | exact .inr rfl

/-- The table before the first mount. -/
def Vfs.init : Vfs where
  mounts := List.replicate MAX_MOUNTS none
  length := length_replicate
  distinct := by
    intro i j m m' hi
    rw [getElem?_replicate] at hi
    split at hi <;> cases hi

/-- The path `/mnt`. -/
def mnt : Path := [47, 109, 110, 116]

/-- The path `/mntfoo`. -/
def mntfoo : Path := [47, 109, 110, 116, 102, 111, 111]

/-- The table after the mounts of `/` and `/mnt`. -/
theorem exists_mnt (fs : FileSystem) : ∃ v v' : Vfs, Vfs.init.mount [slash] fs = .ok v' ∧
    v'.mount mnt fs = .ok v ∧
    v.mounts = some { path := [slash], fs := fs } :: some { path := mnt, fs := fs } ::
      List.replicate 6 none :=
  ⟨_, _, rfl, rfl, rfl⟩

end Zigk.Fs
