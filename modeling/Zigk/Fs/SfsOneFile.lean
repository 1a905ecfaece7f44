/-
  Subject:   HARD LINKS SHOW ONE FILE.

  * `entryMeta`, `byteAt` -- what `sfsStatPath` and a read show of an entry;
  * **`oneFile`** -- in every run of such calls; `oneFile_refuted` -- a write to one of two links.
-/
import Zigk.Fs.SfsEdits

namespace Zigk.Sfs

open Function

/-! ## 1. What a name shows -/

structure FileMeta where
  mode : FileType
  size : Nat
  attrs : Attrs
  deriving DecidableEq

namespace SFSMeta

variable (p : SFSMeta)

/-- `sfsStatPath` of a name with the entry `i`. -/
def entryMeta (i : Slot) : FileMeta := ⟨(p.sfs.dir i).mode, (p.sfs.dir i).size, p.attrs i⟩

/-- Byte `x` of a file opened by a name with the entry `i`, on a volume with the given sectors. -/
def byteAt (disk : Nat → Nat → BitVec 8) (i : Slot) (x : Nat) : Option (BitVec 8) :=
  if x < (p.sfs.dir i).size then some (disk ((p.sfs.dir i).start_block + x / 512) (x % 512))
  else none

/-- The entries of one file show the same, whatever is on the disk. -/
def OneFile : Prop :=
  ∀ i j, (p.sfs.dir i).flags = true → (p.sfs.dir j).flags = true →
    (p.sfs.dir i).file = (p.sfs.dir j).file →
    p.entryMeta i = p.entryMeta j ∧ ∀ disk x, p.byteAt disk i x = p.byteAt disk j x

/-! ## 2. Calls that keep it -/

/-- The entry `i` is the only one of its file. -/
def Sole (i : Slot) : Prop :=
  (p.sfs.dir i).flags = true → ∀ j, (p.sfs.dir j).flags = true →
    (p.sfs.dir j).file = (p.sfs.dir i).file → j = i

instance (i : Slot) : Decidable (p.Sole i) := inferInstanceAs (Decidable (_ → ∀ _, _ → _ → _))

/-- The entry of a name with other attributes. -/
def named (path : Name) (change : Attrs → Attrs) : Option (Slot × Nat × Attrs) :=
  (p.sfs.lookup (SFS.stripSlash path)).map fun i =>
    (i, (p.sfs.dir i).size, change (p.attrs i))

/-- The entry that a call writes, with the size and the attributes it gets. -/
def written : MetaOp → Option (Slot × Nat × Attrs)
  | .op op _ => (p.sfs.stored op).map fun q => (q.1, q.2, p.attrs q.1)
  | .sfsChmod path mode => p.named path (·.chmod mode)
  | .sfsChown path uid gid => p.named path (·.chown uid gid)
  | .sfsFdChown k uid gid => p.sfs.files[k]?.map fun f =>
    (f.entry_idx, (p.sfs.dir f.entry_idx).size, (p.attrs f.entry_idx).chown uid gid)
  | .sfsSetTimestamps path atime_sec mtime_sec =>
    p.named path (·.setTimestamps atime_sec mtime_sec)

/-- An entry that is written has no other link, or keeps what it has. -/
def Alike (op : MetaOp) : Prop :=
  ∀ q ∈ p.written op, p.Sole q.1 ∨ q.2 = ((p.sfs.dir q.1).size, p.attrs q.1)

instance (op : MetaOp) : Decidable (p.Alike op) :=
  inferInstanceAs (Decidable (∀ q ∈ p.written op, _))

end SFSMeta

/-! ## 3. The invariant -/

variable {p : SFSMeta} {s t : SFS} {op : Op} {i j : Slot} {a : Attrs} {n k : Nat}

/-- The entries of one file agree, and a file that is yet to come has none. -/
structure Agree (s : SFS) (attrs : Slot → Attrs) : Prop where
  same : ∀ i j, (s.dir i).flags = true → (s.dir j).flags = true →
    (s.dir i).file = (s.dir j).file → (s.dir i).Same (s.dir j) ∧ attrs i = attrs j
  fresh : ∀ i, (s.dir i).flags = true → (s.dir i).file < s.next_file

theorem DirEntry.Same.symm {e e' : DirEntry} (h : e.Same e') : e'.Same e :=
  ⟨h.1.symm, h.2.symm, h.3.symm, h.4.symm⟩

theorem DirEntry.Same.trans {e e' e'' : DirEntry} (h : e.Same e') (h' : e'.Same e'') :
    e.Same e'' := ⟨h.1.trans h'.1, h.2.trans h'.2, h.3.trans h'.3, h.4.trans h'.4⟩

namespace Agree

/-- Every active entry of `t` is the one of an active entry of `s`: so the entries of `t` agree as
    those of `s` do. -/
theorem of_source (h : Agree s p.attrs) {attrs : Slot → Attrs} (src : Slot → Slot)
    (hn : s.next_file ≤ t.next_file)
    (hsrc : ∀ i, (t.dir i).flags = true → (s.dir (src i)).flags = true ∧
      (t.dir i).Same (s.dir (src i)) ∧ attrs i = p.attrs (src i)) : Agree t attrs := by
  refine ⟨?_, ?_⟩
  · intro i j hi hj hfile
    obtain ⟨hfi, hsi, hai⟩ := hsrc i hi
    obtain ⟨hfj, hsj, haj⟩ := hsrc j hj
    obtain ⟨hsame, hattrs⟩ := h.same _ _ hfi hfj (hsi.file.symm.trans (hfile.trans hsj.file))
    exact ⟨hsi.trans (hsame.trans hsj.symm), hai.trans (hattrs.trans haj.symm)⟩
  · intro i hi
    obtain ⟨hfi, hsi, -⟩ := hsrc i hi
    rw [hsi.file]
    exact (h.fresh _ hfi).trans_le hn

/-- An entry with a new file number joins. -/
theorem add (h : Agree s p.attrs) {attrs : Slot → Attrs} (hn : t.next_file = s.next_file + 1)
    (hfile : (t.dir i).file = s.next_file) (hrest : ∀ j, j ≠ i → t.dir j = s.dir j)
    (hattrs : ∀ j, j ≠ i → (s.dir j).flags = true → attrs j = p.attrs j) : Agree t attrs := by
  -- no other entry has the number
  have hother : ∀ j, j ≠ i → (t.dir j).flags = true → (t.dir j).file ≠ (t.dir i).file := by
    intro j hj hf
    rw [hrest j hj] at hf ⊢
    rw [hfile]
    exact (h.fresh j hf).ne
  refine ⟨?_, ?_⟩
  · intro j k hj hk hsame
    by_cases hji : j = i
    · by_cases hki : k = i
      · rw [hji, hki]
        exact ⟨.refl _, rfl⟩
      · rw [hji] at hsame
        exact absurd hsame.symm (hother k hki hk)
    by_cases hki : k = i
    · rw [hki] at hsame
      exact absurd hsame (hother j hji hj)
    rw [hrest j hji] at hj hsame ⊢
    rw [hrest k hki] at hk hsame ⊢
    rw [hattrs j hji hj, hattrs k hki hk]
    exact h.same j k hj hk hsame
  · intro j hj
    rw [hn]
    by_cases hji : j = i
    · rw [hji, hfile]
      exact Nat.lt_succ_self _
    · rw [hrest j hji] at hj ⊢
      exact (h.fresh j hj).trans (Nat.lt_succ_self _)

/-- The only entry of a file is written. -/
theorem write (h : Agree s p.attrs) {attrs : Slot → Attrs} (hn : t.next_file = s.next_file)
    (hflags : (t.dir i).flags = (s.dir i).flags) (hfile : (t.dir i).file = (s.dir i).file)
    (hsole : (s.dir i).flags = true → ∀ j, (s.dir j).flags = true →
      (s.dir j).file = (s.dir i).file → j = i)
    (hrest : ∀ j, j ≠ i → t.dir j = s.dir j ∧ attrs j = p.attrs j) : Agree t attrs := by
  refine ⟨?_, ?_⟩
  · intro j k hj hk hsame
    by_cases hji : j = i
    · have hki : k = i := by
        by_contra hki
        rw [(hrest k hki).1] at hk hsame
        rw [hji, hfile] at hsame
        rw [hji, hflags] at hj
        exact hki (hsole hj k hk hsame.symm)
      rw [hji, hki]
      exact ⟨.refl _, rfl⟩
    have hki : k ≠ i := by
      intro hki
      rw [(hrest j hji).1] at hj hsame
      rw [hki, hfile] at hsame
      rw [hki, hflags] at hk
      exact hji (hsole hk j hj hsame)
    obtain ⟨hdj, haj⟩ := hrest j hji
    obtain ⟨hdk, hak⟩ := hrest k hki
    rw [hdj] at hj hsame ⊢
    rw [hdk] at hk hsame ⊢
    rw [haj, hak]
    exact h.same j k hj hk hsame
  · intro j hj
    rw [hn]
    by_cases hji : j = i
    · rw [hji, hfile]
      rw [hji, hflags] at hj
      exact h.fresh i hj
    · rw [(hrest j hji).1] at hj ⊢
      exact h.fresh j hj

theorem setAttrs (h : Agree p.sfs p.attrs) (i : Slot) (a : Attrs)
    (ha : p.Sole i ∨ a = p.attrs i) : Agree (p.setAttrs i a).sfs (p.setAttrs i a).attrs := by
  obtain hsole | hsame := ha
  · exact h.write rfl rfl rfl hsole fun j hj => ⟨rfl, update_of_ne hj ..⟩
  subst hsame
  unfold SFSMeta.setAttrs
  rw [update_eq_self]
  exact h

theorem onEntry (h : Agree p.sfs p.attrs) (path : Name) (change : Attrs → Attrs)
    (hc : ∀ q ∈ p.named path change, p.Sole q.1 ∨ q.2 = ((p.sfs.dir q.1).size, p.attrs q.1)) :
    Agree (p.onEntry path change).1.sfs (p.onEntry path change).1.attrs := by
  unfold SFSMeta.onEntry
  dsimp only
  split_ifs
  · exact h
  · exact h
  cases hl : p.sfs.lookup (SFS.stripSlash path) with
  | none => exact h
  | some i =>
    have hmem : (i, (p.sfs.dir i).size, change (p.attrs i)) ∈ p.named path change := by
      unfold SFSMeta.named
      rw [hl]
      rfl
    exact h.setAttrs i _ ((hc _ hmem).imp_right fun he => congrArg Prod.snd he)

theorem perform (h : Agree p.sfs p.attrs) (op : Op) (mode : Nat) (hc : p.Alike (.op op mode)) :
    Agree (p.perform op mode).sfs (p.perform op mode).attrs := by
  -- an entry that was active keeps its attributes
  have hold : ∀ i, (p.sfs.dir i).flags = true → (p.perform op mode).attrs i = p.attrs i := by
    intro i hf
    change (if _ then _ else _) = _
    rw [hf, Bool.not_true, Bool.false_and, if_neg Bool.false_ne_true]
  have hnone : ∀ i, (p.sfs.dir i).flags = ((p.sfs.step op).dir i).flags →
      (p.perform op mode).attrs i = p.attrs i := by
    intro i hf
    change (if _ then _ else _) = _
    rw [← hf, Bool.not_and_self, if_neg Bool.false_ne_true]
  cases edit p.sfs op with
  | stores i n hst hn hdir =>
    have hself : (p.perform op mode).sfs.dir i = (p.sfs.dir i).setSize n := by
      change (p.sfs.step op).dir i = _
      rw [hdir, update_self]
    have hrest : ∀ j, j ≠ i → (p.perform op mode).sfs.dir j = p.sfs.dir j := by
      intro j hj
      change (p.sfs.step op).dir j = _
      rw [hdir, update_of_ne hj]
    have hattrs : (p.perform op mode).attrs = p.attrs := by
      funext j
      refine hnone j ?_
      change _ = ((p.perform op mode).sfs.dir j).flags
      by_cases hj : j = i
      · rw [hj, hself]
        rfl
      · rw [hrest j hj]
    have hmem : (i, n, p.attrs i) ∈ p.written (.op op mode) := by
      change (p.sfs.stored op).map _ = _
      rw [hst]
      rfl
    obtain hsole | hsame := hc _ hmem
    · refine h.write hn ?_ ?_ hsole fun j hj => ⟨hrest j hj, congrFun hattrs j⟩
      · rw [hself]
        rfl
      · rw [hself]
        rfl
    refine h.of_source id hn.ge fun j hj => ?_
    have hsize : n = (p.sfs.dir i).size := congrArg Prod.fst hsame
    have hsetsize : (p.perform op mode).sfs.dir j = p.sfs.dir j := by
      by_cases hji : j = i
      · rw [hji, hself, hsize]
        rfl
      · exact hrest j hji
    rw [hsetsize] at hj ⊢
    exact ⟨hj, .refl _, congrFun hattrs j⟩
  | adds i _ hi hn hfile hrest =>
    exact h.add hn hfile hrest fun j _ hf => hold j hf
  | links i j _ hi hj hfl hn hself hrest =>
    refine h.of_source (fun k => if k = i then j else k) hn.ge fun k hk => ?_
    by_cases hki : k = i
    · subst hki
      rw [if_pos rfl]
      refine ⟨hfl, hself, ?_⟩
      have hk : ((p.sfs.step op).dir k).flags = true := hk
      have hfree := SFS.flags_of_freeSlot hi
      change (if _ then _ else _) = _
      rw [hfree, hk]
      refine (if_pos rfl).trans ?_
      cases op with
      | sfsLink old_path new_path =>
        have hj : p.sfs.lookupLast (SFS.stripSlash old_path) = some j := hj
        simp only [SFSMeta.newAttrs, hj]
      | _ => cases hj
    · rw [if_neg hki]
      obtain ⟨hf, hs⟩ := (hrest k hki).active hk
      exact ⟨hf, hs, hold k hf⟩
  | fades hn hfades =>
    refine h.of_source id hn.ge fun j hj => ?_
    obtain ⟨hf, hs⟩ := (hfades j).active hj
    exact ⟨hf, hs, hold j hf⟩

theorem step (h : Agree p.sfs p.attrs) (op : MetaOp) (hc : p.Alike op) :
    Agree (p.step op).sfs (p.step op).attrs := by
  cases op with
  | op op mode => exact h.perform op mode hc
  | sfsChmod path mode =>
    unfold SFSMeta.step
    dsimp only
    split_ifs
    · exact h
    · exact h.onEntry path _ hc
  | sfsChown path uid gid =>
    unfold SFSMeta.step
    dsimp only
    split_ifs
    · exact h
    · exact h.onEntry path _ hc
  | sfsFdChown k uid gid =>
    unfold SFSMeta.step
    dsimp only
    split
    · rename_i f _ hk
      refine h.setAttrs f.entry_idx _ ?_
      have hmem : (f.entry_idx, (p.sfs.dir f.entry_idx).size,
          (p.attrs f.entry_idx).chown uid gid) ∈ p.written (.sfsFdChown k uid gid) := by
        change p.sfs.files[k]?.map _ = _
        rw [hk]
        rfl
      exact (hc _ hmem).imp_right fun he => congrArg Prod.snd he
    · exact h
  | sfsSetTimestamps path atime_sec mtime_sec =>
    unfold SFSMeta.step
    dsimp only
    split_ifs
    · exact h
    · exact h.onEntry path _ hc

theorem of_reach (h : sfsMeta.Reach SFSMeta.Alike p) : Agree p.sfs p.attrs := by
  refine h.invariant (I := fun p => Agree p.sfs p.attrs) ?_ fun p op _ hp hc => hp.step op hc
  intro p hp
  rw [show p = formatMeta from hp]
  exact ⟨nofun, nofun⟩

theorem oneFile_of (h : Agree p.sfs p.attrs) : p.OneFile := by
  intro i j hi hj hfile
  obtain ⟨hsame, hattrs⟩ := h.same i j hi hj hfile
  refine ⟨?_, fun disk x => ?_⟩
  · unfold SFSMeta.entryMeta
    rw [hsame.mode, hsame.size, hattrs]
  · unfold SFSMeta.byteAt
    rw [hsame.size, hsame.start_block]

end Agree

/-! ## 4. Runs -/

/-- **In every run in which no entry with other links is changed, the names of a file show the
    same size, contents, mode, owner and times.** -/
theorem oneFile (h : sfsMeta.Reach SFSMeta.Alike p) : p.OneFile := (Agree.of_reach h).oneFile_of

/-- A file is written before it is linked, and gets its mode again after it. -/
def linkedRun : List MetaOp :=
  [.op (create nameA), .op (.sfsWrite 0 3), .sfsChmod nameA 0o600, .op (.sfsLink nameA nameB),
    .sfsChmod nameB 0o600, .op (.sfsUnlink nameA), .sfsChown nameB (some 5) none]

theorem oneFile_linkedRun : (sfsMeta.exec formatMeta linkedRun).OneFile := by
  have hstart : sfsMeta.start formatMeta := rfl
  refine oneFile ((Machine.Reach.start hstart).exec ⟨?_, ?_, ?_, ?_, ?_, ?_, ?_, trivial⟩) <;>
    decide +kernel

/-- The other link still has size 0. -/
theorem oneFile_refuted : ¬ ∀ p, sfsMeta.Reachable p → p.OneFile := by
  intro h
  have hstart : sfsMeta.start formatMeta := rfl
  set run : List MetaOp := [.op (create nameA), .op (.sfsLink nameA nameB), .op (.sfsWrite 0 3)]
    with hrun
  have hsame := h _ (Machine.Reachable.exec (.start hstart) run) 0 1
  have hsizes : ((sfsMeta.exec formatMeta run).entryMeta 0).size ≠
      ((sfsMeta.exec formatMeta run).entryMeta 1).size := by decide +kernel
  refine hsizes (congrArg FileMeta.size (hsame ?_ ?_ ?_).1) <;> decide +kernel

end Zigk.Sfs
