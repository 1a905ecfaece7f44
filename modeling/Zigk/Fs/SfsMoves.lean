/-
  Subject:   WHAT AN OPERATION DOES TO THE ENTRIES AND TO THE OPEN FILES, move by move.

  * `Moves` -- the moves: an entry fades, gets a size or a number of links, or is new; a
    descriptor is opened, moved or closed;
  * `step` -- an operation makes such moves only: one lemma for each.
-/
import Zigk.Fs.SfsOpens

namespace Zigk.Sfs

open Function List

/-- Two entries of one file: the same but for name and links. -/
structure DirEntry.Same (e e' : DirEntry) : Prop where
  start_block : e.start_block = e'.start_block
  size : e.size = e'.size
  mode : e.mode = e'.mode
  file : e.file = e'.file

theorem DirEntry.Same.refl (e : DirEntry) : e.Same e := ⟨rfl, rfl, rfl, rfl⟩

/-- A slot keeps its file, and its entry at most goes, or gets another name. -/
structure Fades (e e' : DirEntry) : Prop where
  file : e'.file = e.file
  active : e'.flags = true → e.flags = true ∧ e'.Same e

/-! ## 1. Moves -/

/-- The moves of an operation from `s`. Only one that `grows` stores sizes and adds entries, and
    these before it opens a descriptor. -/
inductive Moves (grows : Prop) (s : SFS) : SFS → Prop
  | refl : Moves grows s s
  | other {t u : SFS} (h : Moves grows s t) (hdir : u.dir = t.dir) (hfiles : u.files = t.files)
      (hn : u.next_file = t.next_file) : Moves grows s u
  | setEntry {t : SFS} {e : DirEntry} (h : Moves grows s t) (i : Slot) (he : Fades (t.dir i) e)
      (hn : e.flags = true → e.nlink = (t.dir i).nlink) : Moves grows s (t.setEntry i e)
  | setSize {t : SFS} (h : Moves grows s t) (hg : grows) (i : Slot) (size : Nat) :
      Moves grows s (t.setEntry i ((t.dir i).setSize size))
  | syncLinks {t : SFS} {n : Nat} (h : Moves grows s t) (b : Nat) (hn : n ≠ 0) :
      Moves grows s (t.syncLinks b n)
  | add {t u : SFS} {e : DirEntry} (h : Moves grows s t) (hg : grows) (hs : t.files = s.files)
      (i : Slot) (hn : e.nlink ≠ 0) (hdir : u.dir = update t.dir i e)
      (hfiles : u.files = t.files) : Moves grows s u
  | install {t : SFS} (h : Moves grows s t) (hs : t.files = s.files) (i : Slot)
      (position : Nat) : Moves grows s (t.install (t.fileOf i position))
  | openRoot {t : SFS} (h : Moves grows s t) : Moves grows s (t.install SFS.rootFile)
  | setFile {t : SFS} {k : Nat} {f g : SfsFile} (h : Moves grows s t)
      (hk : t.files[k]? = some f) (hg : g.Like f) : Moves grows s (t.setFile k g)
  | close {t u : SFS} {k : Nat} (h : Moves grows s t) (hfiles : u.files = t.files.eraseIdx k)
      (hdir : u.dir = t.dir) (hn : u.next_file = t.next_file) : Moves grows s u

variable {s t : SFS} {i : Slot} {b k : Nat} {e : DirEntry} {f g : SfsFile}

namespace Fades

theorem refl (e : DirEntry) : Fades e e := ⟨rfl, fun h => ⟨h, .refl e⟩⟩

theorem trans {e e' e'' : DirEntry} (h : Fades e e') (h' : Fades e' e'') : Fades e e'' := by
  refine ⟨h'.file.trans h.file, fun hf => ?_⟩
  obtain ⟨hf', hs'⟩ := h'.active hf
  obtain ⟨hf'', hs⟩ := h.active hf'
  exact ⟨hf'', hs'.1.trans hs.1, hs'.2.trans hs.2, hs'.3.trans hs.3, hs'.4.trans hs.4⟩

theorem written (he : Fades (s.dir i) e) (j : Slot) :
    Fades (s.dir j) (update s.dir i e j) := by
  by_cases hj : j = i
  · subst hj
    rw [update_self]
    exact he
  · rw [update_of_ne hj]
    exact .refl _

/-- An entry goes. -/
theorem cleared {e e' : DirEntry} (hf : e'.flags = false) (hn : e'.file = e.file) : Fades e e' :=
  ⟨hn, fun h => by rw [hf] at h; cases h⟩

theorem setName (e : DirEntry) (name : Name) : Fades e (e.setName name) :=
  ⟨rfl, fun h => ⟨h, rfl, rfl, rfl, rfl⟩⟩

theorem syncLinks (s : SFS) (b n : Nat) (i : Slot) :
    Fades (s.dir i) ((s.syncLinks b n).dir i) := by
  change Fades _ (if _ then (s.dir i).setNlink n else s.dir i)
  split_ifs
  · exact ⟨rfl, fun h => ⟨h, rfl, rfl, rfl, rfl⟩⟩
  · exact .refl _

end Fades

namespace Moves

/-! ## 2. The moves of each operation -/

section Parts

variable {grows : Prop} {s₀ : SFS} (h : Moves grows s₀ s)

include h

theorem clear (i : Slot) (hf : e.flags = false) (hn : e.file = (s.dir i).file) :
    Moves grows s₀ (s.setEntry i e) :=
  h.setEntry i (.cleared hf hn) fun hf' => by rw [hf] at hf'; cases hf'

theorem setName (i : Slot) (name : Name) : Moves grows s₀ (s.setEntry i ((s.dir i).setName name)) :=
  h.setEntry i (.setName _ name) fun _ => rfl

theorem freeBlock (b : Nat) : Moves grows s₀ (s.freeBlock b) := by
  unfold SFS.freeBlock
  split_ifs <;> exact h.other rfl rfl rfl

theorem freeBlocks (b n : Nat) : Moves grows s₀ (s.freeBlocks b n) := by
  induction n with
  | zero => exact h
  | succ n ih => exact ih.freeBlock _

theorem removeEntry (i : Slot) : Moves grows s₀ (s.removeEntry i) := by
  have hs := h.other (u := s.setFileCount (s.file_count - 1)) rfl rfl rfl
  unfold SFS.removeEntry
  dsimp only
  split_ifs
  · exact (hs.clear i (e := (s.dir i).clear) rfl rfl).other rfl rfl rfl
  · refine freeBlocks ?_ _ _
    exact hs.clear i rfl rfl

theorem renameEntry (i : Slot) (target : Option Slot) (name : Name) :
    Moves grows s₀ (s.renameEntry i target name).1 := by
  unfold SFS.renameEntry
  cases target with
  | none => exact h.setName i name
  | some j =>
    dsimp only
    split_ifs
    · exact h
    · exact (h.removeEntry j).setName i name

end Parts

section Calm

variable {grows : Prop} {s₀ : SFS}

theorem allocateBlock (ha : s.allocateBlock = some (b, t)) :
    Moves grows s t ∧ t.files = s.files := by
  rw [(SFS.allocateBlock_some ha).2.2]
  exact ⟨.other .refl rfl rfl rfl, rfl⟩

theorem sfsClose (s : SFS) (k : Nat) (f : SfsFile) : Moves grows s (s.sfsClose k f) := by
  unfold SFS.sfsClose
  dsimp only
  split_ifs
  · refine freeBlocks ?_ _ _
    exact .close .refl rfl rfl rfl
  · exact .close .refl rfl rfl rfl

/-- A descriptor is written twice. -/
theorem setFile_twice (h : Moves grows s₀ s) (hk : s.files[k]? = some f) (hg : g.Like f)
    {g' : SfsFile} (hg' : g'.Like g) : Moves grows s₀ ((s.setFile k g).setFile k g') := by
  refine (h.setFile hk hg).setFile ?_ hg'
  exact getElem?_set_self (List.getElem?_eq_some_iff.mp hk).1

theorem sfsRead (hk : s.files[k]? = some f) (len : Nat) :
    Moves grows s (s.sfsRead k f len).1 := by
  unfold SFS.sfsRead
  cases s.refreshSizeFromDisk f with
  | none => exact .refl
  | some size =>
    dsimp only
    set q := if size < f.size then (f.setSize size).seekTo (min f.position size) else f with hq
    have hlike : q.Like f := by
      rw [hq]
      split_ifs <;> exact ⟨rfl, rfl, rfl, rfl, rfl⟩
    split_ifs
    · exact .setFile .refl hk hlike
    · exact .setFile .refl hk hlike
    · exact setFile_twice .refl hk hlike ⟨rfl, rfl, rfl, rfl, rfl⟩

theorem sfsSeek (hk : s.files[k]? = some f) (offset : Int) (whence : Nat) :
    Moves grows s (s.sfsSeek k f offset whence).1 := by
  have hgo : ∀ n, Moves grows s (SFS.sfsSeek.go s k f n).1 := by
    intro n
    unfold SFS.sfsSeek.go
    split_ifs
    · exact .refl
    · exact .refl
    · exact .setFile .refl hk ⟨rfl, rfl, rfl, rfl, rfl⟩
  unfold SFS.sfsSeek
  split
  · exact hgo _
  · exact hgo _
  · exact hgo _
  · exact .refl

theorem sfsUnlink (s : SFS) (path : Name) : Moves grows s (s.sfsUnlink path).1 := by
  unfold SFS.sfsUnlink
  dsimp only
  cases s.lookup (SFS.stripSlash path) with
  | none => split_ifs <;> exact .refl
  | some i =>
    dsimp only
    split_ifs with _ _ hmany
    · exact .refl
    · exact .refl
    · have hclear : Moves grows s (s.setEntry i (s.dir i).clear) := clear .refl i rfl rfl
      exact (hclear.syncLinks _ (by omega)).other rfl rfl rfl
    · exact removeEntry .refl i

theorem sfsRmdir (s : SFS) (path : Name) : Moves grows s (s.sfsRmdir path).1 := by
  unfold SFS.sfsRmdir
  dsimp only
  cases s.lookup (SFS.stripSlash path) with
  | none => split_ifs <;> exact .refl
  | some i =>
    have hclear : Moves grows s (s.setEntry i
        { (s.dir i).clear with start_block := 0, size := 0, mode := .none }) :=
      clear .refl i rfl rfl
    dsimp only
    split_ifs <;> first | exact .refl | exact hclear.other rfl rfl rfl

theorem sfsRename (s : SFS) (old_path new_path : Name) :
    Moves grows s (s.sfsRename old_path new_path).1 := by
  unfold SFS.sfsRename
  dsimp only
  cases SFS.checkNames (SFS.stripSlash old_path) (SFS.stripSlash new_path) with
  | some err => exact .refl
  | none =>
    dsimp only
    split_ifs
    · exact .refl
    cases s.lookupLast (SFS.stripSlash old_path) with
    | none => exact .refl
    | some i => exact renameEntry .refl i _ _

theorem sfsRename2 (s : SFS) (old_path new_path : Name) (flags : Nat) :
    Moves grows s (s.sfsRename2 old_path new_path flags).1 := by
  have hrename : Moves grows s (s.sfsRename old_path new_path).1 := sfsRename s old_path new_path
  unfold SFS.sfsRename2
  dsimp only
  cases SFS.checkNames (SFS.stripSlash old_path) (SFS.stripSlash new_path) with
  | some err => exact .refl
  | none =>
    dsimp only
    cases s.lookupLast (SFS.stripSlash old_path) with
    | none => split_ifs <;> first | exact .refl | exact hrename
    | some i =>
      cases s.lookupLast (SFS.stripSlash new_path) with
      | none => split_ifs <;> first | exact .refl | exact hrename
      | some j =>
        have hexchange : Moves grows s (s.exchange i j) := by
          have hfirst : Moves grows s (s.setEntry i ((s.dir i).setName (s.dir j).name)) :=
            setName .refl i _
          by_cases hj : j = i
          · subst hj
            refine hfirst.setEntry j ?_ fun _ => ?_ <;> rw [SFS.dir_setEntry_self]
            exact .setName _ _
          · refine hfirst.setEntry j ?_ fun _ => ?_ <;> rw [SFS.dir_setEntry_ne _ _ hj]
            · exact .setName _ _
            · rfl
        split_ifs <;> first | exact .refl | exact hrename | exact hexchange

/-- A call on a descriptor. -/
theorem onFile (s : SFS) (k : Nat) {call : SfsFile → SFS}
    (hcall : ∀ f, s.files[k]? = some f → Moves grows s (call f)) :
    Moves grows s (s.onFile k call) := by
  unfold SFS.onFile
  cases hk : s.files[k]? with
  | none => exact .refl
  | some f => exact hcall f hk

end Calm

section Growing

theorem storeSize {s₀ : SFS} (h : Moves True s₀ s) (f : SfsFile) : Moves True s₀ (s.storeSize f) :=
  h.setSize trivial _ _

theorem openEntry (s : SFS) (i : Slot) (flags : Nat) (heap : SFS.Heap) :
    Moves True s (s.openEntry i flags heap).1 := by
  have ht : Moves True s (s.truncEntry i flags) ∧ (s.truncEntry i flags).files = s.files := by
    unfold SFS.truncEntry
    split_ifs
    · exact ⟨.setSize .refl trivial i 0, rfl⟩
    · exact ⟨.refl, rfl⟩
  have hinstall : ∀ n position, Moves True s (((s.truncEntry i flags).setCount i n).install
      ((s.truncEntry i flags).fileOf i position)) := fun n position =>
    .install (t := (s.truncEntry i flags).setCount i n) (ht.1.other rfl rfl rfl) ht.2 i position
  unfold SFS.openEntry
  dsimp only
  split_ifs <;> first | exact .refl | exact ht.1 | exact hinstall _ _

theorem createEntry (s : SFS) (name : Name) (heap : SFS.Heap) :
    Moves True s (s.createEntry name heap).1 := by
  unfold SFS.createEntry
  cases ha : s.allocateBlock with
  | none => exact .refl
  | some q =>
    obtain ⟨b, t⟩ := q
    obtain ⟨ht, hfiles⟩ : Moves True s t ∧ _ := allocateBlock ha
    dsimp only
    cases t.freeSlot with
    | none => exact ht.freeBlock b
    | some i =>
      have hadd : Moves True s (t.addEntry i (t.newEntry name b 0 .S_IFREG)) :=
        ht.add trivial hfiles i Nat.one_ne_zero rfl rfl
      dsimp only
      split_ifs
      · exact ht.freeBlock b
      · refine install (t := ((t.addEntry i (t.newEntry name b 0 .S_IFREG)).setPending i false
          {}).setCount i 1) ?_ hfiles i 0
        exact hadd.other rfl rfl rfl
      · refine freeBlock ?_ b
        exact hadd.other rfl rfl rfl

theorem sfsOpen (s : SFS) (path : Name) (flags : Nat) (heap : SFS.Heap) :
    Moves True s (s.sfsOpen path flags heap).1 := by
  have hroot : Moves True s (s.install SFS.rootFile) := .openRoot .refl
  unfold SFS.sfsOpen
  dsimp only
  cases s.lookup (SFS.stripSlash path) with
  | some i =>
    have hopen := openEntry s i flags heap
    split_ifs <;> first | exact .refl | exact hroot | exact hopen
  | none =>
    have hcreate := createEntry s (SFS.stripSlash path) heap
    split_ifs <;> first | exact .refl | exact hroot | exact hcreate

theorem writeData {s₀ : SFS} (hk : s.files[k]? = some f) (len : Nat) (h : Moves True s₀ s) :
    Moves True s₀ (s.writeData k f len).1 := by
  unfold SFS.writeData
  dsimp only
  set q := if f.size < f.position then f.setSize f.position else f with hq
  have hlike : q.Like f := by
    rw [hq]
    split_ifs <;> exact ⟨rfl, rfl, rfl, rfl, rfl⟩
  have hmoved : ∀ q' : SfsFile, q'.Like q → Moves True s₀ ((s.setFile k q).setFile k q') :=
    fun q' hq' => setFile_twice h hk hlike hq'
  split_ifs
  · exact h.other rfl rfl rfl
  · exact h
  · exact h.setFile hk hlike
  · refine storeSize (hmoved _ ?_) _
    exact ⟨rfl, rfl, rfl, rfl, rfl⟩
  · exact hmoved _ ⟨rfl, rfl, rfl, rfl, rfl⟩
  · exact hmoved _ ⟨rfl, rfl, rfl, rfl, rfl⟩

theorem sfsWrite (hk : s.files[k]? = some f) (len : Nat) :
    Moves True s (s.sfsWrite k f len).1 := by
  unfold SFS.sfsWrite
  dsimp only
  split_ifs
  · exact .refl
  · exact .refl
  · refine writeData (s := s.growBlocks f _) hk len ?_
    exact .other .refl rfl rfl rfl
  · exact writeData hk len .refl

theorem fillTo {s₀ : SFS} (hk : s.files[k]? = some f) (size : Nat) (h : Moves True s₀ s) :
    Moves True s₀ (s.fillTo k f size) := by
  unfold SFS.fillTo
  split_ifs
  · exact h.other rfl rfl rfl
  · refine storeSize (h.setFile hk ?_) _
    exact ⟨rfl, rfl, rfl, rfl, rfl⟩

theorem truncateFd (hk : s.files[k]? = some f) (length : Nat) :
    Moves True s (s.truncateFd k f length).1 := by
  have hcut : ∀ t : SFS, t.files = s.files → Moves True s t → ∀ g : SfsFile, g.Like f →
      Moves True s ((t.setFile k g).storeSize g) :=
    fun t ht h g hg => storeSize (h.setFile (ht ▸ hk) hg) g
  have hlike : ((f.setSize length).seekTo (min f.position length)).Like f :=
    ⟨rfl, rfl, rfl, rfl, rfl⟩
  unfold SFS.truncateFd SFS.extend SFS.shrink
  dsimp only
  split_ifs
  · exact .refl
  · exact .other .refl rfl rfl rfl
  · exact .refl
  · refine fillTo (s := s.growBlocks f _) hk length ?_
    exact .other .refl rfl rfl rfl
  · exact fillTo hk length .refl
  · refine freeBlocks (hcut (s.setNextFree (f.start_block + blocks length)) rfl ?_ _ hlike) _ _
    exact .other .refl rfl rfl rfl
  · exact freeBlocks (hcut s rfl .refl _ hlike) _ _
  · exact hcut s rfl .refl _ hlike

theorem sysFallocate (hk : s.files[k]? = some f) (offset len : Nat) :
    Moves True s (s.sysFallocate k f offset len).1 := by
  unfold SFS.sysFallocate
  dsimp only
  split_ifs
  · exact truncateFd hk _
  · exact .refl

theorem sfsMkdir (s : SFS) (path : Name) : Moves True s (s.sfsMkdir path).1 := by
  unfold SFS.sfsMkdir
  dsimp only
  cases s.lookup (SFS.stripSlash path) with
  | some i => split_ifs <;> exact .refl
  | none =>
    cases s.freeSlot with
    | none => split_ifs <;> exact .refl
    | some i =>
      have hadd : Moves True s (s.addEntry i (s.newEntry (SFS.stripSlash path) 0 0 .S_IFDIR)) :=
        .add .refl trivial rfl i Nat.one_ne_zero rfl rfl
      dsimp only
      split_ifs <;> first | exact .refl | exact hadd

theorem sfsLink (s : SFS) (old_path new_path : Name) :
    Moves True s (s.sfsLink old_path new_path).1 := by
  unfold SFS.sfsLink
  dsimp only
  cases SFS.checkNames (SFS.stripSlash old_path) (SFS.stripSlash new_path) with
  | some err => exact .refl
  | none =>
    dsimp only
    split
    · exact .refl
    · exact .refl
    · exact .refl
    rename_i old i _ _ _
    split_ifs
    · exact .refl
    · exact .refl
    have hadd : Moves True s (s.setEntry i (((s.dir old).setName
        (SFS.stripSlash new_path)).setNlink ((s.dir old).effective_nlink + 1))) :=
      .add .refl trivial rfl i (Nat.succ_ne_zero _) rfl rfl
    exact (hadd.syncLinks _ (Nat.succ_ne_zero _)).other rfl rfl rfl

theorem sfsSymlink (s : SFS) (target linkpath : Name) :
    Moves True s (s.sfsSymlink target linkpath).1 := by
  unfold SFS.sfsSymlink
  dsimp only
  split_ifs
  · exact .refl
  · exact .refl
  · exact .refl
  · exact .refl
  cases ha : s.allocateBlock with
  | none => exact .refl
  | some q =>
    obtain ⟨b, t⟩ := q
    obtain ⟨ht, hfiles⟩ : Moves True s t ∧ _ := allocateBlock ha
    have hback := ht.freeBlock b
    dsimp only
    split
    · exact hback
    · exact hback
    rename_i i _ _
    split_ifs
    · exact hback
    · exact ht.add trivial hfiles i (e := t.newEntry _ b _ .S_IFLNK) Nat.one_ne_zero rfl rfl

/-- **Every operation makes such moves only.** -/
theorem step (s : SFS) (op : Op) : Moves True s.begin (s.step op) := by
  unfold SFS.step
  split_ifs
  · exact .refl
  cases op with
  | sfsOpen path flags heap => exact sfsOpen _ path flags heap
  | sfsClose k => exact onFile _ k fun f _ => sfsClose _ k f
  | sfsRead k len => exact onFile _ k fun f hk => sfsRead hk len
  | sfsSeek k offset whence => exact onFile _ k fun f hk => sfsSeek hk offset whence
  | sfsWrite k len => exact onFile _ k fun f hk => sfsWrite hk len
  | sfsTruncate k length => exact onFile _ k fun f hk => truncateFd hk length
  | sysFallocate k offset len => exact onFile _ k fun f hk => sysFallocate hk offset len
  | sfsUnlink path => exact sfsUnlink _ path
  | sfsMkdir path => exact sfsMkdir _ path
  | sfsRmdir path => exact sfsRmdir _ path
  | sfsLink old_path new_path => exact sfsLink _ old_path new_path
  | sfsSymlink target linkpath => exact sfsSymlink _ target linkpath
  | sfsRename old_path new_path => exact sfsRename _ old_path new_path
  | sfsRename2 old_path new_path flags => exact sfsRename2 _ old_path new_path flags

end Growing

/-- Without sizes and new entries, every slot keeps its file, and entries at most go, or get
    another name. -/
theorem fades (h : Moves False s t) :
    t.next_file = s.next_file ∧ ∀ i, Fades (s.dir i) (t.dir i) := by
  induction h with
  | refl => exact ⟨rfl, fun i => .refl _⟩
  | other _ hdir _ hn ih => exact ⟨hn.trans ih.1, hdir ▸ ih.2⟩
  | setEntry _ i he _ ih => exact ⟨ih.1, fun j => (ih.2 j).trans (he.written j)⟩
  | syncLinks _ b _ ih => exact ⟨ih.1, fun j => (ih.2 j).trans (.syncLinks _ b _ j)⟩
  | install _ _ _ _ ih | openRoot _ ih | setFile _ _ _ ih => exact ih
  | close _ _ hdir hn ih => exact ⟨hn.trans ih.1, hdir ▸ ih.2⟩
  | setSize _ hg | add _ hg => exact hg.elim

end Moves

end Zigk.Sfs
