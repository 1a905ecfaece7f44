/-
  Subject:   A DESCRIPTOR CHANGES THE ENTRY OF ITS OWN FILE.

  * **`descriptorIsolation`** -- in every run of such calls; `descriptorIsolation_refuted` -- the
    slot of an unlinked file is reused, and its descriptor truncated.
-/
import Zigk.Fs.SfsOneFile

namespace Zigk.Sfs

open Function List Option

variable {p : SFSMeta} {s t : SFS} {op : Op} {i j : Slot} {n k len : Nat} {f g : SfsFile}

/-! ## 1. Isolation -/

/-- The descriptor that a call changes an entry through. -/
def MetaOp.descriptor : MetaOp → Option Nat
  | .op (.sfsWrite k _) _ | .op (.sfsTruncate k _) _ | .op (.sysFallocate k _ _) _ => some k
  | .sfsFdChown k _ _ => some k
  | _ => none

namespace SFSMeta

variable (p : SFSMeta)

/-- An entry that a call on a descriptor changes is the one the descriptor was opened on. -/
def Isolated (op : MetaOp) : Prop :=
  ∀ k ∈ op.descriptor, ∀ f ∈ p.sfs.files[k]?, ∀ i,
    ((p.step op).sfs.dir i, (p.step op).attrs i) ≠ (p.sfs.dir i, p.attrs i) →
    f.root = false ∧ f.entry_idx = i ∧ (p.sfs.dir i).file = f.file

/-- The descriptor of a call is one of the root directory, which has no entry. -/
def onRoot (op : MetaOp) : Bool :=
  op.descriptor.any fun k => p.sfs.files[k]?.any fun f => f.root

/-- A new entry does not go to the slot of a descriptor, and what is written through a descriptor
    of the root directory is there already. -/
def Apart : MetaOp → Prop
  | .op op mode =>
    (p.sfs.adds op = true → ∀ i ∈ p.sfs.freeSlot, ∀ f ∈ p.sfs.files,
      f.root = false → f.entry_idx ≠ i) ∧
    (p.onRoot (.op op mode) = true → ∀ q ∈ p.written (.op op mode),
      q.2 = ((p.sfs.dir q.1).size, p.attrs q.1))
  | op => p.onRoot op = true → ∀ q ∈ p.written op, q.2 = ((p.sfs.dir q.1).size, p.attrs q.1)

instance (op : MetaOp) : Decidable (p.Apart op) :=
  match op with
  | .op .. => inferInstanceAs (Decidable ((_ → ∀ i ∈ _, ∀ f ∈ _, _ → _) ∧ (_ → ∀ q ∈ _, _)))
  | .sfsChmod .. | .sfsChown .. | .sfsFdChown .. | .sfsSetTimestamps .. =>
    inferInstanceAs (Decidable (_ → ∀ q ∈ _, _))

end SFSMeta

/-! ## 2. Where descriptors come from -/

/-- The slot of each descriptor has its file. -/
def Own (s : SFS) : Prop := ∀ f ∈ s.files, f.root = false → (s.dir f.entry_idx).file = f.file

/-- A descriptor of `t` is one of `s`, or refers to the file in its slot. -/
def Refers (s t : SFS) : Prop :=
  ∀ g ∈ t.files, g.root = false →
    (∃ f ∈ s.files, f.root = false ∧ f.entry_idx = g.entry_idx ∧ f.file = g.file) ∨
      (t.dir g.entry_idx).file = g.file

namespace Refers

theorem same (h : t.files = s.files) : Refers s t :=
  fun g hg hr => .inl ⟨g, h ▸ hg, hr, rfl, rfl⟩

/-- Slots keep their files, and no descriptor is new. -/
theorem keep {u : SFS} (h : Refers s t) (hdir : ∀ i, (u.dir i).file = (t.dir i).file)
    (hsub : ∀ g ∈ u.files, g ∈ t.files) : Refers s u := by
  intro g hg hr
  rw [hdir]
  exact h g (hsub g hg) hr

theorem moves {grows : Prop} (h : Moves grows s t) : Refers s t := by
  induction h with
  | refl => exact same rfl
  | other _ hdir hfiles _ ih => exact ih.keep (fun i => by rw [hdir]) fun g hg => hfiles ▸ hg
  | setEntry _ i he _ ih => exact ih.keep (fun j => (he.written j).file) fun g hg => hg
  | setSize _ _ i size ih =>
    refine ih.keep (fun j => ?_) fun g hg => hg
    by_cases hj : j = i
    · subst hj
      rw [SFS.dir_setEntry_self]
      rfl
    · rw [SFS.dir_setEntry_ne _ _ hj]
  | syncLinks _ b _ ih => exact ih.keep (fun j => (Fades.syncLinks _ b _ j).file) fun g hg => hg
  -- entries come before descriptors
  | add _ _ hs _ _ _ hfiles _ => exact same (hfiles.trans hs)
  | @install t _ hs i position _ =>
    intro q hq hr
    have hq : q ∈ t.files ∨ q = t.fileOf i position := by simpa [SFS.install] using hq
    obtain hq | rfl := hq
    · exact .inl ⟨q, hs ▸ hq, hr, rfl, rfl⟩
    · exact .inr rfl
  | @openRoot t _ ih =>
    intro q hq hr
    have hq : q ∈ t.files ∨ q = SFS.rootFile := by simpa [SFS.install] using hq
    obtain hq | rfl := hq
    · exact ih q hq hr
    · cases hr
  | setFile _ hk hg ih =>
    intro q hq hr
    obtain hq | rfl := mem_or_eq_of_mem_set hq
    · exact ih q hq hr
    -- the descriptor got another position or size
    · have hf := ih _ (mem_of_getElem? hk) (hg.root.symm.trans hr)
      rw [← hg.entry_idx, ← hg.file] at hf
      exact hf
  | close _ hfiles hdir _ ih =>
    refine ih.keep (fun i => by rw [hdir]) fun g hg => ?_
    rw [hfiles] at hg
    exact mem_of_mem_eraseIdx hg

theorem step (s : SFS) (op : Op) : Refers s (s.step op) := moves (s := s.begin) (.step s op)

end Refers

/-! ## 3. Slots keep the files of their descriptors -/

/-- An operation keeps the file of every slot but that of a new entry. -/
theorem file_step (s : SFS) (op : Op) (i : Slot) (hi : s.adds op = true → s.freeSlot ≠ some i) :
    ((s.step op).dir i).file = (s.dir i).file := by
  cases edit s op with
  | stores j n _ _ hdir =>
    rw [hdir]
    by_cases hij : i = j
    · subst hij
      rw [update_self]
      rfl
    · rw [update_of_ne hij]
  | adds j ha hj _ _ hrest =>
    rw [hrest i fun hij => hi ha (hij ▸ hj)]
  | links j _ ha hj _ _ _ _ hrest => exact (hrest i fun hij => hi ha (hij ▸ hj)).file
  | fades _ h => exact (h i).file

theorem Own.perform (h : Own s) (op : Op)
    (hc : s.adds op = true → ∀ i ∈ s.freeSlot, ∀ f ∈ s.files, f.root = false →
      f.entry_idx ≠ i) : Own (s.step op) := by
  intro g hg hr
  obtain ⟨f, hf, hfr, hidx, hfile⟩ | hself := Refers.step s op g hg hr
  · rw [← hidx, ← hfile, file_step s op f.entry_idx fun ha hi => hc ha _ hi f hf hfr rfl]
    exact h f hf hfr
  · exact hself

theorem Own.step (h : Own p.sfs) (op : MetaOp) (hc : p.Apart op) : Own (p.step op).sfs := by
  have hentry : ∀ path change, (p.onEntry path change).1.sfs = p.sfs := by
    intro path change
    unfold SFSMeta.onEntry
    dsimp only
    cases p.sfs.lookup (SFS.stripSlash path) <;> split_ifs <;> rfl
  have hsame : ∀ q : SFSMeta, q.sfs = p.sfs → Own q.sfs := fun q hq => hq ▸ h
  cases op with
  | op op _ => exact h.perform op hc.1
  | sfsChmod path mode =>
    unfold SFSMeta.step
    dsimp only
    split_ifs
    · exact h
    · exact hsame _ (hentry path _)
  | sfsChown path uid gid =>
    unfold SFSMeta.step
    dsimp only
    split_ifs
    · exact h
    · exact hsame _ (hentry path _)
  | sfsFdChown k uid gid =>
    unfold SFSMeta.step
    dsimp only
    split <;> exact h
  | sfsSetTimestamps path atime_sec mtime_sec =>
    unfold SFSMeta.step
    dsimp only
    split_ifs
    · exact h
    · exact hsame _ (hentry path _)

theorem Own.of_reach (h : sfsMeta.Reach SFSMeta.Apart p) : Own p.sfs := by
  refine h.invariant (I := fun p => Own p.sfs) ?_ fun p op _ hp hc => hp.step op hc
  intro p hp
  rw [show p = formatMeta from hp]
  exact nofun

/-! ## 4. Calls on descriptors -/

/-- An operation that leaves the directory, or sets the size in the slot of a descriptor. -/
theorem Sized.isolated {mode : Nat} (h : Sized p.sfs op (p.sfs.step op) f.entry_idx)
    (hroot : f.root = true → ∀ q ∈ p.written (.op op mode),
      q.2 = ((p.sfs.dir q.1).size, p.attrs q.1))
    (hown : f.root = false → (p.sfs.dir f.entry_idx).file = f.file) (i : Slot)
    (hne : ((p.perform op mode).sfs.dir i, (p.perform op mode).attrs i) ≠
      (p.sfs.dir i, p.attrs i)) :
    f.root = false ∧ f.entry_idx = i ∧ (p.sfs.dir i).file = f.file := by
  have hattrs : ((p.sfs.step op).dir i).flags = (p.sfs.dir i).flags →
      (p.perform op mode).attrs i = p.attrs i := by
    intro hf
    change (if _ then _ else _) = _
    rw [hf, Bool.not_and_self, if_neg Bool.false_ne_true]
  have hsame : (p.sfs.step op).dir i ≠ p.sfs.dir i := by
    intro hd
    refine hne (Prod.ext hd (hattrs ?_))
    rw [hd]
  obtain ⟨-, hdir | ⟨n, hst, hdir⟩⟩ := h
  · exact absurd (congrFun hdir i) hsame
  have hi : i = f.entry_idx := by
    by_contra hi
    rw [hdir, update_of_ne hi] at hsame
    exact hsame rfl
  subst hi
  have hr : f.root = false := by
    by_contra hr
    have hmem : (f.entry_idx, n, p.attrs f.entry_idx) ∈ p.written (.op op mode) := by
      change (p.sfs.stored op).map _ = _
      rw [hst]
      rfl
    have hsize : n = (p.sfs.dir f.entry_idx).size :=
      congrArg Prod.fst (hroot (by simpa using hr) _ hmem)
    rw [hdir, update_self, hsize] at hsame
    exact hsame rfl
  exact ⟨hr, rfl, hown hr⟩

/-- The step of an operation on an open descriptor. -/
theorem Sized.step (hcall : Sized s.begin op t i) (hop : s.begin.perform op = t) :
    Sized s op (s.step op) i := by
  unfold SFS.step
  split_ifs
  · exact .same rfl rfl
  · rw [hop]
    obtain ⟨hn, hdir⟩ := hcall
    exact ⟨hn, hdir⟩

theorem SFS.onFile_of (hk : s.files[k]? = some f) (call : SfsFile → SFS) :
    s.onFile k call = call f := by
  unfold SFS.onFile
  rw [hk]

theorem sfsFdChown_isolated (hk : p.sfs.files[k]? = some f) (uid gid : Option Nat)
    (hroot : f.root = true → ∀ q ∈ p.written (.sfsFdChown k uid gid),
      q.2 = ((p.sfs.dir q.1).size, p.attrs q.1))
    (hown : f.root = false → (p.sfs.dir f.entry_idx).file = f.file) (i : Slot)
    (hne : ((p.step (.sfsFdChown k uid gid)).sfs.dir i, (p.step (.sfsFdChown k uid gid)).attrs i) ≠
      (p.sfs.dir i, p.attrs i)) :
    f.root = false ∧ f.entry_idx = i ∧ (p.sfs.dir i).file = f.file := by
  have hmem : (f.entry_idx, (p.sfs.dir f.entry_idx).size, (p.attrs f.entry_idx).chown uid gid) ∈
      p.written (.sfsFdChown k uid gid) := by
    change p.sfs.files[k]?.map _ = _
    rw [hk]
    rfl
  unfold SFSMeta.step at hne
  dsimp only at hne
  split at hne
  · rename_i g _ hg
    have hg : g = f := Option.some.inj (hg.symm.trans hk)
    subst hg
    have hi : i = g.entry_idx := by
      by_contra hi
      refine hne (Prod.ext rfl ?_)
      exact update_of_ne hi ..
    subst hi
    have hr : g.root = false := by
      by_contra hr
      have hattrs : (p.attrs g.entry_idx).chown uid gid = p.attrs g.entry_idx :=
        congrArg Prod.snd (hroot (by simpa using hr) _ hmem)
      refine hne (Prod.ext rfl ?_)
      exact (update_self ..).trans hattrs
    exact ⟨hr, rfl, hown hr⟩
  · exact absurd rfl hne

theorem Own.isolated (h : Own p.sfs) (op : MetaOp) (hc : p.Apart op) : p.Isolated op := by
  intro k hop f hk i hne
  have hk : p.sfs.files[k]? = some f := hk
  have hb : p.sfs.begin.files[k]? = some f := hk
  have hown : f.root = false → (p.sfs.dir f.entry_idx).file = f.file := h f (mem_of_getElem? hk)
  have honRoot : f.root = true → p.onRoot op = true := by
    intro hr
    unfold SFSMeta.onRoot
    rw [hop, any_some, hk, any_some, hr]
  cases op with
  | op op mode =>
    have hroot : f.root = true → ∀ q ∈ p.written (.op op mode),
        q.2 = ((p.sfs.dir q.1).size, p.attrs q.1) := fun hr => hc.2 (honRoot hr)
    cases op with
    | sfsWrite k' len =>
      cases hop
      exact ((Sized.sfsWrite hb).step (SFS.onFile_of hb _)).isolated hroot hown i hne
    | sfsTruncate k' length =>
      cases hop
      exact ((Sized.sfsTruncate hb).step (SFS.onFile_of hb _)).isolated hroot hown i hne
    | sysFallocate k' offset len =>
      cases hop
      exact ((Sized.sysFallocate hb).step (SFS.onFile_of hb _)).isolated hroot hown i hne
    | _ => cases hop
  | sfsFdChown k' uid gid =>
    cases hop
    exact sfsFdChown_isolated hk uid gid (fun hr => hc (honRoot hr)) hown i hne
  | _ => cases hop

/-- **In every run in which no new entry goes to the slot of a descriptor, and nothing is changed
    through a descriptor of the root directory, a call on a descriptor changes the entry of its own
    file or nothing.** -/
theorem descriptorIsolation (h : sfsMeta.Reach SFSMeta.Apart p) (op : MetaOp) (hc : p.Apart op) :
    p.Isolated op := (Own.of_reach h).isolated op hc

/-- A file is unlinked while it is open, and a directory is made in its slot once it is closed. -/
def apartRun : List MetaOp :=
  [.op (create nameA), .op (create nameB), .op (.sfsUnlink nameA), .op (.sfsClose 0),
    .op (.sfsMkdir nameC), .op (.sfsWrite 0 3)]

theorem apartRun_reach : sfsMeta.Reach SFSMeta.Apart (sfsMeta.exec formatMeta apartRun) := by
  have hstart : sfsMeta.start formatMeta := rfl
  refine (Machine.Reach.start hstart).exec ⟨?_, ?_, ?_, ?_, ?_, ?_, trivial⟩ <;> decide +kernel

theorem descriptorIsolation_apartRun :
    (sfsMeta.exec formatMeta apartRun).Isolated (.op (.sfsTruncate 0 1)) :=
  descriptorIsolation apartRun_reach _ (by decide +kernel)

/-- The descriptor of the first file truncates the second one, which has its slot. -/
theorem descriptorIsolation_refuted : ¬ ∀ p, sfsMeta.Reachable p → ∀ op, p.Isolated op := by
  intro h
  have hstart : sfsMeta.start formatMeta := rfl
  set run : List MetaOp := [.op (create nameA), .op (.sfsUnlink nameA), .op (create nameB)]
    with hrun
  set p := sfsMeta.exec formatMeta run with hp
  obtain ⟨f, hf⟩ : ∃ f, p.sfs.files[0]? = some f := ⟨_, rfl⟩
  have hsizes : ((p.step (.op (.sfsTruncate 0 100))).sfs.dir 0).size ≠ (p.sfs.dir 0).size := by
    decide +kernel
  have hfile := (h p (Machine.Reachable.exec (.start hstart) run) (.op (.sfsTruncate 0 100)) 0 rfl f
    hf 0 fun he => hsizes (congrArg (fun q => q.1.size) he)).2.2
  have hother : ∀ f ∈ p.sfs.files[0]?, (p.sfs.dir 0).file ≠ f.file := by decide +kernel
  exact hother f hf hfile

end Zigk.Sfs
