/-
  Subject:   WHAT A RENAME LEAVES of the directory and of the bitmap.

  * `RenameCalm` -- the replaced entry is no link of the renamed file, and a closed one has no
    other links: `removeEntry` asks only whether the entry is open;
  * **`renames`** -- a rename obeys the law exactly if it is calm, an exchange always;
    `renames_refuted` -- a file is renamed onto its second link.
-/
import Zigk.Fs.SfsEdits

namespace Zigk.Sfs

open Function List Option SFS

variable {s t : SFS} {i j k : Slot} {old new : Name} {b n : Nat}

/-! ## 1. The law -/

/-- What the allocators know. -/
def SFS.space (s : SFS) : (Nat → Bool) × Nat × Bool := (s.bitmap, s.free_blocks, s.lost)

/-- No other active entry starts where this one does, which is how links are told. -/
def SFS.lastLink (s : SFS) (j : Slot) : Prop :=
  ∀ k, k ≠ j → (s.dir k).flags = true → (s.dir k).start_block ≠ (s.dir j).start_block

instance (s : SFS) (j : Slot) : Decidable (s.lastLink j) := by
  unfold lastLink
  infer_instance

/-- The blocks of an entry are freed. -/
def SFS.freeEntry (s : SFS) (j : Slot) : SFS :=
  s.freeBlocks (s.dir j).start_block (blocks (s.dir j).size)

/-- Entry `i` has the name `new`, which the entry `target` had. -/
structure Renamed (s t : SFS) (i : Slot) (target : Option Slot) (new : Name) : Prop where
  renamed : t.dir i = (s.dir i).setName new
  replaced : ∀ j, target = some j → (t.dir j).flags = false
  others : ∀ k, k ≠ i → target ≠ some k → t.dir k = s.dir k
  freed : ∀ j, target = some j → s.lastLink j → s.open_counts j = 0 → t.space = (s.freeEntry j).space
  kept : (∀ j, target = some j → s.lastLink j → s.open_counts j ≠ 0) → t.space = s.space

/-- What a successful rename leaves; between links of one file, of which `i` itself is one, that is
    what was there. -/
def RenameLaw (s t : SFS) (i : Slot) (target : Option Slot) (new : Name) : Prop :=
  if target.any fun j => (s.dir j).start_block = (s.dir i).start_block then t = s
  else Renamed s t i target new

/-- **A rename that keeps the law**: the replaced entry is another file; and if it is closed, it is
    the last link, or none of its blocks can be freed. -/
def RenameCalm (s : SFS) (i : Slot) (target : Option Slot) : Prop :=
  ∀ j, target = some j → j ≠ i → (s.dir j).start_block ≠ (s.dir i).start_block ∧
    (s.open_counts j = 0 → s.lastLink j ∨ (s.freeEntry j).space = s.space)

/-- The entries have each other's names; the same call swaps them back. -/
structure Exchanged (s t : SFS) (i j : Slot) (old_path new_path : Name) : Prop where
  first : t.dir i = (s.dir i).setName (stripSlash new_path)
  second : t.dir j = (s.dir j).setName (stripSlash old_path)
  others : ∀ k, k ≠ i → k ≠ j → t.dir k = s.dir k
  space : t.space = s.space
  back : t.sfsRename2 old_path new_path SFS.RENAME_EXCHANGE = (s, .ok ())

/-! ## 2. Names -/

theorem hasName_of_lookupLast (h : s.lookupLast old = some i) :
    (s.dir i).flags = true ∧ (s.dir i).name = old := by
  have hname := find?_some h
  simpa [hasName] using hname

/-- The last entry of a name that only one has. -/
theorem lookupLast_eq (hf : (s.dir i).flags = true) (hn : (s.dir i).name = old)
    (hone : ∀ k, (s.dir k).flags = true → (s.dir k).name = old → k = i) :
    s.lookupLast old = some i := by
  have hsome : (s.lookupLast old).isSome = true := by
    rw [lookupLast, find?_isSome]
    exact ⟨i, mem_reverse.2 (mem_finRange i), by simp [hasName, hf, hn]⟩
  obtain ⟨k, hk⟩ := isSome_iff_exists.1 hsome
  obtain ⟨hkf, hkn⟩ := hasName_of_lookupLast hk
  rw [hk, hone k hkf hkn]

/-! ## 3. The entry that is replaced -/

theorem space_freeBlocks (h : t.space = s.space) :
    (t.freeBlocks b n).space = (s.freeBlocks b n).space := by
  induction n with
  | zero => exact h
  | succ n ih =>
    unfold freeBlocks freeBlock
    have hb : (t.freeBlocks b n).bitmap = (s.freeBlocks b n).bitmap := congrArg (·.1) ih
    have hf : (t.freeBlocks b n).free_blocks = (s.freeBlocks b n).free_blocks := congrArg (·.2.1) ih
    have hl : (t.freeBlocks b n).lost = (s.freeBlocks b n).lost := congrArg (·.2.2) ih
    split_ifs
    · exact ih
    · simp only [lose, space, hb, hf]
    · simp only [setBits, space, hb, hf, hl]

theorem removeEntry_dir (s : SFS) (j : Slot) : ((s.removeEntry j).dir j).flags = false ∧
    ∀ k, k ≠ j → (s.removeEntry j).dir k = s.dir k := by
  unfold removeEntry
  dsimp only
  split_ifs
  · exact ⟨(congrArg DirEntry.flags (update_self j (s.dir j).clear s.dir) :),
      fun k hk => update_of_ne hk ..⟩
  · rw [(dir_freeBlocks _ _ _).1]
    exact ⟨(congrArg DirEntry.flags (update_self j { (s.dir j).clear with
      start_block := 0, size := 0 } s.dir) :), fun k hk => update_of_ne hk ..⟩

theorem removeEntry_space (s : SFS) (j : Slot) : (s.removeEntry j).space =
    if s.open_counts j = 0 then (s.freeEntry j).space else s.space := by
  unfold removeEntry
  dsimp only
  change (if 0 < s.open_counts j then _ else _ : SFS).space = _
  by_cases ho : s.open_counts j = 0
  · rw [if_neg (show ¬ 0 < s.open_counts j by omega), if_pos ho]
    exact space_freeBlocks rfl
  · rw [if_pos (Nat.pos_of_ne_zero ho), if_neg ho]
    rfl

/-! ## 4. The calls -/

theorem renameLaw_iff {old_path new_path : Name} (hi : s.lookupLast (stripSlash old_path) = some i)
    (hok : (s.sfsRename old_path new_path).2 = .ok ()) :
    RenameLaw s (s.sfsRename old_path new_path).1 i (s.lookupLast (stripSlash new_path))
        (stripSlash new_path) ↔
      RenameCalm s i (s.lookupLast (stripSlash new_path)) := by
  unfold sfsRename at hok ⊢
  generalize stripSlash old_path = old at hi hok ⊢
  generalize stripSlash new_path = new at hok ⊢
  dsimp only at hok ⊢
  cases hc : checkNames old new with
  | some err =>
    rw [hc] at hok
    cases hok
  | none =>
    rw [hc] at hok
    dsimp only at hok ⊢
    by_cases hne : old = new
    · -- to itself
      subst hne
      rw [hi, if_pos rfl]
      refine iff_of_true ?_ fun j hj hji => absurd (Option.some.inj hj).symm hji
      simp [RenameLaw]
    rw [if_neg hne, hi] at hok ⊢
    unfold renameEntry at hok ⊢
    cases htarget : s.lookupLast new with
    | none =>
      refine iff_of_true ?_ fun j hj => nomatch hj
      exact ⟨update_self .., nofun, fun k hk _ => update_of_ne hk .., nofun, fun _ => rfl⟩
    | some j =>
      rw [htarget] at hok
      dsimp only at hok ⊢
      have hji : j ≠ i := by
        rintro rfl
        exact hne ((hasName_of_lookupLast hi).2.symm.trans (hasName_of_lookupLast htarget).2)
      split_ifs at hok ⊢ with hdir
      obtain ⟨hgone, hrest⟩ := removeEntry_dir s j
      have hj : ∀ e, ((s.removeEntry j).setEntry i e).dir j = (s.removeEntry j).dir j :=
        fun e => update_of_ne hji ..
      have hcalm : RenameCalm s i (some j) ↔ (s.dir j).start_block ≠ (s.dir i).start_block ∧
          (s.open_counts j = 0 → s.lastLink j ∨ (s.freeEntry j).space = s.space) :=
        ⟨fun h => h j rfl hji, fun h k hk _ => Option.some.inj hk ▸ h⟩
      rw [hcalm]
      by_cases hlink : (s.dir j).start_block = (s.dir i).start_block
      · -- a link of the file goes, where nothing should
        refine iff_of_false (fun h => ?_) fun h => h.1 hlink
        rw [RenameLaw, any_some, if_pos (decide_eq_true hlink)] at h
        have hflags := (hj _).symm.trans (congrArg (fun s => s.dir j) h)
        rw [hflags, (hasName_of_lookupLast htarget).1] at hgone
        cases hgone
      have hspace := removeEntry_space s j
      rw [RenameLaw, any_some, decide_eq_false hlink, if_neg (by decide)]
      constructor
      · intro h
        refine ⟨hlink, fun ho => or_iff_not_imp_left.2 fun hlast => ?_⟩
        have hkept := h.kept fun k hk hl => absurd (Option.some.inj hk ▸ hl) hlast
        rw [if_pos ho] at hspace
        exact hspace.symm.trans hkept
      · intro ⟨_, h⟩
        refine ⟨(update_self ..).trans (congrArg (·.setName new) (hrest i hji.symm)), ?_, ?_, ?_, ?_⟩
        · intro k hk
          obtain rfl := Option.some.inj hk
          rw [hj]
          exact hgone
        · intro k hki hkj
          exact (update_of_ne hki ..).trans (hrest k fun e => hkj (congrArg some e.symm))
        · intro k hk _ ho
          obtain rfl := Option.some.inj hk
          rw [if_pos ho] at hspace
          exact hspace
        · intro hk
          refine Eq.trans hspace ?_
          split_ifs with ho
          · exact (h ho).resolve_left fun hl => hk j rfl hl ho
          · rfl

theorem setName_self {e : DirEntry} (h : e.name = new) : e.setName new = e := by
  subst h
  rfl

theorem exchanged {old_path new_path : Name} (hi : s.lookupLast (stripSlash old_path) = some i)
    (hj : s.lookupLast (stripSlash new_path) = some j)
    (hok : (s.sfsRename2 old_path new_path SFS.RENAME_EXCHANGE).2 = .ok ())
    (hone : ∀ k, (s.dir k).flags = true → ((s.dir k).name = stripSlash old_path → k = i) ∧
      ((s.dir k).name = stripSlash new_path → k = j)) :
    Exchanged s (s.sfsRename2 old_path new_path SFS.RENAME_EXCHANGE).1 i j old_path new_path := by
  obtain ⟨hif, hin⟩ := hasName_of_lookupLast hi
  obtain ⟨hjf, hjn⟩ := hasName_of_lookupLast hj
  have hcheck : checkNames (stripSlash old_path) (stripSlash new_path) = none := by
    unfold sfsRename2 at hok
    cases hc : checkNames (stripSlash old_path) (stripSlash new_path) with
    | none => rfl
    | some err =>
      simp only [hc] at hok
      cases hok
  by_cases hne : stripSlash old_path = stripSlash new_path
  · have hself : s.sfsRename2 old_path new_path SFS.RENAME_EXCHANGE = (s, .ok ()) := by
      simp only [sfsRename2, hcheck, if_pos hne]
    have hij : i = j := Option.some.inj (hi.symm.trans ((congrArg s.lookupLast hne).trans hj))
    subst hij
    rw [hself]
    exact ⟨(setName_self hjn).symm, (setName_self hin).symm, fun _ _ _ => rfl, rfl, hself⟩
  have hij : i ≠ j := fun e => hne (hin.symm.trans ((congrArg (fun k => (s.dir k).name) e).trans hjn))
  -- what the call does where it finds the two names
  have hcall : ∀ {r : SFS} {a b : Slot}, r.lookupLast (stripSlash old_path) = some a →
      r.lookupLast (stripSlash new_path) = some b →
      r.sfsRename2 old_path new_path SFS.RENAME_EXCHANGE = (r.exchange a b, .ok ()) := by
    intro r a b ha hb
    simp only [sfsRename2, hcheck, if_neg hne, ha, hb]
    rfl
  rw [hcall hi hj]
  have hdi : (s.exchange i j).dir i = (s.dir i).setName (stripSlash new_path) := by
    rw [← hjn]
    exact (update_of_ne hij ..).trans (update_self ..)
  have hdj : (s.exchange i j).dir j = (s.dir j).setName (stripSlash old_path) := by
    rw [← hin]
    exact update_self ..
  have hdk : ∀ k, k ≠ i → k ≠ j → (s.exchange i j).dir k = s.dir k := fun k hki hkj =>
    (update_of_ne hkj ..).trans (update_of_ne hki ..)
  have hback₁ : (s.exchange i j).lookupLast (stripSlash old_path) = some j := by
    refine lookupLast_eq (by rw [hdj]; exact hjf) (by rw [hdj]; rfl) fun k hf hn => ?_
    by_contra hkj
    by_cases hki : k = i
    · rw [hki, hdi] at hn
      exact hne hn.symm
    · rw [hdk k hki hkj] at hf hn
      exact hki ((hone k hf).1 hn)
  have hback₂ : (s.exchange i j).lookupLast (stripSlash new_path) = some i := by
    refine lookupLast_eq (by rw [hdi]; exact hif) (by rw [hdi]; rfl) fun k hf hn => ?_
    by_contra hki
    by_cases hkj : k = j
    · rw [hkj, hdj] at hn
      exact hne hn
    · rw [hdk k hki hkj] at hf hn
      exact hkj ((hone k hf).2 hn)
  refine ⟨hdi, hdj, hdk, rfl, (hcall hback₁ hback₂).trans (congrArg (·, _) ?_)⟩
  have hdir : ((s.exchange i j).exchange j i).dir = s.dir := by
    funext k
    change update (update (s.exchange i j).dir j _) i _ k = _
    by_cases hki : k = i
    · rw [hki, update_self, hdi, hdj]
      exact setName_self hin
    rw [update_of_ne hki]
    by_cases hkj : k = j
    · rw [hkj, update_self, hdi, hdj]
      exact setName_self hjn
    · rw [update_of_ne hkj, hdk k hki hkj]
  show { s with dir := ((s.exchange i j).exchange j i).dir } = s
  rw [hdir]

/-- **A rename keeps the law exactly if it is calm. An exchange of two names that one entry each has
    swaps them, and twice is nothing.** -/
theorem renames (s : SFS) (old_path new_path : Name) (i : Slot)
    (hi : s.lookupLast (stripSlash old_path) = some i) :
    ((s.sfsRename old_path new_path).2 = .ok () →
      (RenameLaw s (s.sfsRename old_path new_path).1 i (s.lookupLast (stripSlash new_path))
          (stripSlash new_path) ↔
        RenameCalm s i (s.lookupLast (stripSlash new_path)))) ∧
    ∀ j, s.lookupLast (stripSlash new_path) = some j →
      (s.sfsRename2 old_path new_path SFS.RENAME_EXCHANGE).2 = .ok () →
      (∀ k, (s.dir k).flags = true → ((s.dir k).name = stripSlash old_path → k = i) ∧
        ((s.dir k).name = stripSlash new_path → k = j)) →
      Exchanged s (s.sfsRename2 old_path new_path SFS.RENAME_EXCHANGE).1 i j old_path new_path :=
  ⟨renameLaw_iff hi, fun _ hj hok hone => exchanged hi hj hok hone⟩

/-- Two files, of which `b` takes the place of `a`. -/
def twoFiles : SFS := sfs.exec format [create nameA, .sfsClose 0, create nameB, .sfsClose 0]

theorem renames_twoFiles : RenameLaw twoFiles (twoFiles.sfsRename nameB nameA).1 1 (some 0) nameA ∧
      Exchanged twoFiles (twoFiles.sfsRename2 nameB nameA SFS.RENAME_EXCHANGE).1 1 0 nameB nameA := by
  obtain ⟨hrename, hexchange⟩ := renames twoFiles nameB nameA 1 (by decide +kernel)
  refine ⟨(hrename (by decide +kernel)).2 fun j hj _ => ?_,
    hexchange 0 (by decide +kernel) (by decide +kernel) (by decide +kernel)⟩
  obtain rfl : j = 0 := Option.some.inj (hj.symm.trans (by decide +kernel))
  exact ⟨by decide +kernel, fun _ => .inl (by decide +kernel)⟩

/-- A file with two links. -/
def twoLinks : SFS := sfs.exec format [create nameA, .sfsClose 0, .sfsLink nameA nameB]

/-- **Not every rename keeps it**: between two links of a file one of them goes, and the block of
    the other is free. -/
theorem renames_refuted : ¬ ∀ (s : SFS) (old_path new_path : Name) (i : Slot),
    s.lookupLast (stripSlash old_path) = some i →
    (s.sfsRename old_path new_path).2 = .ok () →
    RenameLaw s (s.sfsRename old_path new_path).1 i (s.lookupLast (stripSlash new_path))
      (stripSlash new_path) := by
  intro h
  have hlaw := h twoLinks nameA nameB 0 (by decide +kernel) (by decide +kernel)
  have hlink : (twoLinks.lookupLast (stripSlash nameB)).any (fun j =>
      (twoLinks.dir j).start_block = (twoLinks.dir 0).start_block) = true := by decide +kernel
  rw [RenameLaw, if_pos hlink] at hlaw
  have hflags := congrArg (fun s => (s.dir 1).flags) hlaw
  exact absurd hflags (by decide +kernel)

end Zigk.Sfs
