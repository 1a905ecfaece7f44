/-
  Subject:   THE BLOCKS OF A VOLUME OVER RUNS: what calm steps keep, and what growth breaks.

  * **`blockOwnership`**, **`spaceAccounting`** -- in every run of calm steps;
    `blockOwnership_refuted`, `spaceAccounting_refuted` -- a file of two blocks.
-/
import Zigk.Fs.SfsVolume

namespace Zigk.Sfs

open Function List SFS

variable {s t : SFS} {i j : Slot} {b c : Nat} {e : DirEntry} {f g : SfsFile} {k : Nat}

/-! ## 1. The invariant -/

/-- The links of an entry are the slots that hold its block. -/
def Linked (s : SFS) : Prop :=
  ∀ i, (s.dir i).flags = true → (s.dir i).effective_nlink = (s.holds i).elim 1 (holders s.holds)

structure Inv (s : SFS) : Prop where
  volume : Volume s
  linked : Linked s
  /-- A deferred deletion waits for a descriptor. -/
  waits : ∀ i, s.pending_delete i = true → 0 < s.open_counts i

namespace Linked

theorem links_eq (h : Linked s) (hf : (s.dir i).flags = true) (hb : s.holds i = some b) :
    (s.dir i).effective_nlink = holders s.holds b := by
  rw [h i hf, hb]
  rfl

/-- With one link the slot is the only one of its block. -/
theorem only (h : Linked s) (hf : (s.dir i).flags = true) (hn : (s.dir i).effective_nlink ≤ 1)
    (hb : s.holds i = some b) (hj : s.holds j = some b) : j = i := by
  have hlinks := h.links_eq hf hb
  have hpos := holders_pos hb
  exact eq_of_holders_one (by omega) hb hj

/-- Away from slot `i` nothing changed, and no other entry has a block whose slots changed. -/
theorem of_others (h : Linked s) (hdir : ∀ j, j ≠ i → t.dir j = s.dir j)
    (hholds : ∀ j, j ≠ i → t.holds j = s.holds j)
    (hcount : ∀ j c, j ≠ i → s.holds j = some c → holders t.holds c = holders s.holds c)
    (hself : (t.dir i).flags = true →
      (t.dir i).effective_nlink = (t.holds i).elim 1 (holders t.holds)) : Linked t := by
  intro j hj
  by_cases hji : j = i
  · subst hji
    exact hself hj
  rw [hdir j hji] at hj ⊢
  rw [hholds j hji, h j hj]
  cases hb : s.holds j with
  | none => rfl
  | some c => exact (hcount j c hji hb).symm

/-- Slot `i` lets go of what only it holds. -/
theorem vacate (h : Linked s) (hdir : ∀ j, j ≠ i → t.dir j = s.dir j)
    (hholds : t.holds = update s.holds i none)
    (honly : ∀ b j, s.holds i = some b → s.holds j = some b → j = i)
    (hf : (t.dir i).flags = false) : Linked t := by
  refine h.of_others hdir ?_ ?_ (fun hj => by rw [hf] at hj; cases hj)
  · intro j hj
    rw [hholds, update_of_ne hj]
  intro j c hj hc
  rw [hholds]
  cases hb : s.holds i with
  | none => rw [← hb, update_eq_self]
  | some b =>
    rw [holders_update_none hb, if_neg, Nat.add_zero]
    intro hbc
    exact hj (honly b j hb (hbc ▸ hc))

/-- Slot `i` takes a block that nobody holds. -/
theorem fill (h : Linked s) (hdir : ∀ j, j ≠ i → t.dir j = s.dir j)
    (hholds : t.holds = update s.holds i (some b)) (hi : s.holds i = none)
    (hclear : ∀ j, s.holds j ≠ some b) (hn : (t.dir i).effective_nlink = 1) : Linked t := by
  refine h.of_others hdir ?_ ?_ (fun _ => ?_)
  · intro j hj
    rw [hholds, update_of_ne hj]
  · intro j c hj hc
    rw [hholds, holders_update_some hi, if_neg, Nat.add_zero]
    intro hbc
    exact hclear j (hbc ▸ hc)
  · rw [hn, hholds, update_self]
    change 1 = holders _ b
    rw [holders_update_some hi, if_pos rfl, holders_none hclear]

end Linked

namespace Inv

section

variable (h : Inv s)
include h

/-- The invariant does not read the other counters. -/
theorem congr (hdir : t.dir = s.dir) (hbits : t.bitmap = s.bitmap)
    (hfree : t.free_blocks = s.free_blocks) (hpend : t.pending_delete = s.pending_delete)
    (hinfo : ∀ i, s.pending_delete i = true → t.deferred_info i = s.deferred_info i)
    (hopens : t.open_counts = s.open_counts) (hfiles : t.files = s.files) : Inv t := by
  obtain ⟨hv, hl, hw⟩ := h
  cases s
  cases t
  dsimp only at hdir hbits hfree hpend hinfo hopens hfiles
  subst hdir hbits hfree hpend hopens hfiles
  refine ⟨⟨hv.exact, hv.balance, hv.range, hv.alone, hv.dirs, ?_, hv.opens, hv.opened, hv.roots,
    hv.small, hv.smallFiles⟩, hl, hw⟩
  intro i hi
  exact ⟨(hv.pending i hi).1, (hinfo i hi).trans (hv.pending i hi).2⟩

theorem relabel {d : Slot → DirEntry} (hd : ∀ i, (d i).Like (s.dir i))
    (hn : ∀ i, (d i).nlink = (s.dir i).nlink) (hs : ∀ i, (d i).size ≤ 512) : Inv (s.setDir d) := by
  refine ⟨h.volume.relabel hd hs, ?_, h.waits⟩
  intro i hi
  rw [holds_setDir hd, ← h.linked i ((hd i).flags.symm.trans hi)]
  exact congrArg (fun n => if n = 0 then 1 else n) (hn i)

theorem relabelEntry (hlike : e.Like (s.dir i)) (hn : e.nlink = (s.dir i).nlink)
    (hs : e.size ≤ 512) : Inv (s.setEntry i e) := by
  have hcase : ∀ (P : DirEntry → DirEntry → Prop), P e (s.dir i) →
      (∀ j, P (s.dir j) (s.dir j)) → ∀ j, P (update s.dir i e j) (s.dir j) := by
    intro P hi hrest j
    by_cases hj : j = i
    · subst hj
      rw [update_self]
      exact hi
    · rw [update_of_ne hj]
      exact hrest j
  exact h.relabel (hcase DirEntry.Like hlike fun _ => ⟨rfl, rfl, rfl, rfl⟩)
    (hcase (fun e e' => e.nlink = e'.nlink) hn fun _ => rfl)
    (hcase (fun e _ => e.size ≤ 512) hs fun j => h.volume.small j)

theorem setSize (i : Slot) {size : Nat} (hs : size ≤ 512) :
    Inv (s.setEntry i ((s.dir i).setSize size)) :=
  h.relabelEntry ⟨rfl, rfl, rfl, rfl⟩ rfl hs

theorem setName (i : Slot) (name : Name) : Inv (s.setEntry i ((s.dir i).setName name)) :=
  h.relabelEntry ⟨rfl, rfl, rfl, rfl⟩ rfl (h.volume.small i)

theorem exchange (i j : Slot) : Inv (s.exchange i j) := by
  refine (h.setName i (s.dir j).name).relabelEntry ?_ ?_ (h.volume.small j)
  · by_cases hj : j = i
    · subst hj
      rw [dir_setEntry_self]
      exact ⟨rfl, rfl, rfl, rfl⟩
    · rw [dir_setEntry_ne _ _ hj]
      exact ⟨rfl, rfl, rfl, rfl⟩
  · by_cases hj : j = i
    · rw [hj, dir_setEntry_self]
    · rw [dir_setEntry_ne _ _ hj]
      rfl

theorem setFile (hk : s.files[k]? = some f) (hg : g.Like f) (hs : g.size ≤ 512) :
    Inv (s.setFile k g) :=
  ⟨h.volume.setFile hk hg hs, h.linked, h.waits⟩

theorem installRoot : Inv (s.install rootFile) := ⟨h.volume.installRoot, h.linked, h.waits⟩

theorem installFile (hi : s.kept i = true) (position : Nat) :
    Inv ((s.setCount i (s.open_counts i + 1)).install (s.fileOf i position)) := by
  refine ⟨h.volume.installFile hi position, h.linked, ?_⟩
  intro j hj
  change 0 < update s.open_counts i _ j
  by_cases hji : j = i
  · subst hji
    rw [update_self]
    exact Nat.succ_pos _
  · rw [update_of_ne hji]
    exact h.waits j hj

theorem pending_of_closed (hi : s.open_counts i = 0) : s.pending_delete i = false := by
  cases hp : s.pending_delete i with
  | false => rfl
  | true => exact absurd (h.waits i hp) (by omega)

end

theorem holds_entry (hf : (s.dir i).flags = true) : s.holds i = (s.dir i).block := by
  unfold holds
  rw [if_pos (kept_of_flags hf)]

end Inv

/-- The invariant after an operation from `s`, and what the operation handed out was clear. -/
def Good (s t : SFS) : Prop := Inv t ∧ ∀ b ∈ t.handed, s.bit b = false

theorem Good.of_none (h : Inv t) (hn : t.handed = []) : Good s t :=
  ⟨h, fun b hb => by rw [hn] at hb; cases hb⟩

/-! ## 2. Directory entries -/

/-- An entry that holds no block is written into, or cleared from, a slot that nobody has open. -/
theorem Inv.setUnheld (h : Inv s) (hi : s.open_counts i = 0) (hh : s.holds i = none)
    (hsize : e.size ≤ 512) (he : e.flags = true → e.block = none ∧ e.start_block = 0 ∧
      e.effective_nlink = 1) : Inv (s.setEntry i e) := by
  have hpend := h.pending_of_closed hi
  have hnone : (if e.flags then e.block else none) = none := by
    cases hf : e.flags with
    | false => rfl
    | true => exact (he hf).1
  have hself : update s.holds i none = s.holds := by rw [← hh, update_eq_self]
  have hholds : (s.setEntry i e).holds = s.holds := by
    rw [holds_setEntry, hpend, Bool.or_false, hnone, hself]
  refine ⟨h.volume.setSlot hi hpend hsize (B := s.bitmap) (F := s.free_blocks) ?_
    h.volume.balance ?_ ?_ ?_, ?_, h.waits⟩
  · rw [hnone, hself]
    exact h.volume.exact
  · intro b hf hb
    rw [(he hf).1] at hb
    cases hb
  · exact fun hf _ => (he hf).2.1
  · intro j b _ hf hb
    rw [(he hf).1] at hb
    cases hb
  · refine h.linked.of_others (fun j hj => s.dir_setEntry_ne e hj) (fun j _ => by rw [hholds])
      (fun j c _ _ => by rw [hholds]) fun hf => ?_
    rw [hholds, hh]
    rw [dir_setEntry_self] at hf ⊢
    exact (he hf).2.2

/-- A new entry with a block from the allocator. -/
theorem Inv.setFresh (h : Inv s) (hk : s.kept i = false)
    (hb : DATA_START_BLOCK ≤ b ∧ b < DATA_START_BLOCK + BITMAP_BITS) (hc : s.bit b = false)
    (hsize : e.size ≤ 512) (hf : e.flags = true) (hblock : e.block = some b)
    (hn : e.effective_nlink = 1) :
    Inv ((s.setBits (update s.bitmap (b - DATA_START_BLOCK) true)
      (s.free_blocks - 1)).setEntry i e) := by
  have hi := h.volume.open_counts_eq_zero hk
  have hpend := h.pending_of_closed hi
  have hnone := holds_of_not_kept hk
  have hclear := h.volume.exact.ne_of_clear hc
  obtain ⟨hexact, hbal⟩ := h.volume.take hnone hb hc
  have hheld : (if e.flags then e.block else none) = some b := by rw [hf, hblock, if_pos rfl]
  refine ⟨h.volume.setSlot hi hpend hsize ?_ hbal ?_ ?_ ?_, ?_, h.waits⟩
  · rw [hheld]
    exact hexact
  · intro c _ hcb
    rw [hblock] at hcb
    cases hcb
    exact hb
  · intro _ hd
    rw [(block_eq_some.1 hblock).1] at hd
    cases hd
  · intro j c _ _ hcb hj
    rw [hblock] at hcb
    cases hcb
    exact absurd hj (hclear j)
  · refine h.linked.fill (i := i) (b := b) (fun j hj => dir_setEntry_ne _ _ hj) ?_ hnone
      hclear ?_
    · rw [holds_setEntry]
      change update s.holds i (if e.flags || s.pending_delete i then _ else _) = _
      rw [hpend, Bool.or_false, hheld]
    · rw [dir_setEntry_self]
      exact hn

/-- The last link of a file that nobody has open goes, and its block with it. -/
theorem Inv.clearLast (h : Inv s) (hi : s.open_counts i = 0) (hfl : (s.dir i).flags = true)
    (hn : (s.dir i).effective_nlink ≤ 1) (hb : s.holds i = some b) (hsize : e.size ≤ 512)
    (hf : e.flags = false) :
    Inv ((s.setBits (update s.bitmap (b - DATA_START_BLOCK) false)
      (min (s.free_blocks + 1) U32_MAX)).setEntry i e) := by
  have hpend := h.pending_of_closed hi
  have honly : ∀ j, s.holds j = some b → j = i := fun j hj => h.linked.only hfl hn hb hj
  obtain ⟨hexact, hbal⟩ := h.volume.give hb honly
  refine ⟨h.volume.setSlot hi hpend hsize ?_ hbal ?_ ?_ ?_, ?_, h.waits⟩
  · rw [hf, if_neg Bool.false_ne_true]
    exact hexact
  · exact fun _ he => by rw [hf] at he; cases he
  · exact fun he => by rw [hf] at he; cases he
  · exact fun _ _ _ he => by rw [hf] at he; cases he
  refine h.linked.vacate (i := i) (fun j hj => dir_setEntry_ne _ _ hj) ?_ ?_ ?_
  · rw [holds_setEntry]
    change update s.holds i (if e.flags || s.pending_delete i then _ else _) = _
    rw [hpend, hf, Bool.or_false, if_neg Bool.false_ne_true]
  · intro c j hc hj
    rw [hb] at hc
    cases hc
    exact honly j hj
  · rw [dir_setEntry_self]
    exact hf

/-- The last link of an open file goes. -/
theorem Inv.defer (h : Inv s) (hi : 0 < s.open_counts i) (hfl : (s.dir i).flags = true)
    (hn : (s.dir i).effective_nlink ≤ 1) :
    Inv ((s.setEntry i (s.dir i).clear).setPending i true ⟨(s.dir i).start_block, 1⟩) := by
  have honly : ∀ j b, s.holds i = some b → s.holds j = some b → j = i :=
    fun j b hb hj => h.linked.only hfl hn hb hj
  refine ⟨h.volume.defer hfl honly, ?_, ?_⟩
  · refine h.linked.of_others (i := i) (fun j hj => update_of_ne hj ..) ?_ ?_ ?_
    · intro j _
      rw [holds_defer hfl]
    · intro j c _ _
      rw [holds_defer hfl]
    intro hself
    have : ((s.dir i).clear).flags = true := by
      rwa [← s.dir_setEntry_self i (s.dir i).clear]
    cases this
  · intro j hj
    by_cases hji : j = i
    · subst hji
      exact hi
    · refine h.waits j ?_
      rwa [← update_of_ne hji true s.pending_delete]

/-- Slot `i` joins the links of a block, or leaves them, and its entries get the new number. -/
theorem Linked.sync (h : Linked s) {n : Nat} (hn : n ≠ 0)
    (hdir : ∀ k, k ≠ i → t.dir k = s.dir k) (hholds : ∀ k, k ≠ i → t.holds k = s.holds k)
    (hcount : ∀ k c, k ≠ i → c ≠ b → s.holds k = some c →
      holders t.holds c = holders s.holds c) (hlinks : holders t.holds b = n)
    (hself : (t.dir i).flags = true → t.holds i = some b)
    (hstart : ∀ k, (t.dir k).flags = true → ((t.dir k).start_block = b ↔ t.holds k = some b)) :
    Linked (t.syncLinks b n) := by
  have hd : ∀ k, (t.dir k).flags = true → t.holds k = some b →
      (t.syncLinks b n).dir k = (t.dir k).setNlink n := by
    intro k hf hk
    refine if_pos ?_
    rw [hf, decide_eq_true ((hstart k hf).2 hk)]
    rfl
  have hd' : ∀ k, (t.dir k).flags = true → t.holds k ≠ some b →
      (t.syncLinks b n).dir k = t.dir k := by
    intro k hf hk
    refine if_neg ?_
    rw [decide_eq_false (fun he => hk ((hstart k hf).1 he)), Bool.and_false]
    exact Bool.false_ne_true
  have hsame := holds_syncLinks t b n
  intro k hk
  rw [flags_syncLinks] at hk
  rw [hsame]
  by_cases hkb : t.holds k = some b
  · rw [hd k hk hkb, hkb]
    change (if n = 0 then 1 else n) = _
    rw [if_neg hn]
    exact hlinks.symm
  have hki : k ≠ i := by
    intro he
    subst he
    exact hkb (hself hk)
  rw [hd' k hk hkb, hdir k hki, hholds k hki]
  rw [hdir k hki] at hk
  rw [h k hk]
  cases hc : s.holds k with
  | none => rfl
  | some c =>
    refine (hcount k c hki ?_ hc).symm
    intro he
    rw [hholds k hki, hc, he] at hkb
    exact hkb rfl

/-- Directories start at no block. -/
theorem Volume.start_iff (h : Volume s) (hb : DATA_START_BLOCK ≤ b) (hf : (s.dir i).flags = true) :
    (s.dir i).start_block = b ↔ s.holds i = some b := by
  rw [Inv.holds_entry hf, block_eq_some]
  constructor
  · intro hs
    refine ⟨?_, hs⟩
    cases hd : (s.dir i).isDirectory with
    | false => rfl
    | true =>
      have h0 := h.dirs i (kept_of_flags hf) hd
      have hpos : 0 < DATA_START_BLOCK := by decide
      omega
  · exact fun hs => hs.2

theorem Volume.syncLinks (h : Volume s) (b n : Nat) : Volume (s.syncLinks b n) := by
  refine h.relabel (s.like_syncLinks b n) fun i => ?_
  split_ifs
  · exact h.small i
  · exact h.small i

/-- A new link to the file of slot `j`. -/
theorem Inv.link (h : Inv s) (hj : (s.dir j).flags = true) (hd : (s.dir j).isDirectory = false)
    (hk : s.kept i = false) (name : Name) :
    Inv ((s.setEntry i (((s.dir j).setName name).setNlink
      ((s.dir j).effective_nlink + 1))).syncLinks (s.dir j).start_block
        ((s.dir j).effective_nlink + 1)) := by
  set n := (s.dir j).effective_nlink + 1
  set e := ((s.dir j).setName name).setNlink n
  set b := (s.dir j).start_block
  have hi := h.volume.open_counts_eq_zero hk
  have hpend := h.pending_of_closed hi
  have hnone := holds_of_not_kept hk
  have hb : s.holds j = some b := by
    rw [Inv.holds_entry hj, block_eq_some]
    exact ⟨hd, rfl⟩
  have hblock : e.block = some b := block_eq_some.2 ⟨hd, rfl⟩
  have hheld : (if e.flags then e.block else none) = some b := by
    rw [hblock]
    exact if_pos hj
  have hrange := h.volume.range j b hb
  have hholds : (s.setEntry i e).holds = update s.holds i (some b) := by
    rw [holds_setEntry, hpend, Bool.or_false, hheld]
  have hvol : Volume (s.setEntry i e) := by
    have hsize : e.size ≤ 512 := h.volume.small j
    refine h.volume.setSlot hi hpend hsize (B := s.bitmap) (F := s.free_blocks) ?_
      h.volume.balance ?_ ?_ ?_
    · rw [hheld]
      exact h.volume.exact.share hnone hb
    · intro c _ hc
      rw [hblock] at hc
      cases hc
      exact hrange
    · intro _ hdir
      rw [(block_eq_some.1 hblock).1] at hdir
      cases hdir
    · intro k c _ _ hc hkc
      rw [hblock] at hc
      cases hc
      by_cases hkj : k = j
      · rw [hkj]
        exact ⟨hj, rfl⟩
      · exact h.volume.alone k j b hkc hb hkj
  refine ⟨hvol.syncLinks b n, ?_, h.waits⟩
  refine h.linked.sync (i := i) (Nat.succ_ne_zero _) (fun k hki => s.dir_setEntry_ne e hki) ?_ ?_ ?_
    ?_ fun k hf => hvol.start_iff hrange.1 hf
  · intro k hki
    rw [hholds, update_of_ne hki]
  · intro k c _ hcb _
    rw [hholds, holders_update_some hnone, if_neg (Ne.symm hcb), Nat.add_zero]
  · rw [hholds, holders_update_some hnone, if_pos rfl, ← h.linked.links_eq hj hb]
  · intro _
    rw [hholds, update_self]

/-- One of several links goes. -/
theorem Inv.dropLink (h : Inv s) (hi : s.open_counts i = 0) (hfl : (s.dir i).flags = true)
    (hn : 1 < (s.dir i).effective_nlink) :
    Inv ((s.setEntry i (s.dir i).clear).syncLinks (s.dir i).start_block
      ((s.dir i).effective_nlink - 1)) := by
  set e := (s.dir i).clear
  set b := (s.dir i).start_block
  have hpend := h.pending_of_closed hi
  have hb : s.holds i = some b := by
    cases hh : s.holds i with
    | none =>
      have := h.linked i hfl
      rw [hh] at this
      exact absurd this hn.ne'
    | some c => exact congrArg some (holds_eq_some.1 hh).2.2.symm
  have hlinks := h.linked.links_eq hfl hb
  obtain ⟨j, hji, hj⟩ := exists_other (hlinks ▸ hn) i
  have hholds : (s.setEntry i e).holds = update s.holds i none := by
    rw [holds_setEntry, hpend]
    rfl
  have hvol : Volume (s.setEntry i e) := by
    have hsize : e.size ≤ 512 := h.volume.small i
    have hf : ¬ e.flags = true := Bool.false_ne_true
    refine h.volume.setSlot hi hpend hsize (B := s.bitmap) (F := s.free_blocks) ?_
      h.volume.balance (fun _ he => absurd he hf) (fun he => absurd he hf)
      (fun _ _ _ he => absurd he hf)
    exact h.volume.exact.leave hji (hj.trans hb.symm)
  refine ⟨hvol.syncLinks b _, ?_, h.waits⟩
  refine h.linked.sync (i := i) (by omega) (fun k hki => s.dir_setEntry_ne e hki) ?_ ?_ ?_ ?_
    fun k hf => hvol.start_iff (h.volume.range i b hb).1 hf
  · intro k hki
    rw [hholds, update_of_ne hki]
  · intro k c _ hcb _
    rw [hholds, holders_update_none (c := c) hb, if_neg (Ne.symm hcb), Nat.add_zero]
  · have hdrop := holders_update_none (c := b) hb
    rw [if_pos rfl] at hdrop
    rw [hholds]
    omega
  · intro hf
    rw [dir_setEntry_self] at hf
    cases hf

/-! ## 3. Opening and closing -/

theorem SFS.flags_of_lookup {name : Name} (h : s.lookup name = some i) :
    (s.dir i).flags = true := by
  have hname := find?_some h
  exact (Bool.and_eq_true_iff.1 hname).1

theorem SFS.flags_of_lookupLast {name : Name} (h : s.lookupLast name = some i) :
    (s.dir i).flags = true := by
  have hname := find?_some h
  exact (Bool.and_eq_true_iff.1 hname).1

theorem SFS.flags_of_freeSlot (h : s.freeSlot = some i) : (s.dir i).flags = false := by
  have hfree := find?_some h
  simpa using hfree

/-- The slot of a new entry is not kept for a deletion. -/
theorem SFS.kept_of_freeSlot (h : s.freeSlot = some i) (hc : s.file_count < MAX_FILES)
    (hr : s.reusesPending = false) : s.kept i = false := by
  refine kept_eq_false.2 ⟨flags_of_freeSlot h, ?_⟩
  unfold reusesPending at hr
  rw [h, decide_eq_true hc, Bool.true_and] at hr
  exact hr

theorem SFS.isNew_of {name : Name} (hv : ¬ (!isValidFilename name) = true)
    (hlen : ¬ 32 ≤ name.length) (hl : s.lookup name = none) : s.isNew name = true := by
  have hlt := not_le.1 hlen
  simp only [Bool.not_eq_true, Bool.not_eq_false'] at hv
  simp [isNew, hl, hlt, hv]

theorem SFS.isNew_of_checkNames {old_name new_name : Name}
    (h : checkNames old_name new_name = none) (hl : s.lookup new_name = none) :
    s.isNew new_name = true := by
  unfold checkNames at h
  split_ifs at h with hv hold hnew
  refine isNew_of (fun hnv => hv ?_) hnew hl
  rw [hnv, Bool.or_true]

theorem DirEntry.not_directory (h : e.isRegularFile = true) : e.isDirectory = false := by
  have hm : e.mode = .S_IFREG := of_decide_eq_true h
  unfold DirEntry.isDirectory
  rw [hm]
  rfl

namespace Inv

theorem truncEntry (h : Inv s) (i : Slot) (flags : Nat) : Inv (s.truncEntry i flags) := by
  unfold SFS.truncEntry
  split_ifs
  · exact h.setSize i (Nat.zero_le _)
  · exact h

/-- A block is handed out and given back. -/
theorem takeBack (h : Inv s) (ha : s.allocateBlock = some (b, t)) : Good s (t.freeBlock b) := by
  obtain ⟨hb, hc, ht⟩ := allocateBlock_some ha
  have hclear : s.bitmap (b - DATA_START_BLOCK) = false := by
    simpa [bit, hb.1] using hc
  have hlt := marked_lt (mem_dataBlocks hb) hc
  have hbal := h.volume.balance
  have hcard : dataBlocks.card ≤ U32_MAX := by
    rw [dataBlocks, Nat.card_Ico]
    decide
  rw [freeBlock_of_range hb, ht]
  refine ⟨h.congr rfl ?_ ?_ rfl (fun _ _ => rfl) rfl rfl, ?_⟩
  · change update (update s.bitmap _ true) _ false = _
    rw [update_idem, ← hclear, update_eq_self]
  · change min (s.free_blocks - 1 + 1) U32_MAX = _
    omega
  · intro c hcb
    rw [mem_singleton.1 hcb]
    exact hc

/-- A new entry with a block: `t` is the volume with the block handed out. -/
theorem addEntry (h : Inv s) (ha : s.allocateBlock = some (b, t)) (hk : s.kept i = false)
    (name : Name) {size : Nat} (hsize : size ≤ 512) {mode : FileType} (hm : mode ≠ .S_IFDIR) :
    Inv (t.addEntry i (t.newEntry name b size mode)) := by
  obtain ⟨hb, hc, ht⟩ := allocateBlock_some ha
  have hblock : (t.newEntry name b size mode).block = some b := by
    refine block_eq_some.2 ⟨decide_eq_false hm, rfl⟩
  have hfresh := h.setFresh hk hb hc (e := t.newEntry name b size mode) hsize rfl hblock rfl
  subst ht
  exact hfresh.congr rfl rfl rfl rfl (fun _ _ => rfl) rfl rfl

/-- The last `close` of an unlinked file. -/
theorem finishDelete (hv : Volume s) (hl : Linked s) (hclosed : s.open_counts i = 0)
    (hp : s.pending_delete i = true)
    (hw : ∀ j, j ≠ i → s.pending_delete j = true → 0 < s.open_counts j) :
    Inv ((s.setPending i false {}).freeBlocks (s.deferred_info i).start_block
      (s.deferred_info i).block_count) := by
  obtain ⟨hf, hinfo⟩ := hv.pending i hp
  have hkept := kept_of_pending hp
  have honly : ∀ b j, s.holds i = some b → s.holds j = some b → j = i := by
    intro b j hb hj
    by_contra hne
    have := (hv.alone i j b hb hj (Ne.symm hne)).1
    rw [hf] at this
    cases this
  -- the slot lets go, whichever bits follow
  have hdone : ∀ B F, Exact (update s.holds i none) (s.setBits B F).bit →
      F + marked dataBlocks (s.setBits B F).bit = dataBlocks.card →
      Inv ((s.setPending i false {}).setBits B F) := by
    intro B F hexact hbal
    refine ⟨hv.discard hclosed hf hexact hbal, ?_, ?_⟩
    · exact hl.vacate (fun j _ => rfl) (holds_discard hf {}) honly hf
    intro j hj
    change update s.pending_delete i false j = true at hj
    by_cases hji : j = i
    · rw [hji, update_self] at hj
      cases hj
    · rw [update_of_ne hji] at hj
      exact hw j hji hj
  rw [hinfo, freeBlocks_one]
  cases hb : s.holds i with
  | none =>
    have hd : (s.dir i).isDirectory = true := by
      by_contra hd
      rw [holds_eq_some.2 ⟨hkept, Bool.eq_false_of_not_eq_true hd, rfl⟩] at hb
      cases hb
    rw [hv.dirs i hkept hd]
    refine hdone s.bitmap s.free_blocks ?_ hv.balance
    rw [← hb, update_eq_self]
    exact hv.exact
  | some b =>
    rw [(holds_eq_some.1 hb).2.2, freeBlock_of_range (hv.range i b hb)]
    obtain ⟨hexact, hbal⟩ := hv.give hb fun j hj => honly b j hb hj
    exact hdone _ _ hexact hbal

theorem handed_of_allocate (ha : s.allocateBlock = some (b, t)) :
    ∀ c ∈ t.handed, s.bit c = false := by
  obtain ⟨-, hc, ht⟩ := allocateBlock_some ha
  intro c hcb
  rw [ht] at hcb
  rw [mem_singleton.1 hcb]
  exact hc

end Inv

namespace Good

section

variable (h : Inv s)
include h

theorem openEntry (hn : s.handed = []) (hi : (s.dir i).flags = true) (flags : Nat)
    (heap : SFS.Heap) : Good s (s.openEntry i flags heap).1 := by
  have ht := h.truncEntry i flags
  have htn : (s.truncEntry i flags).handed = [] := by
    unfold SFS.truncEntry
    split_ifs <;> exact hn
  have hkept : (s.truncEntry i flags).kept i = true := by
    unfold SFS.truncEntry
    split_ifs
    · refine SFS.kept_of_flags ?_
      rw [SFS.dir_setEntry_self]
      exact hi
    · exact SFS.kept_of_flags hi
  unfold SFS.openEntry
  dsimp only
  split_ifs
  · exact of_none h hn
  · exact of_none h hn
  · exact of_none ht htn
  · exact of_none ht htn
  · exact of_none ht htn
  · exact of_none ht htn
  · exact of_none (ht.installFile hkept _) htn
  · exact of_none (ht.installFile hkept _) htn

theorem createEntry (hn : s.handed = []) (name : Name) {heap : SFS.Heap}
    (hheap : (heap.file_ctx && heap.file_fd) = true) (hr : s.reusesPending = false) :
    Good s (s.createEntry name heap).1 := by
  unfold SFS.createEntry
  cases ha : s.allocateBlock with
  | none => exact of_none h hn
  | some p =>
    obtain ⟨b, t⟩ := p
    have ht := (SFS.allocateBlock_some ha).2.2
    dsimp only
    cases hs : t.freeSlot with
    | none => exact h.takeBack ha
    | some i =>
      dsimp only
      split_ifs with hc
      · exact h.takeBack ha
      have hslot : s.freeSlot = some i := by rw [ht] at hs; exact hs
      have hcount : s.file_count < MAX_FILES := by rw [ht] at hc; exact not_le.1 hc
      have hk := SFS.kept_of_freeSlot hslot hcount hr
      have hm : FileType.S_IFREG ≠ .S_IFDIR := nofun
      have hadd := h.addEntry ha hk name (Nat.zero_le 512) hm
      set u := t.addEntry i (t.newEntry name b 0 .S_IFREG) with hu
      have hclosed : u.open_counts i = 0 := by
        rw [hu, ht]
        exact h.volume.open_counts_eq_zero hk
      have hpend : u.pending_delete i = false := hadd.pending_of_closed hclosed
      have hkept : u.kept i = true := by
        refine SFS.kept_of_flags ?_
        change (update t.dir i _ i).flags = true
        rw [update_self]
        rfl
      have hinst := hadd.installFile hkept 0
      refine ⟨hinst.congr rfl rfl rfl ?_ ?_ ?_ rfl, ?_⟩
      · change update u.pending_delete i false = u.pending_delete
        rw [← hpend, update_eq_self]
      · intro j hj
        refine update_of_ne ?_ ..
        intro he
        subst he
        exact absurd (hpend.symm.trans hj) (by decide)
      · change update u.open_counts i 1 = update u.open_counts i _
        rw [hclosed]
      · exact fun c hc => Inv.handed_of_allocate ha c hc

theorem sfsOpen (hn : s.handed = []) (path : Name) (flags : Nat) (heap : SFS.Heap)
    (hcalm : s.Calm (.sfsOpen path flags heap)) : Good s (s.sfsOpen path flags heap).1 := by
  have hcalm : (!SFS.isRoot (SFS.stripSlash path) && s.isNew (SFS.stripSlash path) &&
      flags &&& SFS.O_CREAT ≠ 0) = true →
      (heap.file_ctx && heap.file_fd) = true ∧ s.reusesPending = false := hcalm
  unfold SFS.sfsOpen
  dsimp only
  split_ifs with hroot hheap hvalid hlen hcreat
  · exact of_none h.installRoot hn
  · exact of_none h hn
  · exact of_none h hn
  · exact of_none h hn
  · cases hl : s.lookup (SFS.stripSlash path) with
    | some i => exact openEntry h hn (SFS.flags_of_lookup hl) flags heap
    | none =>
      have hnew := SFS.isNew_of hvalid hlen hl
      obtain ⟨hmem, hr⟩ := hcalm (by simp [hnew, hroot, hcreat])
      exact createEntry h hn _ hmem hr
  · cases hl : s.lookup (SFS.stripSlash path) with
    | some i => exact openEntry h hn (SFS.flags_of_lookup hl) flags heap
    | none => exact of_none h hn

theorem sfsClose (hn : s.handed = []) (hk : s.files[k]? = some f)
    (hcalm : f.root = true → s.open_counts 0 = 0) : Good s (s.sfsClose k f) := by
  have hroot : f.root = true → s.open_counts f.entry_idx = 0 := by
    intro hr
    rw [(h.volume.roots f (mem_of_getElem? hk) hr).2]
    exact hcalm hr
  have hvol := h.volume.eraseFile hk hroot
  have hwaits : ∀ j, j ≠ f.entry_idx → s.pending_delete j = true →
      0 < update s.open_counts f.entry_idx (s.open_counts f.entry_idx - 1) j := by
    intro j hj hp
    rw [update_of_ne hj]
    exact h.waits j hp
  unfold SFS.sfsClose
  dsimp only
  split_ifs with hlast
  · refine of_none (Inv.finishDelete hvol h.linked hlast.1 hlast.2 hwaits) ?_
    rw [(hvol.pending _ hlast.2).2, SFS.freeBlocks_one]
    unfold SFS.freeBlock
    split_ifs <;> exact hn
  refine of_none ⟨hvol, h.linked, ?_⟩ hn
  intro j hj
  by_cases hji : j = f.entry_idx
  · subst hji
    exact Nat.pos_of_ne_zero fun h0 => hlast ⟨h0, hj⟩
  · exact hwaits j hji hj

/-! ## 4. Reading, writing and growing -/

theorem setFile (hn : s.handed = []) (hk : s.files[k]? = some f) (hg : g.Like f)
    (hs : g.size ≤ 512) : Good s (s.setFile k g) := of_none (h.setFile hk hg hs) hn

theorem sfsRead (hn : s.handed = []) (hk : s.files[k]? = some f) (len : Nat) :
    Good s (s.sfsRead k f len).1 := by
  have hsmall := h.volume.smallFiles f (mem_of_getElem? hk)
  unfold SFS.sfsRead
  cases hsize : s.refreshSizeFromDisk f with
  | none => exact of_none h hn
  | some n =>
    dsimp only
    set q := if n < f.size then (f.setSize n).seekTo (min f.position n) else f with hq
    have hlike : q.Like f := by
      rw [hq]
      split_ifs <;> exact ⟨rfl, rfl, rfl, rfl, rfl⟩
    have hqs : q.size ≤ 512 := by
      rw [hq]
      split_ifs with hlt
      · exact hlt.le.trans hsmall
      · exact hsmall
    split_ifs
    · exact setFile h hn hk hlike hqs
    · exact setFile h hn hk hlike hqs
    have hset : ∀ q', (s.setFile k q).setFile k q' = s.setFile k q' := by
      intro q'
      unfold SFS.setFile
      rw [set_set]
    rw [hset]
    exact setFile h hn hk ⟨hlike.1, hlike.2, hlike.3, hlike.4, hlike.5⟩ hqs

theorem sfsSeek (hn : s.handed = []) (hk : s.files[k]? = some f) (offset : Int)
    (whence : Nat) : Good s (s.sfsSeek k f offset whence).1 := by
  have hsmall := h.volume.smallFiles f (mem_of_getElem? hk)
  have hgo : ∀ n, Good s (SFS.sfsSeek.go s k f n).1 := by
    intro n
    unfold SFS.sfsSeek.go
    split_ifs
    · exact of_none h hn
    · exact of_none h hn
    · exact setFile h hn hk ⟨rfl, rfl, rfl, rfl, rfl⟩ hsmall
  unfold SFS.sfsSeek
  split
  · exact hgo _
  · exact hgo _
  · exact hgo _
  · exact of_none h hn

theorem writeData (hn : s.handed = []) (hk : s.files[k]? = some f) {len : Nat}
    (hlast : f.position + len ≤ 512) : Good s (s.writeData k f len).1 := by
  have hsmall := h.volume.smallFiles f (mem_of_getElem? hk)
  have hover : f.overwrites (f.position + len) = false := by
    simp [SfsFile.overwrites, not_lt.2 hlast]
  unfold SFS.writeData
  rw [hover, if_neg Bool.false_ne_true]
  dsimp only
  set q := if f.size < f.position then f.setSize f.position else f with hq
  have hlike : q.Like f := by
    rw [hq]
    split_ifs <;> exact ⟨rfl, rfl, rfl, rfl, rfl⟩
  have hqs : q.size ≤ 512 := by
    rw [hq]
    split_ifs
    · change f.position ≤ 512
      omega
    · exact hsmall
  have hset : ∀ q', (s.setFile k q).setFile k q' = s.setFile k q' := by
    intro q'
    unfold SFS.setFile
    rw [set_set]
  -- the file as it is stored at the end
  have hend : ∀ q' : SfsFile, q'.Like q → q'.size ≤ 512 → Inv (s.setFile k q') := by
    intro q' hl hs
    exact h.setFile hk ⟨hl.1.trans hlike.1, hl.2.trans hlike.2, hl.3.trans hlike.3,
      hl.4.trans hlike.4, hl.5.trans hlike.5⟩ hs
  have hposition : q.position = f.position := by
    rw [hq]
    split_ifs <;> rfl
  have hsize : q.position + len ≤ 512 := by rw [hposition]; exact hlast
  have hgrown : Inv (s.setFile k ((q.seekTo (q.position + len)).setSize (q.position + len))) :=
    hend _ ⟨rfl, rfl, rfl, rfl, rfl⟩ hsize
  split_ifs
  · exact of_none h hn
  · exact setFile h hn hk hlike hqs
  · rw [hset]
    exact of_none (hgrown.setSize q.entry_idx hsize) hn
  · rw [hset]
    exact of_none hgrown hn
  · rw [hset]
    exact of_none (hend _ ⟨rfl, rfl, rfl, rfl, rfl⟩ hqs) hn

/-- A calm length that is not refused lies in the one block of the file. -/
theorem le_of_stays (hk : s.files[k]? = some f) {length : Nat} (hstay : s.staysWithin f length)
    (hlen : ¬ (blocks f.size < (length + 511) / 512 ∧
      s.refusesGrowth f ((length + 511) / 512) = true)) : length ≤ 512 := by
  have hone := blocks_of_le (h.volume.smallFiles f (mem_of_getElem? hk))
  obtain hle | href := hstay
  · rw [hone] at hle
    omega
  · have hle := not_lt.1 fun hlt => hlen ⟨hlt, href⟩
    rw [hone] at hle
    omega

theorem sfsWrite (hn : s.handed = []) (hk : s.files[k]? = some f) {len : Nat}
    (hcalm : s.staysWithin f (f.position + len)) : Good s (s.sfsWrite k f len).1 := by
  unfold SFS.sfsWrite
  dsimp only
  split_ifs with hbig hmore href
  · exact of_none h hn
  · exact of_none h hn
  · obtain hle | hrefused := hcalm
    · exact absurd hmore (not_lt.2 hle)
    · exact absurd hrefused href
  · exact writeData h hn hk (le_of_stays h hk hcalm fun hm => hmore hm.1)

theorem fillTo (hn : s.handed = []) (hk : s.files[k]? = some f) {n : Nat}
    (hle : n ≤ 512) : Good s (s.fillTo k f n) := by
  have hover : f.overwrites n = false := by simp [SfsFile.overwrites, not_lt.2 hle]
  unfold SFS.fillTo
  rw [hover, if_neg Bool.false_ne_true]
  have hset : Inv (s.setFile k (f.setSize n)) := h.setFile hk ⟨rfl, rfl, rfl, rfl, rfl⟩ hle
  exact of_none (hset.setSize f.entry_idx hle) hn

theorem truncateFd (hn : s.handed = []) (hk : s.files[k]? = some f) {length : Nat}
    (hcalm : f.size < length → s.staysWithin f length) : Good s (s.truncateFd k f length).1 := by
  have hsmall := h.volume.smallFiles f (mem_of_getElem? hk)
  unfold SFS.truncateFd
  split_ifs with hbig hgrow
  · exact of_none h hn
  · unfold SFS.extend
    split_ifs with hround hmore href
    · exact of_none (h.congr rfl rfl rfl rfl (fun _ _ => rfl) rfl rfl) hn
    · exact of_none h hn
    · obtain hle | hrefused := hcalm hgrow
      · exact absurd hmore (not_lt.2 hle)
      · exact absurd hrefused href
    · exact fillTo h hn hk (le_of_stays h hk (hcalm hgrow) fun hm => hmore hm.1)
  · have hle : length ≤ 512 := (not_lt.1 hgrow).trans hsmall
    unfold SFS.shrink
    dsimp only
    rw [blocks_of_le hle, blocks_of_le hsmall, if_neg (lt_irrefl 1)]
    have hset : Inv (s.setFile k ((f.setSize length).seekTo (min f.position length))) :=
      h.setFile hk ⟨rfl, rfl, rfl, rfl, rfl⟩ hle
    exact of_none (hset.setSize f.entry_idx hle) hn

theorem sysFallocate (hn : s.handed = []) (hk : s.files[k]? = some f)
    {offset len : Nat} (hcalm : (s.refreshSizeFromDisk f).getD f.size < offset + len →
      f.size < offset + len → s.staysWithin f (offset + len)) :
    Good s (s.sysFallocate k f offset len).1 := by
  unfold SFS.sysFallocate
  dsimp only
  split_ifs with hlt
  · exact truncateFd h hn hk (hcalm hlt)
  · exact of_none h hn

/-! ## 5. The directory -/

/-- The only link of an entry goes: its block is freed, or waits for the last `close`. -/
theorem removeEntry (hn : s.handed = []) (hfl : (s.dir i).flags = true)
    (hlinks : (s.dir i).effective_nlink ≤ 1) : Good s (s.removeEntry i) := by
  have hone := blocks_of_le (h.volume.small i)
  have hcount : Inv (s.setFileCount (s.file_count - 1)) :=
    h.congr rfl rfl rfl rfl (fun _ _ => rfl) rfl rfl
  unfold SFS.removeEntry
  dsimp only
  rw [hone]
  split_ifs with hopen
  · exact of_none (hcount.defer hopen hfl hlinks) hn
  have hi : s.open_counts i = 0 := Nat.eq_zero_of_not_pos hopen
  rw [SFS.freeBlocks_one]
  refine of_none ?_ ?_
  · set e : DirEntry := { (s.dir i).clear with start_block := 0, size := 0 }
    have hf : ¬ e.flags = true := Bool.false_ne_true
    cases hb : s.holds i with
    | none =>
      have h0 : (s.dir i).start_block = 0 := by
        rw [Inv.holds_entry hfl] at hb
        refine h.volume.dirs i (SFS.kept_of_flags hfl) ?_
        by_contra hd
        rw [block_eq_some.2 ⟨Bool.eq_false_of_not_eq_true hd, rfl⟩] at hb
        cases hb
      rw [h0]
      exact hcount.setUnheld hi hb (Nat.zero_le _) (e := e) fun he => absurd he hf
    | some b =>
      rw [(SFS.holds_eq_some.1 hb).2.2, SFS.freeBlock_of_range (h.volume.range i b hb)]
      exact hcount.clearLast hi hfl hlinks hb (Nat.zero_le _) (e := e) rfl
  · unfold SFS.freeBlock
    split_ifs <;> exact hn

theorem sfsUnlink (hn : s.handed = []) (path : Name)
    (hcalm : s.Calm (.sfsUnlink path)) : Good s (s.sfsUnlink path).1 := by
  unfold SFS.sfsUnlink
  dsimp only
  split_ifs
  · exact of_none h hn
  · exact of_none h hn
  cases hl : s.lookup (SFS.stripSlash path) with
  | none => exact of_none h hn
  | some i =>
    have hfl := SFS.flags_of_lookup hl
    dsimp only
    split_ifs with hmany
    · have hdrop := h.dropLink (Nat.eq_zero_of_not_pos hmany.2) hfl hmany.1
      exact of_none (hdrop.congr rfl rfl rfl rfl (fun _ _ => rfl) rfl rfl) hn
    refine removeEntry h hn hfl ?_
    by_contra hlt
    have hopen : 0 < s.open_counts i := by
      by_contra hopen
      exact hmany ⟨not_le.1 hlt, hopen⟩
    exact hlt (hcalm i hl hopen)

theorem sfsMkdir (hn : s.handed = []) (path : Name)
    (hcalm : s.Calm (.sfsMkdir path)) : Good s (s.sfsMkdir path).1 := by
  have hcalm : s.isNew (SFS.stripSlash path) = true → s.reusesPending = false := hcalm
  unfold SFS.sfsMkdir
  dsimp only
  cases hl : s.lookup (SFS.stripSlash path) with
  | some i => split_ifs <;> exact of_none h hn
  | none =>
    cases hs : s.freeSlot with
    | none => split_ifs <;> exact of_none h hn
    | some i =>
      dsimp only
      split_ifs with hvalid hname hc
      · exact of_none h hn
      · exact of_none h hn
      · exact of_none h hn
      have hr := hcalm (SFS.isNew_of hvalid (fun hlen => hname (.inl hlen)) hl)
      have hk := SFS.kept_of_freeSlot hs (not_le.1 hc) hr
      have hset := h.setUnheld (h.volume.open_counts_eq_zero hk) (SFS.holds_of_not_kept hk)
        (e := s.newEntry (SFS.stripSlash path) 0 0 .S_IFDIR) (Nat.zero_le _)
        fun _ => ⟨rfl, rfl, rfl⟩
      exact of_none (hset.congr rfl rfl rfl rfl (fun _ _ => rfl) rfl rfl) hn

theorem sfsRmdir (hn : s.handed = []) (path : Name) :
    Good s (s.sfsRmdir path).1 := by
  unfold SFS.sfsRmdir
  dsimp only
  split_ifs
  · exact of_none h hn
  · exact of_none h hn
  · exact of_none h hn
  cases hl : s.lookup (SFS.stripSlash path) with
  | none => exact of_none h hn
  | some i =>
    have hfl := SFS.flags_of_lookup hl
    dsimp only
    split_ifs with hd hopen
    · exact of_none h hn
    · exact of_none h hn
    have hnone : s.holds i = none := by
      rw [Inv.holds_entry hfl, DirEntry.block, if_pos (by simpa using hd)]
    have hset := h.setUnheld (Nat.eq_zero_of_not_pos hopen) hnone
      (e := { (s.dir i).clear with start_block := 0, size := 0, mode := .none }) (Nat.zero_le _)
      fun he => absurd he Bool.false_ne_true
    exact of_none (hset.congr rfl rfl rfl rfl (fun _ _ => rfl) rfl rfl) hn

theorem sfsLink (hn : s.handed = []) (old_path new_path : Name)
    (hcalm : s.Calm (.sfsLink old_path new_path)) : Good s (s.sfsLink old_path new_path).1 := by
  have hcalm : ∀ i ∈ s.lookupLast (SFS.stripSlash old_path), (s.dir i).isRegularFile = true →
      s.isNew (SFS.stripSlash new_path) = true → s.reusesPending = false := hcalm
  unfold SFS.sfsLink
  dsimp only
  cases hnames : SFS.checkNames (SFS.stripSlash old_path) (SFS.stripSlash new_path) with
  | some err => exact of_none h hn
  | none =>
    dsimp only
    split
    · exact of_none h hn
    · exact of_none h hn
    · exact of_none h hn
    rename_i old i hnew hold hslot
    split_ifs with hreg hc
    · exact of_none h hn
    · exact of_none h hn
    have hreg : (s.dir old).isRegularFile = true := by simpa using hreg
    have hr := hcalm old hold hreg (SFS.isNew_of_checkNames hnames hnew)
    have hk := SFS.kept_of_freeSlot hslot (not_le.1 hc) hr
    have hlink := h.link (SFS.flags_of_lookupLast hold) (DirEntry.not_directory hreg) hk
      (SFS.stripSlash new_path)
    exact of_none (hlink.congr rfl rfl rfl rfl (fun _ _ => rfl) rfl rfl) hn

theorem sfsSymlink (hn : s.handed = []) (target linkpath : Name)
    (hcalm : s.Calm (.sfsSymlink target linkpath)) : Good s (s.sfsSymlink target linkpath).1 := by
  have hcalm : s.isNew (SFS.stripSlash linkpath) = true → s.reusesPending = false := hcalm
  unfold SFS.sfsSymlink
  dsimp only
  split_ifs with hvalid hlen hempty hlong
  · exact of_none h hn
  · exact of_none h hn
  · exact of_none h hn
  · exact of_none h hn
  cases ha : s.allocateBlock with
  | none => exact of_none h hn
  | some p =>
    obtain ⟨b, t⟩ := p
    have ht := (SFS.allocateBlock_some ha).2.2
    dsimp only
    split
    · exact h.takeBack ha
    · exact h.takeBack ha
    rename_i i hl hs
    have hl : s.lookup (SFS.stripSlash linkpath) = none := by rw [ht] at hl; exact hl
    have hslot : s.freeSlot = some i := by rw [ht] at hs; exact hs
    split_ifs with hc
    · exact h.takeBack ha
    have hcount : s.file_count < MAX_FILES := by rw [ht] at hc; exact not_le.1 hc
    have hk := SFS.kept_of_freeSlot hslot hcount (hcalm (SFS.isNew_of hvalid hlen hl))
    have hsize : target.length ≤ 512 := by omega
    have hm : FileType.S_IFLNK ≠ .S_IFDIR := nofun
    have hadd := h.addEntry ha hk (SFS.stripSlash linkpath) hsize hm
    exact ⟨hadd, fun c hc => Inv.handed_of_allocate ha c hc⟩

/-- An entry gets another name, and the entry that had it goes. -/
theorem renameEntry (hn : s.handed = []) (i : Slot) {target : Option Slot}
    (htarget : ∀ j ∈ target, (s.dir j).flags = true ∧
      ((s.dir j).isDirectory = false → (s.dir j).effective_nlink ≤ 1)) (name : Name) :
    Good s (s.renameEntry i target name).1 := by
  unfold SFS.renameEntry
  cases target with
  | none => exact of_none (h.setName i name) hn
  | some j =>
    obtain ⟨hfl, hlinks⟩ := htarget j rfl
    dsimp only
    split_ifs with hd
    · exact of_none h hn
    · obtain ⟨hinv, hclear⟩ := removeEntry h hn hfl (hlinks (Bool.eq_false_of_not_eq_true hd))
      exact ⟨hinv.setName i name, hclear⟩

theorem sfsRename (hn : s.handed = []) (old_path new_path : Name)
    (hcalm : s.forgetsLinks (SFS.stripSlash old_path) (SFS.stripSlash new_path) = false) :
    Good s (s.sfsRename old_path new_path).1 := by
  unfold SFS.sfsRename
  dsimp only
  cases SFS.checkNames (SFS.stripSlash old_path) (SFS.stripSlash new_path) with
  | some err => exact of_none h hn
  | none =>
    dsimp only
    split_ifs with hsame
    · exact of_none h hn
    cases hold : s.lookupLast (SFS.stripSlash old_path) with
    | none => exact of_none h hn
    | some i =>
      refine renameEntry h hn i ?_ _
      intro j hj
      refine ⟨SFS.flags_of_lookupLast hj, fun hd => ?_⟩
      have hj : s.lookupLast (SFS.stripSlash new_path) = some j := hj
      unfold SFS.forgetsLinks at hcalm
      rw [decide_eq_true hsame, hold, hj] at hcalm
      by_contra hlt
      simp [hd, not_le.1 hlt] at hcalm

theorem sfsRename2 (hn : s.handed = []) (old_path new_path : Name) (flags : Nat)
    (hcalm : s.Calm (.sfsRename2 old_path new_path flags)) :
    Good s (s.sfsRename2 old_path new_path flags).1 := by
  have hcalm : flags = 0 →
      s.forgetsLinks (SFS.stripSlash old_path) (SFS.stripSlash new_path) = false := hcalm
  unfold SFS.sfsRename2
  dsimp only
  cases SFS.checkNames (SFS.stripSlash old_path) (SFS.stripSlash new_path) with
  | some err => exact of_none h hn
  | none =>
    dsimp only
    cases hold : s.lookupLast (SFS.stripSlash old_path) with
    | none =>
      split_ifs with hsame hzero
      · exact of_none h hn
      · exact sfsRename h hn old_path new_path (hcalm hzero)
      · exact of_none h hn
      · exact of_none h hn
      · exact of_none h hn
    | some i =>
      cases hnew : s.lookupLast (SFS.stripSlash new_path) with
      | none =>
        -- without a target nothing is replaced
        have hforget : s.forgetsLinks (SFS.stripSlash old_path) (SFS.stripSlash new_path) = false :=
          by rw [SFS.forgetsLinks, hnew, Option.any_none, Bool.and_false]
        have hrename := sfsRename h hn old_path new_path hforget
        split_ifs
        · exact of_none h hn
        · exact hrename
        · exact of_none h hn
        · exact hrename
        · exact of_none h hn
      | some j =>
        split_ifs with hsame hzero
        · exact of_none h hn
        · exact sfsRename h hn old_path new_path (hcalm hzero)
        · exact of_none h hn
        · exact of_none h hn
        · exact of_none (h.exchange i j) hn

end

end Good

/-! ## 6. Runs -/

theorem Inv.begin (h : Inv s) : Inv s.begin :=
  h.congr rfl rfl rfl rfl (fun _ _ => rfl) rfl rfl

/-- A call on a descriptor. -/
theorem Good.onFile (h : Inv s) (hn : s.handed = []) {call : SfsFile → SFS}
    (hcall : ∀ f ∈ s.files[k]?, Good s (call f)) : Good s (s.onFile k call) := by
  unfold SFS.onFile
  cases hk : s.files[k]? with
  | none => exact of_none h hn
  | some f => exact hcall f hk

theorem Good.step (h : Inv s) (op : Op) (hcalm : s.Calm op) : Good s (s.step op) := by
  have hb := h.begin
  have hn : s.begin.handed = [] := rfl
  unfold SFS.step
  split_ifs
  · exact ⟨hb, nofun⟩
  change Good s.begin (s.begin.perform op)
  cases op with
  | sfsOpen path flags heap => exact sfsOpen hb hn path flags heap hcalm
  | sfsClose k => exact onFile hb hn fun f hf => sfsClose hb hn hf (hcalm f hf)
  | sfsRead k len => exact onFile hb hn fun f hf => sfsRead hb hn hf len
  | sfsSeek k offset whence => exact onFile hb hn fun f hf => sfsSeek hb hn hf offset whence
  | sfsWrite k len => exact onFile hb hn fun f hf => sfsWrite hb hn hf (hcalm f hf)
  | sfsTruncate k length => exact onFile hb hn fun f hf => truncateFd hb hn hf (hcalm f hf)
  | sysFallocate k offset len => exact onFile hb hn fun f hf => sysFallocate hb hn hf (hcalm f hf)
  | sfsUnlink path => exact sfsUnlink hb hn path hcalm
  | sfsMkdir path => exact sfsMkdir hb hn path hcalm
  | sfsRmdir path => exact sfsRmdir hb hn path
  | sfsLink old_path new_path => exact sfsLink hb hn old_path new_path hcalm
  | sfsSymlink target linkpath => exact sfsSymlink hb hn target linkpath hcalm
  | sfsRename old_path new_path => exact sfsRename hb hn old_path new_path hcalm
  | sfsRename2 old_path new_path flags => exact sfsRename2 hb hn old_path new_path flags hcalm

theorem Inv.fresh : Inv format := by
  have hholds : ∀ i, format.holds i = none := fun i => holds_of_not_kept rfl
  have hbit : ∀ b, format.bit b = false := fun b => Bool.and_false _
  refine ⟨⟨?_, ?_, ?_, ?_, nofun, nofun, fun _ => rfl, nofun, nofun, fun _ => Nat.zero_le _, nofun⟩,
    nofun, nofun⟩
  · intro b
    rw [hbit]
    exact ⟨nofun, fun ⟨i, hi⟩ => by rw [hholds] at hi; cases hi⟩
  · have hmarked : marked dataBlocks format.bit = 0 :=
      Finset.card_eq_zero.2 (Finset.filter_eq_empty_iff.2 fun b _ => by rw [hbit]; decide)
    rw [hmarked, dataBlocks, Nat.card_Ico]
    rfl
  · intro i b hi
    rw [hholds] at hi
    cases hi
  · intro i j b hi
    rw [hholds] at hi
    cases hi

theorem Inv.of_reach (h : sfs.Reach SFS.Calm s) : Inv s :=
  h.invariant (fun _ hs => hs ▸ Inv.fresh) fun _ op _ hi hc => (Good.step hi op hc).1

/-- A block in an extent is the block of a slot of the file. -/
theorem Volume.holds_of_owns (h : Volume s) {n : Nat} (ho : s.Owns n b) :
    ∃ i, s.holds i = some b ∧ (s.dir i).file = n := by
  obtain ⟨start, size, hlive, hle, hlt⟩ := ho
  cases hlive with
  | entry i hf hd =>
    rw [blocks_of_le (h.small i)] at hlt
    exact ⟨i, holds_eq_some.2 ⟨kept_of_flags hf, hd, by omega⟩, rfl⟩
  | opened f hf hd =>
    have hr : f.root = false := by
      cases hr : f.root with
      | false => rfl
      | true => exact absurd (h.roots f hf hr).1 hd
    obtain ⟨hk, hb, hm, hfile⟩ := h.opened f hf hr
    rw [blocks_of_le (h.smallFiles f hf)] at hlt
    rw [hm] at hd
    exact ⟨f.entry_idx, holds_eq_some.2 ⟨hk, decide_eq_false hd, by omega⟩, hfile.symm⟩

/-- A slot without an entry holds its block for a descriptor. -/
theorem Inv.opened_of_holds (h : Inv s) (hb : s.holds i = some b) (hf : (s.dir i).flags = false) :
    ∃ f ∈ s.files, f.mode ≠ .S_IFDIR ∧ f.start_block = b := by
  obtain ⟨hk, hd, hs⟩ := holds_eq_some.1 hb
  have hp : s.pending_delete i = true := by simpa [kept, hf] using hk
  have hopen := h.waits i hp
  rw [h.volume.opens i] at hopen
  obtain ⟨f, hmem, hc⟩ := countP_pos_iff.1 hopen
  have hc : f.root = false ∧ f.entry_idx = i := by simpa [SfsFile.counts] using hc
  obtain ⟨-, hstart, hm, -⟩ := h.volume.opened f hmem hc.1
  rw [hc.2] at hstart hm
  refine ⟨f, hmem, ?_, hstart.trans hs⟩
  rw [hm]
  exact of_decide_eq_false hd

/-- A slot holds its block for an entry, or for a descriptor. -/
theorem Inv.owns_of_holds (h : Inv s) (hb : s.holds i = some b) : ∃ n, s.Owns n b := by
  obtain ⟨-, hd, hs⟩ := holds_eq_some.1 hb
  cases hf : (s.dir i).flags with
  | true =>
    refine ⟨_, _, _, .entry i hf hd, hs.le, ?_⟩
    rw [blocks_of_le (h.volume.small i)]
    omega
  | false =>
    obtain ⟨f, hmem, hm, hstart⟩ := h.opened_of_holds hb hf
    refine ⟨_, _, _, .opened f hmem hm, hstart.le, ?_⟩
    rw [blocks_of_le (h.volume.smallFiles f hmem)]
    omega

theorem Inv.bit_iff (h : Inv s) (b : Nat) : s.bit b = true ↔ ∃ n, s.Owns n b := by
  rw [h.volume.exact b]
  constructor
  · intro ⟨i, hi⟩
    exact h.owns_of_holds hi
  · intro ⟨n, ho⟩
    obtain ⟨i, hi, -⟩ := h.volume.holds_of_owns ho
    exact ⟨i, hi⟩

/-- **No block belongs to two files, and none of a file is handed out, in every run of calm
    steps.** -/
theorem blockOwnership (h : sfs.Reach SFS.Calm s) :
    BlockOwnership s ∧ ∀ op, s.Calm op → HandsOutFree s op := by
  have hinv := Inv.of_reach h
  refine ⟨?_, ?_⟩
  · intro n m b hn hm
    obtain ⟨i, hi, rfl⟩ := hinv.volume.holds_of_owns hn
    obtain ⟨j, hj, rfl⟩ := hinv.volume.holds_of_owns hm
    by_cases hij : i = j
    · rw [hij]
    · exact (hinv.volume.alone i j b hi hj hij).2
  · intro op hc b hb n ho
    have hclear := (Good.step hinv op hc).2 b hb
    rw [(hinv.bit_iff b).2 ⟨n, ho⟩] at hclear
    cases hclear

/-- **The counter, the bits and the files agree in every run of calm steps.** -/
theorem spaceAccounting (h : sfs.Reach SFS.Calm s) : SpaceAccounting s := by
  have hinv := Inv.of_reach h
  have hbal := hinv.volume.balance
  have hclear := card_clear dataBlocks s.bit
  refine ⟨by omega, hinv.bit_iff, fun hnone => ?_⟩
  have hmarked : marked dataBlocks s.bit = 0 := by
    refine Finset.card_eq_zero.2 (Finset.filter_eq_empty_iff.2 fun b _ hb => ?_)
    obtain ⟨n, start, size, hlive, -⟩ := (hinv.bit_iff b).1 hb
    exact hnone n start size hlive
  rw [hmarked, dataBlocks, Nat.card_Ico] at hbal
  exact hbal

/-- Whatever a file grows by is missing from the bitmap at once. -/
theorem growBlocks_unbalanced (h : SpaceAccounting s) {requested : Nat}
    (hmore : blocks f.size < requested) (hroom : s.refusesGrowth f requested = false) :
    ¬ SpaceAccounting (s.growBlocks f requested) := by
  intro hg
  have hgrown := hg.1
  have hfree : ¬ s.free_blocks < requested - blocks f.size := by
    intro hlt
    simp [refusesGrowth, hlt] at hroom
  have hsame : s.free_blocks - (requested - blocks f.size) = s.free_blocks := hgrown.trans h.1.symm
  omega

/-! ## 7. A file of two blocks -/

def nameA : Name := [0x41#8]
def nameB : Name := [0x42#8]
def nameC : Name := [0x43#8]

/-- `open` with `O_CREAT | O_RDWR`. -/
def create (name : Name) : Op := .sfsOpen name 0o102 ⟨true, true⟩

/-- Files of one block each, linked, unlinked and replaced, the last of them while it is open. -/
def calmRun : List Op :=
  [create nameA, .sfsWrite 0 100, .sfsLink nameA nameB, .sfsClose 0, .sfsUnlink nameA,
    create nameC, .sfsTruncate 0 512, .sfsRename nameC nameB, .sfsUnlink nameB]

theorem calmRun_reach : sfs.Reach SFS.Calm (sfs.exec format calmRun) := by
  have hstart : sfs.start format := rfl
  refine (Machine.Reach.start hstart).exec ⟨?_, ?_, ?_, ?_, ?_, ?_, ?_, ?_, ?_, trivial⟩ <;>
    decide +kernel

theorem blockOwnership_calmRun : BlockOwnership (sfs.exec format calmRun) ∧
    ∀ op, (sfs.exec format calmRun).Calm op → HandsOutFree (sfs.exec format calmRun) op :=
  blockOwnership calmRun_reach

theorem spaceAccounting_calmRun : SpaceAccounting (sfs.exec format calmRun) :=
  spaceAccounting calmRun_reach

/-- A file grows to a second block, which the bitmap still has as free and gives to the next. -/
def growingRun : List Op := [create nameA, .sfsWrite 0 1024, create nameB]

theorem growingRun_owns : (sfs.exec format growingRun).Owns 0 22 ∧
    (sfs.exec format growingRun).Owns 1 22 := by
  have h0 : ((sfs.exec format growingRun).dir 0).flags = true ∧
      ((sfs.exec format growingRun).dir 0).isDirectory = false ∧
      ((sfs.exec format growingRun).dir 0).file = 0 ∧
      ((sfs.exec format growingRun).dir 0).start_block = 21 ∧
      ((sfs.exec format growingRun).dir 0).size = 1024 := by decide +kernel
  have h1 : ((sfs.exec format growingRun).dir 1).flags = true ∧
      ((sfs.exec format growingRun).dir 1).isDirectory = false ∧
      ((sfs.exec format growingRun).dir 1).file = 1 ∧
      ((sfs.exec format growingRun).dir 1).start_block = 22 ∧
      ((sfs.exec format growingRun).dir 1).size = 0 := by decide +kernel
  obtain ⟨hf, hd, hn, hs, hz⟩ := h0
  obtain ⟨hf', hd', hn', hs', hz'⟩ := h1
  have hl := SFS.Live.entry (s := sfs.exec format growingRun) 0 hf hd
  have hl' := SFS.Live.entry (s := sfs.exec format growingRun) 1 hf' hd'
  rw [hn, hs, hz] at hl
  rw [hn', hs', hz'] at hl'
  exact ⟨⟨21, 1024, hl, by decide, by decide⟩, ⟨22, 0, hl', by decide, by decide⟩⟩

theorem blockOwnership_refuted : ¬ ∀ s, sfs.Reachable s →
    BlockOwnership s ∧ ∀ op, HandsOutFree s op := by
  intro h
  have hstart : sfs.start format := rfl
  obtain ⟨hown, -⟩ := h _ ((Machine.Reach.start hstart).exec (.of_forall (fun _ _ => trivial) _
    growingRun))
  obtain ⟨h0, h1⟩ := growingRun_owns
  exact absurd (hown 0 1 22 h0 h1) (by decide)

/-- Before the second file is created: the block is in the first one, and its bit is clear. -/
theorem spaceAccounting_refuted : ¬ ∀ s, sfs.Reachable s → SpaceAccounting s := by
  intro h
  have hstart : sfs.start format := rfl
  set run : List Op := [create nameA, .sfsWrite 0 1024] with hrun
  obtain ⟨-, hbits, -⟩ := h _ ((Machine.Reach.start hstart).exec (.of_forall (fun _ _ => trivial) _
    run))
  have h0 : ((sfs.exec format run).dir 0).flags = true ∧
      ((sfs.exec format run).dir 0).isDirectory = false ∧
      ((sfs.exec format run).dir 0).start_block = 21 ∧
      ((sfs.exec format run).dir 0).size = 1024 := by decide +kernel
  have hclear : (sfs.exec format run).bit 22 = false := by decide +kernel
  obtain ⟨hf, hd, hs, hz⟩ := h0
  have hl := SFS.Live.entry (s := sfs.exec format run) 0 hf hd
  rw [hs, hz] at hl
  have hset := (hbits 22).2 ⟨_, 21, 1024, hl, by decide, by decide⟩
  rw [hclear] at hset
  cases hset

end Zigk.Sfs
