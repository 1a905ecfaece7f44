/-
  Subject:   THE NUMBER OF LINKS IN EACH ENTRY OF A FILE.

  * `Counted` -- an entry never has 0 links, in every run: no move makes one;
  * **`linkCounts`** -- in every run of calm steps; `linkCounts_refuted` -- a file is renamed onto
    one of two links.
-/
import Zigk.Fs.SfsMoves

namespace Zigk.Sfs

open Function

variable {s t : SFS} {i j : Slot} {b n : Nat} {e : DirEntry} {f : SfsFile} {k : Nat}

/-! ## 1. No entry has 0 links -/

def Counted (s : SFS) : Prop := ∀ i, (s.dir i).flags = true → (s.dir i).nlink ≠ 0

namespace Counted

/-- New entries have a link, and numbers of links are never 0. -/
theorem moves {grows : Prop} (h : Counted s) (hmoves : Moves grows s t) : Counted t := by
  induction hmoves with
  | refl => exact h
  | other _ hdir _ _ ih | close _ _ hdir _ ih => exact fun i => by rw [hdir]; exact ih i
  | setEntry _ i he hn ih =>
    intro j
    by_cases hj : j = i
    · subst hj
      rw [SFS.dir_setEntry_self]
      intro hf
      rw [hn hf]
      exact ih j (he.active hf).1
    · rw [SFS.dir_setEntry_ne _ _ hj]
      exact ih j
  | setSize _ _ i _ ih =>
    intro j
    by_cases hj : j = i
    · subst hj
      rw [SFS.dir_setEntry_self]
      exact ih j
    · rw [SFS.dir_setEntry_ne _ _ hj]
      exact ih j
  | syncLinks _ b hn ih =>
    intro i hf
    rw [SFS.flags_syncLinks] at hf
    change (if _ then DirEntry.setNlink _ _ else _).nlink ≠ 0
    split_ifs
    · exact hn
    · exact ih i hf
  | add _ _ _ i hn hdir _ ih =>
    intro j
    rw [hdir]
    by_cases hj : j = i
    · subst hj
      rw [update_self]
      exact fun _ => hn
    · rw [update_of_ne hj]
      exact ih j
  | install _ _ _ _ ih | openRoot _ ih | setFile _ _ _ ih => exact ih

theorem step (h : Counted s) (op : Op) : Counted (s.step op) := moves (s := s.begin) h (.step s op)

theorem of_reach {C : SFS → Op → Prop} (h : sfs.Reach C s) : Counted s := by
  refine h.invariant ?_ fun _ op _ hi _ => hi.step op
  intro s hs i hf
  rw [show s = format from hs] at hf
  cases hf

end Counted

/-! ## 2. Links and blocks -/

/-- The active entries that start at a block. -/
def SFS.entriesOf (s : SFS) (b : Nat) : Finset Slot :=
  Finset.univ.filter fun j => (s.dir j).flags = true ∧ (s.dir j).start_block = b

/-- Every entry of a regular file has the number of the entries of its block, and a block is taken
    as long as an entry has it, or a descriptor that is still open; it is freed once. -/
structure LinkCounts (s : SFS) : Prop where
  links : ∀ i, (s.dir i).flags = true → (s.dir i).isRegularFile = true →
    (s.dir i).nlink = (s.entriesOf (s.dir i).start_block).card
  blocks : ∀ b, s.bit b = true ↔ (∃ i ∈ s.entriesOf b, (s.dir i).isDirectory = false) ∨
    ∃ f ∈ s.files, f.mode ≠ .S_IFDIR ∧ f.start_block = b
  once : s.free_blocks = (dataBlocks.filter fun b => s.bit b = false).card

namespace Inv

theorem mem_entriesOf : i ∈ s.entriesOf b ↔
    (s.dir i).flags = true ∧ (s.dir i).start_block = b := by
  unfold SFS.entriesOf
  rw [Finset.mem_filter]
  exact and_iff_right (Finset.mem_univ i)

/-- The slots that hold the block of an entry are its entries. -/
theorem holders_eq (h : Inv s) (hf : (s.dir i).flags = true) (hb : s.holds i = some b) :
    holders s.holds b = (s.entriesOf b).card := by
  have hrange := h.volume.range i b hb
  unfold holders
  congr 1
  ext j
  rw [mem_entriesOf, Finset.mem_filter]
  constructor
  · intro ⟨_, hj⟩
    refine ⟨?_, (SFS.holds_eq_some.1 hj).2.2⟩
    by_cases hji : j = i
    · rw [hji]
      exact hf
    · exact (h.volume.alone j i b hj hb hji).1
  · intro ⟨hj, hs⟩
    exact ⟨Finset.mem_univ j, (h.volume.start_iff hrange.1 hj).1 hs⟩

theorem links (h : Inv s) (hcount : Counted s) (hf : (s.dir i).flags = true)
    (hreg : (s.dir i).isRegularFile = true) :
    (s.dir i).nlink = (s.entriesOf (s.dir i).start_block).card := by
  have hb : s.holds i = some (s.dir i).start_block := by
    rw [holds_entry hf, block_eq_some]
    exact ⟨DirEntry.not_directory hreg, rfl⟩
  have hlinks := h.linked.links_eq hf hb
  rw [h.holders_eq hf hb, DirEntry.effective_nlink, if_neg (hcount i hf)] at hlinks
  exact hlinks

theorem bit_iff_entry_or_open (h : Inv s) (b : Nat) : s.bit b = true ↔
    (∃ i ∈ s.entriesOf b, (s.dir i).isDirectory = false) ∨
    ∃ f ∈ s.files, f.mode ≠ .S_IFDIR ∧ f.start_block = b := by
  rw [h.volume.exact b]
  constructor
  · intro ⟨i, hi⟩
    obtain ⟨-, hd, hs⟩ := SFS.holds_eq_some.1 hi
    cases hf : (s.dir i).flags with
    | true => exact .inl ⟨i, mem_entriesOf.2 ⟨hf, hs⟩, hd⟩
    -- the deletion waits for a descriptor
    | false => exact .inr (h.opened_of_holds hi hf)
  · intro hb
    obtain ⟨i, hi, hd⟩ | ⟨f, hf, hd, rfl⟩ := hb
    · obtain ⟨hf, hs⟩ := mem_entriesOf.1 hi
      exact ⟨i, SFS.holds_eq_some.2 ⟨SFS.kept_of_flags hf, hd, hs⟩⟩
    · exact ⟨f.entry_idx, (h.holds_of_open hf hd).1⟩

end Inv

/-- **In every run of calm steps every entry of a file has the number of its entries, and its
    block is freed with the last of them, or with the last descriptor.** -/
theorem linkCounts (h : sfs.Reach SFS.Calm s) : LinkCounts s := by
  have hinv := Inv.of_reach h
  have hcount := Counted.of_reach h
  have hbal := hinv.volume.balance
  have hclear := card_clear dataBlocks s.bit
  exact ⟨fun i hf hreg => hinv.links hcount hf hreg, hinv.bit_iff_entry_or_open, by omega⟩

theorem linkCounts_calmRun : LinkCounts (sfs.exec format calmRun) := linkCounts calmRun_reach

/-- The other link keeps the number 2, and a block that is free. -/
theorem linkCounts_refuted : ¬ ∀ s, sfs.Reachable s → LinkCounts s := by
  intro h
  have hstart : sfs.start format := rfl
  set run : List Op := [create nameA, .sfsClose 0, .sfsLink nameA nameB, create nameC, .sfsClose 0,
    .sfsRename nameC nameA] with hrun
  have hlinks := (h _ (Machine.Reachable.exec (.start hstart) run)).links 1
  revert hlinks
  decide +kernel

end Zigk.Sfs
