/-
  Subject:   BITMAP, REFERENCE COUNTS AND PAGE COUNTERS OF THE PAGE ALLOCATOR STAY IN STEP.

  The purpose of the allocator is a number of owners for every page (`refs`). The bitmap repeats
  which pages have none, `free_pages` repeats how many (`PmmOk`).

  * `init_spec`, `allocPage_spec`, ... -- one lemma for each function: it comes to its end, keeps
    `PmmOk` and does to `refs` what it is for;
  * **`pmmInvariant`** -- every state after an initialisation and any sequence of operations.
-/
import Zigk.Base.Machine
import Zigk.Mm.Pmm

namespace Zigk.Mm

open List Except Option Pmm Bitmap

open Bitmap (bit clearBits mem_clearBits)

/-! ## 1. The invariant -/

/-- The number of owners of a page. -/
def owners (r : List Nat) (p : Nat) : Nat := r.getD p 0

namespace Pmm

def refs (s : Pmm) (p : Nat) : Nat := owners s.refcounts p

end Pmm

/-- Bitmap `m` and reference counts `r` of `n` pages agree; the bits without a page are set. -/
structure Marked (m : Bitmap) (r : List Nat) (n : Nat) : Prop where
  length_bitmap : m.length = bitmapSize n
  length_refcounts : r.length = n
  bit_iff : ∀ p < n, bit m p = true ↔ 0 < owners r p
  tail : ∀ p, n ≤ p → p < 8 * m.length → bit m p = true

structure PmmOk (s : Pmm) : Prop extends Marked s.bitmap s.refcounts s.totalPages where
  free : s.freePages = (clearBits s.bitmap).card
  hint : 0 < s.bitmap.length → s.searchHint < s.bitmap.length
  initialized : s.initialized = true

section Marked

variable {m : Bitmap} {r : List Nat} {n p : Nat}

theorem Marked.div_lt (h : Marked m r n) (hp : p < n) : p / 8 < m.length := by
  rw [h.length_bitmap, bitmapSize]
  omega

theorem Marked.lt_length (h : Marked m r n) (hp : p < n) : p < r.length := by
  rw [h.length_refcounts]
  exact hp

/-- A clear bit belongs to a page, and the page has no owner. -/
theorem Marked.mem_clearBits (h : Marked m r n) : p ∈ clearBits m ↔ p < n ∧ owners r p = 0 := by
  rw [Bitmap.mem_clearBits]
  constructor
  · rintro ⟨hlt, hb⟩
    have hp : p < n := by
      by_contra hp
      rw [h.tail p (by omega) (by omega)] at hb
      cases hb
    have := h.bit_iff p hp
    rw [hb] at this
    exact ⟨hp, by simpa using this⟩
  · rintro ⟨hp, h0⟩
    refine ⟨h.div_lt hp, ?_⟩
    have := h.bit_iff p hp
    rw [h0] at this
    simpa using this

theorem owners_set (hp : p < r.length) (v k : Nat) :
    owners (r.set p v) k = if k = p then v else owners r k := by
  simp only [owners, getD_eq_getElem?_getD, getElem?_set]
  by_cases hk : k = p
  · subst hk
    rw [if_pos rfl, if_pos rfl, if_pos hp]
    rfl
  · rw [if_neg hk, if_neg (fun e => hk e.symm)]

/-- **One page changes**: its bit and its count together, nothing else. -/
theorem Marked.set (h : Marked m r n) (hp : p < n) {m' : Bitmap} {b : Bool} {v : Nat}
    (hlen : m'.length = m.length) (hbit : ∀ k, bit m' k = if k = p then b else bit m k)
    (hb : b = true ↔ 0 < v) : Marked m' (r.set p v) n where
  length_bitmap := by rw [hlen, h.length_bitmap]
  length_refcounts := by rw [length_set, h.length_refcounts]
  bit_iff k hk := by
    rw [hbit, owners_set (h.lt_length hp)]
    by_cases e : k = p
    · rw [if_pos e, if_pos e]
      exact hb
    · rw [if_neg e, if_neg e]
      exact h.bit_iff k hk
  tail k hk hlt := by
    rw [hbit, if_neg (by omega)]
    exact h.tail k hk (by omega)

theorem Marked.setBit (h : Marked m r n) (hp : p < n) : Marked (m.setBit p) (r.set p 1) n := by
  refine h.set (b := true) hp (length_setBit m p) (fun k => ?_) (by decide)
  rw [bit_setBit k (h.div_lt hp)]
  by_cases e : k = p
  · rw [if_pos e, decide_eq_true e, Bool.true_or]
  · rw [if_neg e, decide_eq_false e, Bool.false_or]

theorem Marked.clearBit (h : Marked m r n) (hp : p < n) : Marked (m.clearBit p) (r.set p 0) n := by
  refine h.set (b := false) hp (length_clearBit m p) (fun k => ?_) (by decide)
  rw [bit_clearBit k (h.div_lt hp)]
  by_cases e : k = p
  · rw [if_pos e, decide_eq_true e, Bool.not_true, Bool.false_and]
  · rw [if_neg e, decide_eq_false e, Bool.not_false, Bool.true_and]

/-- A page in use gets another count of owners. -/
theorem Marked.setCount (h : Marked m r n) (hp : p < n) (hb : bit m p = true) {v : Nat}
    (hv : 0 < v) : Marked m (r.set p v) n := by
  refine h.set (b := true) hp rfl (fun k => ?_) (by simpa using hv)
  by_cases e : k = p
  · rw [if_pos e, e, hb]
  · rw [if_neg e]

end Marked

/-! ## 2. The functions on single pages -/

namespace Pmm

variable {s : Pmm} {p : Nat}

theorem isBitSet_ok (h : p / 8 < s.bitmap.length) : s.isBitSet p = .ok (s.bitmap.bit p) :=
  if_neg (by omega)

theorem occupy_ok (hb : p / 8 < s.bitmap.length) (hr : p < s.refcounts.length) :
    s.occupy p = .ok { s with
      bitmap := s.bitmap.setBit p
      refcounts := s.refcounts.set p 1 } := by
  rw [occupy, setBit, if_neg (by omega), ok_bind]
  exact if_pos hr

theorem markFree_ok (hb : p / 8 < s.bitmap.length) (hr : p < s.refcounts.length) :
    s.markFree p = .ok { s with
      bitmap := s.bitmap.clearBit p
      refcounts := s.refcounts.set p 0
      freePages := s.freePages + 1 } := by
  rw [markFree, clearBit, if_neg (by omega), ok_bind, setRefcount, if_pos hr]
  rfl

theorem setRefcount_ok (hr : p < s.refcounts.length) (v : Nat) :
    s.setRefcount p v = .ok { s with refcounts := s.refcounts.set p v } :=
  if_pos hr

theorem refcount_ok (hr : p < s.refcounts.length) : s.refcount p = .ok (s.refs p) := by
  rw [refcount, getElem?_eq_getElem hr, refs, owners, getD_eq_getElem?_getD, getElem?_eq_getElem hr]
  rfl

theorem countAllocated_ok {n : Nat} (h : n ≤ s.freePages) :
    s.countAllocated n = .ok { s with
      freePages := s.freePages - n
      allocatedPages := s.allocatedPages + n } := by
  rw [countAllocated, Trap.sub, if_pos h]
  rfl

end Pmm

/-! ## 3. What an allocation does -/

/-- From `s` to `s'` the pages of `l`, which were free, got their one owner; no other page was
    touched. -/
structure Takes (s s' : Pmm) (l : List Nat) : Prop where
  total : s'.totalPages = s.totalPages
  free : ∀ p ∈ l, p < s.totalPages ∧ s.refs p = 0
  refs : ∀ p, s'.refs p = if p ∈ l then 1 else s.refs p

section Alloc

variable {s : Pmm} {p : Nat}

/-- A free page stands in the bitmap as one, and the counter has counted it. -/
theorem PmmOk.of_clear (h : PmmOk s) (hp : p < s.totalPages) (hb : s.bitmap.bit p = false) :
    s.refs p = 0 ∧ 1 ≤ s.freePages := by
  have hm : p ∈ clearBits s.bitmap := mem_clearBits.mpr ⟨h.div_lt hp, hb⟩
  refine ⟨(h.mem_clearBits.mp hm).2, ?_⟩
  rw [h.free]
  exact Finset.card_pos.mpr ⟨p, hm⟩

/-- **Taking one free page**, the common end of `allocPage` and `allocSpecificPage`. -/
theorem PmmOk.take (h : PmmOk s) (hp : p < s.totalPages) (hb : s.bitmap.bit p = false) :
    ∃ s', (do let s ← s.occupy p; s.countAllocated 1) = .ok s' ∧ PmmOk s' ∧ Takes s s' [p] ∧
      s'.bitmap.length = s.bitmap.length := by
  obtain ⟨h0, hfree⟩ := h.of_clear hp hb
  have hdiv := h.div_lt hp
  have hcard := card_clearBits_setBit hdiv hb
  rw [occupy_ok hdiv (h.lt_length hp), ok_bind]
  rw [countAllocated_ok (by exact hfree)]
  refine ⟨_, rfl, ⟨h.toMarked.setBit hp, ?_, ?_, h.initialized⟩, ⟨rfl, ?_, ?_⟩, ?_⟩
  · have := h.free
    show s.freePages - 1 = (clearBits (s.bitmap.setBit p)).card
    omega
  · intro _
    rw [length_setBit]
    exact h.hint (by omega)
  · intro q hq
    rw [mem_singleton.mp hq]
    exact ⟨hp, h0⟩
  · intro q
    simp only [mem_singleton]
    exact owners_set (h.lt_length hp) 1 q
  · exact length_setBit _ _

theorem allocSpecificPage_spec (h : PmmOk s) (physAddr : Nat) :
    ∃ s' b, s.allocSpecificPage physAddr = .ok (s', b) ∧ PmmOk s' ∧
      (b = true → physAddr % PAGE_SIZE = 0 ∧ Takes s s' [physAddr / PAGE_SIZE]) ∧
      (b = false → s' = s) := by
  have stay : ∃ s' b, (.ok (s, false) : Except Trap (Pmm × Bool)) = .ok (s', b) ∧ PmmOk s' ∧
      (b = true → physAddr % PAGE_SIZE = 0 ∧ Takes s s' [physAddr / PAGE_SIZE]) ∧
      (b = false → s' = s) :=
    ⟨s, false, rfl, h, fun e => (nomatch e), fun _ => rfl⟩
  rw [allocSpecificPage, h.initialized]
  by_cases hal : isPageAligned physAddr = true
  · by_cases hp : physAddr / PAGE_SIZE < s.totalPages
    · have hdiv := h.div_lt hp
      simp only [hal, Nat.not_le_of_lt hp, isBitSet_ok hdiv, ok_bind, if_false,
        Bool.not_true, Bool.false_eq_true]
      cases hb : s.bitmap.bit (physAddr / PAGE_SIZE) with
      | true => exact stay
      | false =>
        obtain ⟨s', hs', hok, htake, -⟩ := h.take hp hb
        refine ⟨s', true, ?_, hok, fun _ => ⟨by simpa [isPageAligned] using hal, htake⟩,
          fun e => (nomatch e)⟩
        obtain ⟨s₁, ho, hc⟩ := (bind_ok_iff _ _).mp hs'
        simp only [Bool.false_eq_true, if_false, ho, ok_bind, hc]
        rfl
    · simp only [hal, Nat.le_of_not_lt hp]
      exact stay
  · simp only [hal]
    exact stay

/-! ### The search of `allocPage` -/

/-- **The three-bit counter does not run over**: from a bit on there is a clear one in the byte,
    so the loop ends there. -/
theorem scanByte_spec (h : PmmOk s) {byteIdx b : Nat} (hb8 : b < 8)
    (hclear : s.bitmap.bit (byteIdx * 8 + b) = false) (hlen : byteIdx < s.bitmap.length) (bit : Nat)
    (hbit : bit ≤ b) :
    ∃ p, s.scanByte byteIdx bit = .ok (some p) ∧ p < s.totalPages ∧ s.bitmap.bit p = false ∧
      p / 8 = byteIdx := by
  have hb : byteIdx * 8 + b < s.totalPages := by
    by_contra hge
    rw [h.tail _ (by omega) (by omega)] at hclear
    cases hclear
  induction hk : 7 - bit generalizing bit with
  | zero =>
    have e : bit = b := by omega
    subst e
    refine ⟨byteIdx * 8 + bit, ?_, hb, hclear, by omega⟩
    rw [scanByte, if_neg (by omega), isBitSet_ok (h.div_lt hb), hclear]
  | succ k ih =>
    have hp : byteIdx * 8 + bit < s.totalPages := by omega
    rw [scanByte, if_neg (by omega), isBitSet_ok (h.div_lt hp)]
    cases hc : s.bitmap.bit (byteIdx * 8 + bit) with
    | false => exact ⟨byteIdx * 8 + bit, rfl, hp, hc, by omega⟩
    | true =>
      have hne : bit ≠ b := by
        intro e
        rw [e, hclear] at hc
        cases hc
      rw [if_pos (by omega)]
      exact ih (bit + 1) (by omega) (by omega)

/-- What the search may end with: a free page, or nothing, and then every byte it was to look at
    is full. -/
def SearchEnd (s : Pmm) (look : Nat → Prop) : Option Nat → Prop
  | some p => p < s.totalPages ∧ s.bitmap.bit p = false
  | none => ∀ i < s.bitmap.length, look i → s.bitmap.getD i 0#8 = BitVec.allOnes 8

/-- One byte of the search. -/
theorem searchByte_spec (h : PmmOk s) {byteIdx : Nat} (hlt : byteIdx < s.bitmap.length) :
    ∃ r, (if s.bitmap[byteIdx] ≠ BitVec.allOnes 8 then s.scanByte byteIdx 0 else .ok none) = .ok r ∧
      SearchEnd s (· = byteIdx) r := by
  have hd : s.bitmap.getD byteIdx 0#8 = s.bitmap[byteIdx] := by
    rw [getD_eq_getElem?_getD, getElem?_eq_getElem hlt]
    rfl
  by_cases hfull : s.bitmap[byteIdx] = BitVec.allOnes 8
  · refine ⟨none, by rw [if_neg (not_not_intro hfull)], fun i _ hi => ?_⟩
    rw [hi, hd, hfull]
  · obtain ⟨b, hb, hclear⟩ := exists_clear_of_ne_ones (m := s.bitmap) (hd ▸ hfull)
    obtain ⟨p, hp, hend⟩ := scanByte_spec h hb hclear hlt 0 (Nat.zero_le b)
    exact ⟨some p, by rw [if_pos hfull, hp], hend.1, hend.2.1⟩

theorem SearchEnd.cons {look look' : Nat → Prop} {byteIdx : Nat} {r : Option Nat}
    (h : SearchEnd s (· = byteIdx) none) (hr : SearchEnd s look' r)
    (hl : ∀ i, look i → i = byteIdx ∨ look' i ∨ s.bitmap.length ≤ i) : SearchEnd s look r := by
  cases r with
  | some p => exact hr
  | none =>
    intro i hi hlook
    rcases hl i hlook with e | h' | h'
    · exact h i hi e
    · exact hr i hi h'
    · omega

/-- After the wrap the search covers the bytes up to the hint. -/
theorem search_wrapped (h : PmmOk s) (byteIdx : Nat) (hlt : byteIdx < s.searchHint)
    (hint : s.searchHint < s.bitmap.length) :
    ∃ r, s.search byteIdx true = .ok r ∧ SearchEnd s (fun i => byteIdx ≤ i ∧ i < s.searchHint) r := by
  induction hk : s.searchHint - byteIdx generalizing byteIdx with
  | zero => omega
  | succ k ih =>
    have hlen : byteIdx < s.bitmap.length := by omega
    obtain ⟨r, hr, hend⟩ := searchByte_spec h hlen
    rw [search, dif_pos hlen]
    simp only [hr]
    cases r with
    | some p => exact ⟨some p, rfl, hend⟩
    | none =>
      rw [if_neg (by omega : ¬ byteIdx + 1 ≥ s.bitmap.length)]
      by_cases hdone : byteIdx + 1 ≥ s.searchHint
      · rw [if_pos ⟨trivial, hdone⟩]
        exact ⟨none, rfl, fun i hi hl => hend i hi (by omega)⟩
      · rw [if_neg (fun e => hdone e.2)]
        obtain ⟨r, hr, hend'⟩ := ih (byteIdx + 1) (by omega) (by omega)
        exact ⟨r, hr, hend.cons hend' fun i hi => by omega⟩

/-- Before it, those from its byte on and then those up to the hint. -/
theorem search_spec (h : PmmOk s) (byteIdx : Nat) (hlt : byteIdx < s.bitmap.length) :
    ∃ r, s.search byteIdx false = .ok r ∧
      SearchEnd s (fun i => byteIdx ≤ i ∨ i < s.searchHint) r := by
  have hint := h.hint (by omega)
  induction hk : s.bitmap.length - byteIdx generalizing byteIdx with
  | zero => omega
  | succ k ih =>
    obtain ⟨r, hr, hend⟩ := searchByte_spec h hlt
    rw [search, dif_pos hlt]
    simp only [hr]
    cases r with
    | some p => exact ⟨some p, rfl, hend⟩
    | none =>
      by_cases hlast : byteIdx + 1 ≥ s.bitmap.length
      · rw [if_pos hlast, if_neg Bool.false_ne_true]
        by_cases h0 : s.searchHint = 0
        · rw [if_pos h0]
          exact ⟨none, rfl, fun i hi hl => hend i hi (by omega)⟩
        · rw [if_neg h0]
          obtain ⟨r, hr, hend'⟩ := search_wrapped h 0 (by omega) hint
          exact ⟨r, hr, hend.cons hend' fun i hi => by omega⟩
      · rw [if_neg hlast, if_neg (fun e => Bool.false_ne_true e.1)]
        obtain ⟨r, hr, hend'⟩ := ih (byteIdx + 1) (by omega) (by omega)
        exact ⟨r, hr, hend.cons hend' fun i hi => by omega⟩

/-- **`allocPage` fails exactly where no page is free.** -/
theorem allocPage_spec (h : PmmOk s) : ∃ s' r, s.allocPage = .ok (s', r) ∧ PmmOk s' ∧
      (r = none → s.freePages = 0 ∧ s'.refcounts = s.refcounts ∧ s'.totalPages = s.totalPages) ∧
      ∀ a, r = some a → ∃ p, a = p * PAGE_SIZE ∧ 0 < s.freePages ∧ Takes s s' [p] := by
  rw [allocPage, h.initialized]
  by_cases hf : s.freePages = 0
  · refine ⟨s, none, ?_, h, fun _ => ⟨hf, rfl, rfl⟩, fun a e => (nomatch e)⟩
    simp only [hf, Bool.not_true, Bool.false_eq_true, if_false, if_true]
    rfl
  have hne : (clearBits s.bitmap).Nonempty := by
    rw [← Finset.card_pos, ← h.free]
    omega
  obtain ⟨q, hq⟩ := hne
  have hqb := mem_clearBits.mp hq
  have hhint := h.hint (by omega)
  obtain ⟨r, hr, hend⟩ := search_spec h s.searchHint hhint
  simp only [hf, Bool.not_true, Bool.false_eq_true, if_false, hr, ok_bind]
  cases r with
  | none =>
    -- every byte is full, yet `q` is clear
    have hfull := hend (q / 8) hqb.1 (by omega)
    have hset := bit_of_ones (b := q % 8) (Nat.mod_lt _ (by decide)) hfull
    rw [show q / 8 * 8 + q % 8 = q by omega, hqb.2] at hset
    cases hset
  | some p =>
    obtain ⟨s', hs', hok, htake, hlen⟩ := h.take hend.1 hend.2
    obtain ⟨s₁, ho, hc⟩ := (bind_ok_iff _ _).mp hs'
    simp only [ho, ok_bind, hc]
    refine ⟨_, _, rfl, ⟨hok.toMarked, hok.free, ?_, hok.initialized⟩, fun e => (nomatch e), ?_⟩
    · intro _
      rw [hlen]
      exact h.div_lt hend.1
    · intro a ha
      cases ha
      exact ⟨p, rfl, by omega, htake.total, htake.free, htake.refs⟩

/-! ### The runs of `allocPages` -/

theorem firstInUse_spec (h : PmmOk s) (start count : Nat) (hle : start + count ≤ s.totalPages) :
    ∃ r, s.firstInUse start count = .ok r ∧
      (r = none → ∀ p ∈ List.range' start count, s.bitmap.bit p = false) := by
  induction count generalizing start with
  | zero => exact ⟨none, rfl, fun _ p hp => (not_mem_nil hp).elim⟩
  | succ count ih =>
    rw [firstInUse, isBitSet_ok (h.div_lt (by omega))]
    cases hb : s.bitmap.bit start with
    | true => exact ⟨some start, rfl, fun e => by cases e⟩
    | false =>
      obtain ⟨r, hr, hnone⟩ := ih (start + 1) (by omega)
      refine ⟨r, hr, fun e p hp => ?_⟩
      rw [range'_succ] at hp
      rcases mem_cons.mp hp with rfl | hp
      · exact hb
      · exact hnone e p hp

theorem findRun_spec (h : PmmOk s) (count start : Nat) :
    ∃ r, s.findRun count start = .ok r ∧ ∀ q, r = some q →
      q + count ≤ s.totalPages ∧ ∀ p ∈ List.range' q count, s.bitmap.bit p = false := by
  induction hk : s.totalPages + 1 - start using Nat.strongRecOn generalizing start with
  | ind k ih =>
    rw [findRun]
    by_cases hle : start + count ≤ s.totalPages
    · rw [if_pos hle]
      obtain ⟨r, hr, hnone⟩ := firstInUse_spec h start count hle
      cases r with
      | none =>
        refine ⟨some start, ?_, fun q e => ?_⟩
        · split <;> rename_i e <;> rw [hr] at e <;> cases e
        · cases e
          exact ⟨hle, hnone rfl⟩
      | some p =>
        have hge := firstInUse_ge hr
        obtain ⟨r, hr', hq⟩ := ih _ (by omega) (p + 1) rfl
        refine ⟨r, ?_, hq⟩
        split <;> rename_i e <;> rw [hr] at e <;> cases e
        exact hr'
    · rw [if_neg hle]
      exact ⟨none, rfl, fun q e => by cases e⟩

/-- The allocation phase: every page of the list, all free, gets its bit and its one owner. -/
theorem occupyFree_spec (h : PmmOk s) {l : List Nat} (hnd : l.Nodup)
    (hl : ∀ p ∈ l, p < s.totalPages ∧ s.bitmap.bit p = false) :
    ∃ m r, l.foldlM occupyFree s = .ok { s with bitmap := m, refcounts := r } ∧
      Marked m r s.totalPages ∧ (clearBits m).card + l.length = (clearBits s.bitmap).card ∧
      ∀ p, owners r p = if p ∈ l then 1 else s.refs p := by
  let I (d : List Nat) (b : Pmm) : Prop := ∃ m r, b = { s with bitmap := m, refcounts := r } ∧
    Marked m r s.totalPages ∧ (clearBits m).card + d.length = (clearBits s.bitmap).card ∧
    (∀ p, p ∉ d → bit m p = s.bitmap.bit p) ∧ ∀ p, owners r p = if p ∈ d then 1 else s.refs p
  have hloop : ∃ b', l.foldlM occupyFree s = .ok b' ∧ I l b' := by
    refine Except.foldlM_ok (I := I) ?_ ⟨s.bitmap, s.refcounts, rfl, h.toMarked, rfl,
      fun _ _ => rfl, fun _ => rfl⟩
    rintro d p rest _ e ⟨m, r, rfl, hm, hcard, hbit, hown⟩
    have hp := hl p (e ▸ mem_append_right d mem_cons_self)
    have hd : p ∉ d := by
      intro hmem
      rw [e] at hnd
      exact (nodup_append.mp hnd).2.2 p hmem p mem_cons_self rfl
    have hclear : bit m p = false := by rw [hbit p hd, hp.2]
    have hdiv := hm.div_lt hp.1
    refine ⟨_, ?_, m.setBit p, r.set p 1, rfl, hm.setBit hp.1, ?_, ?_, ?_⟩
    · rw [occupyFree, isBitSet_ok (by exact hdiv), ok_bind]
      rw [if_neg (by simpa using hclear)]
      exact occupy_ok hdiv (hm.lt_length hp.1)
    · have := card_clearBits_setBit hdiv hclear
      rw [length_append, length_singleton]
      omega
    · intro k hk
      rw [mem_append, mem_singleton, not_or] at hk
      rw [bit_setBit k hdiv, decide_eq_false hk.2, Bool.false_or, hbit k hk.1]
    · intro k
      rw [owners_set (hm.lt_length hp.1), hown]
      grind
  obtain ⟨_, hb, m, r, rfl, hm, hcard, -, hown⟩ := hloop
  exact ⟨m, r, hb, hm, hcard, hown⟩

theorem allocPages_spec (h : PmmOk s) (count : Nat) :
    ∃ s' r, s.allocPages count = .ok (s', r) ∧ PmmOk s' ∧ (r = none → s' = s) ∧
      ∀ a, r = some a → ∃ q, a = q * PAGE_SIZE ∧ q + count ≤ s.totalPages ∧
        Takes s s' (List.range' q count) := by
  have stay : ∃ s' r, (.ok (s, none) : Except Trap (Pmm × Option Nat)) = .ok (s', r) ∧ PmmOk s' ∧
      (r = none → s' = s) ∧ ∀ a, r = some a → ∃ q, a = q * PAGE_SIZE ∧
        q + count ≤ s.totalPages ∧ Takes s s' (List.range' q count) :=
    ⟨s, none, rfl, h, fun _ => rfl, fun a e => (nomatch e)⟩
  rw [allocPages, h.initialized]
  by_cases h0 : count = 0
  · simp only [h0, or_true, if_true]
    rw [← h0]
    exact stay
  by_cases hfree : s.freePages < count
  · simp only [h0, hfree, Bool.not_true, Bool.false_eq_true, or_false, if_false, if_true]
    exact stay
  obtain ⟨r, hr, hrun⟩ := findRun_spec h count 0
  simp only [h0, hfree, Bool.not_true, Bool.false_eq_true, or_false, if_false, hr, ok_bind]
  cases r with
  | none => exact stay
  | some q =>
    obtain ⟨hle, hclear⟩ := hrun q rfl
    have hpages : ∀ p ∈ List.range' q count, p < s.totalPages ∧ s.bitmap.bit p = false := by
      intro p hp
      have := mem_range'_1.mp hp
      exact ⟨by omega, hclear p hp⟩
    obtain ⟨m, r, hloop, hm, hcard, hown⟩ := occupyFree_spec h nodup_range' hpages
    simp only [hloop, ok_bind]
    rw [countAllocated_ok (by exact Nat.le_of_not_lt hfree)]
    rw [length_range'] at hcard
    refine ⟨_, some (q * PAGE_SIZE), rfl, ⟨hm, ?_, ?_, h.initialized⟩, fun e => (nomatch e), ?_⟩
    · show s.freePages - count = (clearBits m).card
      have := h.free
      omega
    · intro hlen
      rw [hm.length_bitmap, ← h.length_bitmap] at hlen ⊢
      exact h.hint hlen
    · intro a ha
      cases ha
      exact ⟨q, rfl, hle, rfl, fun p hp => ⟨(hpages p hp).1,
        (h.of_clear (hpages p hp).1 (hpages p hp).2).1⟩, hown⟩

end Alloc

/-! ## 4. Reference counts -/

section Refs

variable {s : Pmm}

/-- The page of the address is in use, or the address lies behind the last page. -/
def InUse (s : Pmm) (physAddr : Nat) : Prop :=
  physAddr / PAGE_SIZE < s.totalPages → s.bitmap.bit (physAddr / PAGE_SIZE) = true

theorem refPage_spec (h : PmmOk s) {physAddr : Nat} (hu : InUse s physAddr) :
    (physAddr / PAGE_SIZE < s.totalPages ∧ s.refs (physAddr / PAGE_SIZE) = U16_MAX ∧
      s.refPage physAddr = .error (.panic "PMM: Refcount overflow for page {x}" [physAddr])) ∨
    ∃ s', s.refPage physAddr = .ok s' ∧ PmmOk s' ∧ s'.totalPages = s.totalPages ∧
      ∀ p, s'.refs p = if p = physAddr / PAGE_SIZE ∧ p < s.totalPages then s.refs p + 1
        else s.refs p := by
  rw [refPage, h.initialized]
  by_cases hp : physAddr / PAGE_SIZE < s.totalPages
  · have hlt := h.lt_length hp
    have hbit := hu hp
    simp only [Bool.not_true, Bool.false_eq_true, if_false, Nat.not_le_of_lt hp,
      refcount_ok hlt, ok_bind]
    by_cases hmax : s.refs (physAddr / PAGE_SIZE) = U16_MAX
    · left
      rw [if_pos hmax]
      exact ⟨hp, hmax, rfl⟩
    right
    rw [if_neg hmax, setRefcount_ok hlt]
    refine ⟨_, rfl, ⟨h.toMarked.setCount hp hbit (Nat.succ_pos _), h.free, h.hint,
      h.initialized⟩, rfl, fun p => ?_⟩
    show owners (s.refcounts.set _ _) p = _
    rw [owners_set hlt]
    by_cases e : p = physAddr / PAGE_SIZE
    · rw [if_pos e, if_pos ⟨e, e ▸ hp⟩, e]
    · rw [if_neg e, if_neg (fun h => e h.1)]
      rfl
  · right
    simp only [Bool.not_true, Bool.false_eq_true, if_false, Nat.le_of_not_lt hp, if_true]
    refine ⟨s, rfl, h, rfl, fun p => ?_⟩
    have hne : ¬ (p = physAddr / PAGE_SIZE ∧ p < s.totalPages) := fun e => hp (e.1 ▸ e.2)
    rw [if_neg hne]

/-- **Freeing a page takes away one owner**; with the last one the page is free. -/
theorem freePage_spec (debug : Bool) (h : PmmOk s) {physAddr : Nat} (hu : InUse s physAddr) :
    ∃ s', Pmm.freePage debug s physAddr = .ok s' ∧ PmmOk s' ∧ s'.totalPages = s.totalPages ∧
      ∀ p, s'.refs p = if physAddr % PAGE_SIZE = 0 ∧ p = physAddr / PAGE_SIZE then s.refs p - 1
        else s.refs p := by
  rw [Pmm.freePage, h.initialized]
  by_cases hal : isPageAligned physAddr = true
  · have hal' : physAddr % PAGE_SIZE = 0 := by simpa [isPageAligned] using hal
    by_cases hp : physAddr / PAGE_SIZE < s.totalPages
    · have hlt := h.lt_length hp
      have hbit := hu hp
      have hdiv := h.div_lt hp
      have hpos := (h.bit_iff _ hp).mp hbit
      have hown : ∀ v, (∀ e : v = s.refs (physAddr / PAGE_SIZE) - 1, ∀ p,
          owners (s.refcounts.set (physAddr / PAGE_SIZE) v) p =
            if physAddr % PAGE_SIZE = 0 ∧ p = physAddr / PAGE_SIZE then s.refs p - 1
            else s.refs p) := by
        rintro v rfl p
        rw [owners_set hlt]
        by_cases e : p = physAddr / PAGE_SIZE
        · rw [if_pos e, if_pos ⟨hal', e⟩, e]
        · rw [if_neg e, if_neg (fun h => e h.2)]
          rfl
      have hne : s.refs (physAddr / PAGE_SIZE) ≠ 0 := Nat.ne_of_gt hpos
      simp only [hal, Bool.not_true, Bool.false_eq_true, if_false, Nat.not_le_of_lt hp,
        Pmm.isBitSet_ok hdiv, hbit, Pmm.refcount_ok hlt, hne, Pmm.setRefcount_ok hlt,
        ok_bind]
      by_cases hlast : s.refs (physAddr / PAGE_SIZE) - 1 = 0
      · rw [if_pos hlast, Pmm.clearBit, if_neg (by exact Nat.not_le_of_lt hdiv)]
        refine ⟨_, rfl, ⟨?_, ?_, ?_, h.initialized⟩, rfl, hown _ rfl⟩
        · rw [hlast]
          exact h.toMarked.clearBit hp
        · show s.freePages + 1 = (clearBits (s.bitmap.clearBit _)).card
          rw [Bitmap.card_clearBits_clearBit hdiv hbit, h.free]
        · intro _
          rw [Bitmap.length_clearBit]
          exact h.hint (Nat.zero_lt_of_lt hdiv)
      · rw [if_neg hlast]
        exact ⟨_, rfl, ⟨h.toMarked.setCount hp hbit (Nat.pos_of_ne_zero hlast), h.free, h.hint,
          h.initialized⟩, rfl, hown _ rfl⟩
    · simp only [hal, Bool.not_true, Bool.false_eq_true, if_false, Nat.le_of_not_lt hp, if_true]
      refine ⟨s, rfl, h, rfl, fun p => ?_⟩
      by_cases e : physAddr % PAGE_SIZE = 0 ∧ p = physAddr / PAGE_SIZE
      · have h0 : s.refs p = 0 := by
          rw [Pmm.refs, owners, getD_eq_getElem?_getD, getElem?_eq_none]
          · rfl
          · rw [h.length_refcounts, e.2]
            exact Nat.le_of_not_lt hp
        rw [if_pos e, h0]
      · rw [if_neg e]
  · have hal' : ¬ physAddr % PAGE_SIZE = 0 := by simpa [isPageAligned] using hal
    simp only [hal, Bool.not_true, Bool.false_eq_true, if_false, Bool.not_false, if_true]
    refine ⟨s, rfl, h, rfl, fun p => ?_⟩
    rw [if_neg (fun e => hal' e.1)]

end Refs

/-! ## 5. Initialisation -/

/-- The address lies in the entry. -/
def MemoryDescriptor.Covers (e : MemoryDescriptor) (a : Nat) : Prop :=
  e.physStart ≤ a ∧ a < e.physStart + e.numPages * PAGE_SIZE

/-- The Conventional regions are page-aligned and do not overlap. -/
structure MemmapOk (memmap : List MemoryDescriptor) : Prop where
  aligned : ∀ e ∈ memmap, e.type = .Conventional → e.physStart % PAGE_SIZE = 0
  apart : memmap.Pairwise fun e f => e.type = .Conventional → f.type = .Conventional →
    ∀ a, ¬ (e.Covers a ∧ f.Covers a)

section Init

variable {memmap : List MemoryDescriptor} {e : MemoryDescriptor} {p : Nat}

theorem endAddr_eq {endAddr : Nat} (h : e.endAddr = some endAddr) :
    endAddr = e.physStart + e.numPages * PAGE_SIZE := by
  unfold MemoryDescriptor.endAddr MemoryDescriptor.length at h
  by_cases hl : e.numPages * PAGE_SIZE < 2 ^ 64
  · by_cases he : e.physStart + e.numPages * PAGE_SIZE < 2 ^ 64
    · simp only [hl, if_true, bind_eq_bind, bind_some, he, Option.some.injEq] at h
      exact h.symm
    · simp only [hl, if_true, bind_eq_bind, bind_some, he, if_false] at h
      cases h
  · simp only [hl, if_false, bind_eq_bind, bind_none] at h
    cases h

/-- A page the third pass goes through lies whole in its entry, which ends where the code says. -/
theorem mem_regionPages (h : p ∈ regionPages e) :
    e.type = .Conventional ∧ e.physStart ≤ p * PAGE_SIZE ∧
      ∃ endAddr, e.endAddr = some endAddr ∧ (p + 1) * PAGE_SIZE ≤ endAddr := by
  unfold regionPages at h
  by_cases ht : e.type = .Conventional
  · rw [if_pos ht] at h
    split at h
    · rename_i regionEnd regionStart hend hstart
      unfold pageAlignUp at hstart
      by_cases hfit : e.physStart + (PAGE_SIZE - 1) < 2 ^ 64
      · rw [if_pos hfit, Option.some.injEq] at hstart
        obtain ⟨hlo, hhi⟩ := mem_range'_1.mp h
        rw [← hstart] at hlo hhi
        unfold pageAlignDown PAGE_SIZE at hlo hhi
        unfold PAGE_SIZE
        exact ⟨ht, by omega, regionEnd, hend, by omega⟩
      · rw [if_neg hfit] at hstart
        cases hstart
    · cases h
  · rw [if_neg ht] at h
    cases h

theorem regionPages_covers (h : p ∈ regionPages e) : e.Covers (p * PAGE_SIZE) := by
  obtain ⟨-, hstart, endAddr, hend, hle⟩ := mem_regionPages h
  rw [endAddr_eq hend] at hle
  exact ⟨hstart, Nat.lt_of_lt_of_le (Nat.mul_lt_mul_of_pos_right (Nat.lt_succ_self p) (by decide)) hle⟩

theorem nodup_regionPages (e : MemoryDescriptor) : (regionPages e).Nodup := by
  unfold regionPages
  split
  · split
    · exact nodup_range'
    · exact nodup_nil
  · exact nodup_nil

/-- **No page is marked free twice.** -/
theorem MemmapOk.nodup (h : MemmapOk memmap) : (memmap.flatMap regionPages).Nodup := by
  refine nodup_flatMap.mpr ⟨fun e _ => nodup_regionPages e, h.apart.imp ?_⟩
  intro e f hef p hp hp'
  exact hef (mem_regionPages hp).1 (mem_regionPages hp').1 (p * PAGE_SIZE)
    ⟨regionPages_covers hp, regionPages_covers hp'⟩

theorem le_highestUsableEnd {endAddr : Nat} (he : e ∈ memmap) (ht : e.type = .Conventional)
    (h : e.endAddr = some endAddr) : endAddr ≤ highestUsableEnd memmap := by
  unfold highestUsableEnd
  have hmono : ∀ (l : List MemoryDescriptor) (a : Nat), a ≤ l.foldl (fun highest e =>
      match e.endAddr with
      | some endAddr =>
        if e.type = .Conventional ∧ endAddr > highest then endAddr else highest
      | none => highest) a := by
    intro l
    induction l with
    | nil => exact fun a => Nat.le_refl a
    | cons f l ih =>
      intro a
      refine Nat.le_trans ?_ (ih _)
      show a ≤ match f.endAddr with
        | some endAddr => if f.type = .Conventional ∧ endAddr > a then endAddr else a
        | none => a
      split
      · split
        · omega
        · exact Nat.le_refl a
      · exact Nat.le_refl a
  obtain ⟨l₁, l₂, rfl⟩ := append_of_mem he
  rw [foldl_append, foldl_cons]
  refine Nat.le_trans ?_ (hmono l₂ _)
  simp only [h, ht, true_and]
  split <;> omega

/-- Every page that is marked free is one of the pages counted. -/
theorem page_lt_total (h : p ∈ memmap.flatMap regionPages) :
    p < highestUsableEnd memmap / PAGE_SIZE := by
  obtain ⟨e, he, hp⟩ := mem_flatMap.mp h
  obtain ⟨ht, -, endAddr, hend, hle⟩ := mem_regionPages hp
  have := le_highestUsableEnd he ht hend
  simp only [PAGE_SIZE] at hle ⊢
  omega

theorem foldlM_flatMap {f : Pmm → Nat → Except Trap Pmm} {g : MemoryDescriptor → List Nat}
    (l : List MemoryDescriptor) (s : Pmm) :
    l.foldlM (fun s e => (g e).foldlM f s) s = (l.flatMap g).foldlM f s := by
  induction l generalizing s with
  | nil => rfl
  | cons e l ih =>
    rw [foldlM_cons, flatMap_cons, foldlM_append]
    exact congrArg _ (funext ih)

/-- The third pass: from a map that is all set, exactly the pages of the list become free. -/
theorem markFree_spec {s : Pmm} {l : List Nat} (hm : Marked s.bitmap s.refcounts s.totalPages)
    (h0 : clearBits s.bitmap = ∅) (hnd : l.Nodup) (hl : ∀ p ∈ l, p < s.totalPages) :
    ∃ m r, l.foldlM markFree s =
        .ok { s with bitmap := m, refcounts := r, freePages := s.freePages + l.length } ∧
      Marked m r s.totalPages ∧ (clearBits m).card = l.length := by
  let I (d : List Nat) (b : Pmm) : Prop := ∃ m r,
    b = { s with bitmap := m, refcounts := r, freePages := s.freePages + d.length } ∧
    Marked m r s.totalPages ∧ clearBits m = d.toFinset ∧ (clearBits m).card = d.length
  have hloop : ∃ b', l.foldlM markFree s = .ok b' ∧ I l b' := by
    refine Except.foldlM_ok (I := I) ?_ ⟨s.bitmap, s.refcounts, rfl, hm, h0, by rw [h0]; rfl⟩
    rintro d p rest _ e ⟨m, r, rfl, hm, hset, hcard⟩
    have hp := hl p (e ▸ mem_append_right d mem_cons_self)
    have hd : p ∉ d := by
      intro hmem
      rw [e] at hnd
      exact (nodup_append.mp hnd).2.2 p hmem p mem_cons_self rfl
    have hdiv := hm.div_lt hp
    have hbit : bit m p = true := by
      have hnot : p ∉ clearBits m := by rwa [hset, List.mem_toFinset]
      rw [mem_clearBits, not_and] at hnot
      simpa using hnot hdiv
    refine ⟨_, markFree_ok (by exact hdiv) (by exact hm.lt_length hp), m.clearBit p,
      r.set p 0, ?_, hm.clearBit hp, ?_, ?_⟩
    · rw [length_append]
      rfl
    · rw [clearBits_clearBit hdiv, hset, toFinset_append, Finset.union_comm]
      rfl
    · rw [card_clearBits_clearBit hdiv hbit, hcard, length_append]
      rfl
  obtain ⟨_, hb, m, r, rfl, hm, -, hcard⟩ := hloop
  exact ⟨m, r, hb, hm, hcard⟩

/-- What the reservations keep: the counter counts, and the pages stay the same. -/
structure Counted (n start : Nat) (s : Pmm) : Prop
    extends Marked s.bitmap s.refcounts s.totalPages where
  free : s.freePages = (clearBits s.bitmap).card
  total : s.totalPages = n
  start : s.memoryStart = start

variable {n start : Nat} {s : Pmm}

theorem Counted.reserve (h : Counted n start s) (p : Nat) :
    ∃ s', s.reserve p = .ok s' ∧ Counted n start s' := by
  rw [Pmm.reserve]
  by_cases hp : p < s.totalPages
  · have hdiv := h.div_lt hp
    have hlt := h.lt_length hp
    rw [if_pos hp, Pmm.isBitSet_ok hdiv, ok_bind]
    cases hb : s.bitmap.bit p with
    | true =>
      rw [if_neg (by decide), Pmm.setRefcount_ok hlt]
      exact ⟨_, rfl, h.toMarked.setCount hp hb Nat.one_pos, h.free, h.total, h.start⟩
    | false =>
      rw [if_pos (by decide), Pmm.occupy_ok hdiv hlt, ok_bind]
      refine ⟨_, rfl, h.toMarked.setBit hp, ?_, h.total, h.start⟩
      have := Bitmap.card_clearBits_setBit hdiv hb
      have := h.free
      show s.freePages - 1 = (clearBits (s.bitmap.setBit p)).card
      omega
  · rw [if_neg hp]
    exact ⟨s, rfl, h⟩

theorem Counted.reserveRange (h : Counted n start s) (first count : Nat) :
    ∃ s', s.reserveRange first count = .ok s' ∧ Counted n start s' :=
  Except.foldlM_ok_of (I := Counted n start) (fun _ hb p _ => hb.reserve p) h

theorem owners_replicate (hp : p < n) : owners (List.replicate n 1) p = 1 := by
  rw [owners, getD_eq_getElem?_getD, getElem?_replicate, if_pos hp]
  rfl

theorem marked_ones (n : Nat) : Marked (List.replicate (bitmapSize n) (BitVec.allOnes 8))
    (List.replicate n 1) n where
  length_bitmap := length_replicate
  length_refcounts := length_replicate
  bit_iff p hp := by
    rw [owners_replicate hp, bit_replicate_ones p (by rw [bitmapSize]; omega)]
    decide
  tail p _ hlt := by
    rw [length_replicate] at hlt
    exact bit_replicate_ones p (by omega)

theorem initPages_spec (hmap : MemmapOk memmap) (metadata : Nat)
    (hm : Marked s.bitmap s.refcounts s.totalPages) (h0 : clearBits s.bitmap = ∅)
    (hfree : s.freePages = 0) (htotal : s.totalPages = highestUsableEnd memmap / PAGE_SIZE) :
    ∃ s', s.initPages memmap metadata = .ok s' ∧ PmmOk s' := by
  rw [initPages]
  simp only [foldlM_flatMap]
  obtain ⟨m, r, hpass, hm, hcard⟩ :=
    markFree_spec hm h0 hmap.nodup fun p hp => htotal ▸ page_lt_total hp
  have h₁ : Counted s.totalPages s.memoryStart { s with
      bitmap := m
      refcounts := r
      freePages := s.freePages + (memmap.flatMap regionPages).length } :=
    ⟨hm, by rw [hfree, Nat.zero_add]; exact hcard.symm, rfl, rfl⟩
  rw [hpass, ok_bind]
  obtain ⟨s₂, e₂, h₂⟩ := h₁.reserveRange 0 1
  rw [e₂, ok_bind]
  obtain ⟨s₃, e₃, h₃⟩ := h₂.reserveRange (metadata / PAGE_SIZE)
    ((totalMetadata s₂.totalPages + (PAGE_SIZE - 1)) / PAGE_SIZE)
  rw [e₃, ok_bind]
  obtain ⟨s₄, e₄, h₄⟩ := h₃.reserveRange (0x100000 / PAGE_SIZE) ((0x400000 - 0x100000) / PAGE_SIZE)
  rw [e₄, ok_bind]
  refine ⟨_, rfl, h₄.toMarked, h₄.free, fun hlen => ?_, rfl⟩
  show (if s₄.memoryStart / PAGE_SIZE / 8 ≥ bitmapSize s₄.totalPages then 0
    else s₄.memoryStart / PAGE_SIZE / 8) < s₄.bitmap.length
  rw [h₄.length_bitmap] at hlen ⊢
  split <;> omega

/-- **An initialisation that succeeds builds the invariant.** -/
theorem init_spec (hmap : MemmapOk memmap) (h : init {} memmap = .ok (.ok s)) : PmmOk s := by
  rw [init, if_neg (by decide)] at h
  obtain ⟨_, -, h⟩ := (bind_ok_iff _ _).mp h
  simp only at h
  split at h
  · cases h
  rename_i metadata _
  obtain ⟨s', hs', hok⟩ := initPages_spec hmap metadata
    (s := { bitmap := _, refcounts := _, totalPages := _, memoryStart := _, memoryEnd := _ })
    (marked_ones _) (clearBits_ones _) rfl rfl
  rw [hs'] at h
  cases h
  exact hok

end Init

/-! ## 6. Runs -/

inductive PmmEvent where
  | allocPage
  | allocPages (count : Nat)
  | allocSpecificPage (physAddr : Nat)
  | refPage (physAddr : Nat)
  | freePage (physAddr : Nat)
  deriving DecidableEq, Repr

def handlePmm (debug : Bool) (s : Pmm) : PmmEvent → Except Trap Pmm
  | .allocPage => s.allocPage.map Prod.fst
  | .allocPages count => (s.allocPages count).map Prod.fst
  | .allocSpecificPage physAddr => (s.allocSpecificPage physAddr).map Prod.fst
  | .refPage physAddr => s.refPage physAddr
  | .freePage physAddr => freePage debug s physAddr

/-- The allocator from its initialisation on; after a trap nothing more happens. -/
def pmm (debug : Bool) : Machine (Except Trap Pmm) PmmEvent where
  start r := ∃ memmap s, MemmapOk memmap ∧ init {} memmap = .ok (.ok s) ∧ r = .ok s
  step r e := r >>= fun s => handlePmm debug s e

/-- `refPage` and `freePage` are called on pages in use. -/
def OnInUse (r : Except Trap Pmm) : PmmEvent → Prop
  | .refPage physAddr | .freePage physAddr => ∀ s, r = .ok s → InUse s physAddr
  | _ => True

/-- What a run keeps: the invariant, and no trap but the overflow of a reference count. -/
def PmmRun : Except Trap Pmm → Prop
  | .ok s => PmmOk s
  | .error t => ∃ a, t = .panic "PMM: Refcount overflow for page {x}" [a]

theorem handlePmm_spec (debug : Bool) {s : Pmm} (h : PmmOk s) {e : PmmEvent}
    (hu : OnInUse (.ok s) e) : PmmRun (handlePmm debug s e) := by
  cases e with
  | allocPage =>
    obtain ⟨s', r, hs', hok, -⟩ := allocPage_spec h
    rw [handlePmm, hs']
    exact hok
  | allocPages count =>
    obtain ⟨s', r, hs', hok, -⟩ := allocPages_spec h count
    rw [handlePmm, hs']
    exact hok
  | allocSpecificPage a =>
    obtain ⟨s', r, hs', hok, -⟩ := allocSpecificPage_spec h a
    rw [handlePmm, hs']
    exact hok
  | refPage a =>
    rcases refPage_spec h (hu s rfl) with ⟨-, -, ht⟩ | ⟨s', hs', hok, -⟩
    · rw [handlePmm, ht]
      exact ⟨a, rfl⟩
    · rw [handlePmm, hs']
      exact hok
  | freePage a =>
    obtain ⟨s', hs', hok, -⟩ := freePage_spec debug h (hu s rfl)
    rw [handlePmm, hs']
    exact hok

theorem pmm_run {debug : Bool} {r : Except Trap Pmm} (h : (pmm debug).Reach OnInUse r) :
    PmmRun r := by
  refine h.invariant (fun r hr => ?_) (fun r e _ hr hu => ?_)
  · obtain ⟨memmap, s, hmap, hinit, rfl⟩ := hr
    exact init_spec hmap hinit
  · cases r with
    | error t => exact hr
    | ok s => exact handlePmm_spec debug hr hu

/-- **The page allocator keeps its books.** After every initialisation and every sequence of
    operations: a page's bit is set exactly where it has owners, the bits without a page are set,
    `free_pages` is the number of clear bits; and `allocPage` comes to its end (so its three-bit
    counter does not run over) with a page exactly where one is free, and that page was. -/
theorem pmmInvariant {debug : Bool} {s : Pmm} (h : (pmm debug).Reach OnInUse (.ok s)) :
    (∀ p < s.totalPages, s.bitmap.bit p = true ↔ 0 < s.refs p) ∧
    (∀ p, s.totalPages ≤ p → p < 8 * s.bitmap.length → s.bitmap.bit p = true) ∧
    s.freePages = (clearBits s.bitmap).card ∧
    ∃ s' r, s.allocPage = .ok (s', r) ∧ (r.isSome = true ↔ 0 < s.freePages) ∧
      ∀ a, r = some a → ∃ p < s.totalPages, a = p * PAGE_SIZE ∧ s.bitmap.bit p = false := by
  have hok : PmmOk s := pmm_run h
  obtain ⟨s', r, hs', -, hnone, hsome⟩ := allocPage_spec hok
  refine ⟨hok.bit_iff, hok.tail, hok.free, s', r, hs', ?_, fun a ha => ?_⟩
  · cases r with
    | none =>
      rw [(hnone rfl).1]
      decide
    | some a =>
      obtain ⟨p, -, hpos, -⟩ := hsome a rfl
      exact ⟨fun _ => hpos, fun _ => rfl⟩
  · obtain ⟨p, hp, -, htake⟩ := hsome a ha
    obtain ⟨hlt, h0⟩ := htake.free p (mem_singleton_self p)
    have hmem := hok.mem_clearBits.mpr ⟨hlt, h0⟩
    exact ⟨p, hlt, hp, (mem_clearBits.mp hmem).2⟩

/-- Four pages below 1 MB and one region for the metadata, all of it reserved afterwards. -/
def smallMemmap : List MemoryDescriptor :=
  [⟨.Conventional, 0x1000, 4⟩, ⟨.other 0, 0x9000, 3⟩, ⟨.Conventional, 0x100000, 36⟩]

theorem smallMemmap_ok : MemmapOk smallMemmap where
  aligned := by decide
  apart := by
    simp only [smallMemmap, pairwise_cons, mem_cons, not_mem_nil, or_false,
      MemoryDescriptor.Covers, PAGE_SIZE]
    grind

/-- The manager of that map: the four pages are free. -/
def smallPmm : Pmm where
  bitmap := 0xE1#8 :: replicate 36 0xFF#8
  refcounts := [1, 0, 0, 0, 0] ++ replicate 287 1
  totalPages := 292
  freePages := 4
  memoryStart := 0x1000
  memoryEnd := 0x124000
  initialized := true

theorem smallMemmap_init : init {} smallMemmap = .ok (.ok smallPmm) := by
  decide +kernel

theorem pmmInvariant_smallMemmap : ∃ s s' a, init {} smallMemmap = .ok (.ok s) ∧
    s.allocPage = .ok (s', some a) ∧ (clearBits s.bitmap).card = 4 := by
  have hreach : (pmm true).Reach OnInUse (.ok smallPmm) :=
    .start ⟨_, smallPmm, smallMemmap_ok, smallMemmap_init, rfl⟩
  obtain ⟨-, -, hcard, s', r, hs', hsome, -⟩ := pmmInvariant hreach
  obtain ⟨a, rfl⟩ := isSome_iff_exists.mp (hsome.mpr (by decide))
  exact ⟨smallPmm, s', a, smallMemmap_init, hs', hcard.symm⟩

end Zigk.Mm
