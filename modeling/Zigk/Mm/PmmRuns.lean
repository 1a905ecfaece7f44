/-
  Subject:   `allocPages` FINDS THE LOWEST RUN OF FREE PAGES.

  On a page in use the search goes on behind that page. Every run it leaves out would hold the
  page, so it leaves out none (`FreeRun.of_inUse`, `findRun_least`).

  * **`allocPages_lowest`** -- the call takes the lowest run, and only where there is none it
    fails.
-/
import Zigk.Mm.PmmInvariant
import Mathlib.Order.Interval.Finset.Nat

namespace Zigk.Mm

open List

open Bitmap (clearBits)

/-- The `count` pages from `q` on lie below `total_pages` and are free. -/
def FreeRun (s : Pmm) (count q : Nat) : Prop :=
  q + count ≤ s.totalPages ∧ ∀ p, q ≤ p → p < q + count → s.bitmap.bit p = false

section Search

variable {s : Pmm} {start count p q : Nat}

/-- No run of free pages holds a page in use: it starts behind it or ends before it. -/
theorem FreeRun.of_inUse (h : FreeRun s count q) (hp : s.bitmap.bit p = true) :
    p < q ∨ q + count ≤ p := by
  by_contra hin
  rw [not_or] at hin
  have hclear := h.2 p (Nat.le_of_not_lt hin.1) (Nat.lt_of_not_le hin.2)
  rw [hp] at hclear
  cases hclear

/-- The page at which the inner loop breaks off is one of the candidate's, and it is in use. -/
theorem firstInUse_some (h : PmmOk s) (hle : start + count ≤ s.totalPages)
    (hp : s.firstInUse start count = .ok (some p)) :
    p < start + count ∧ s.bitmap.bit p = true := by
  induction count generalizing start with
  | zero => cases hp
  | succ count ih =>
    rw [Pmm.firstInUse, Pmm.isBitSet_ok (h.div_lt (by omega))] at hp
    cases hb : s.bitmap.bit start with
    | true =>
      rw [hb] at hp
      cases hp
      exact ⟨by omega, hb⟩
    | false =>
      rw [hb] at hp
      obtain ⟨hlt, hset⟩ := @ih (start + 1) (by omega) hp
      exact ⟨by omega, hset⟩

/-- **The search misses no run**: of the runs from `start` on it finds the first, or there is
    none. -/
theorem findRun_least (h : PmmOk s) (count start : Nat) :
    (∃ q, s.findRun count start = .ok (some q) ∧ FreeRun s count q ∧
      ∀ k, start ≤ k → FreeRun s count k → q ≤ k) ∨
    s.findRun count start = .ok none ∧ ∀ k, start ≤ k → ¬ FreeRun s count k := by
  induction hk : s.totalPages + 1 - start using Nat.strongRecOn generalizing start with
  | ind n ih =>
    by_cases hle : start + count ≤ s.totalPages
    · obtain ⟨r, hr, hnone⟩ := firstInUse_spec h start count hle
      cases r with
      | none =>
        refine .inl ⟨start, ?_, ⟨hle, fun p hge hlt => ?_⟩, fun k hge _ => hge⟩
        · rw [Pmm.findRun, if_pos hle]
          split <;> rename_i e <;> rw [hr] at e <;> cases e
        · exact hnone rfl p (mem_range'_1.mpr ⟨hge, hlt⟩)
      | some p =>
        have hge := Pmm.firstInUse_ge hr
        obtain ⟨hlt, hset⟩ := firstInUse_some h hle hr
        -- a run from `start` on that is not behind `p` would hold `p`
        have hskip : ∀ k, start ≤ k → FreeRun s count k → p + 1 ≤ k := by
          intro k hsk hrun
          have := hrun.of_inUse hset
          omega
        have hstep : s.findRun count start = s.findRun count (p + 1) := by
          rw [Pmm.findRun, if_pos hle]
          split <;> rename_i e <;> rw [hr] at e <;> cases e
          rfl
        rw [hstep]
        rcases ih _ (by omega) (p + 1) rfl with ⟨q, hq, hrun, hleast⟩ | ⟨hq, hno⟩
        · exact .inl ⟨q, hq, hrun, fun k hsk hr => hleast k (hskip k hsk hr) hr⟩
        · exact .inr ⟨hq, fun k hsk hr => hno k (hskip k hsk hr) hr⟩
    · refine .inr ⟨by rw [Pmm.findRun, if_neg hle], fun k hsk hrun => ?_⟩
      have := hrun.1
      omega

/-- The counter of free pages is no smaller than any run. -/
theorem freeRun_le (h : PmmOk s) (hrun : FreeRun s count q) : count ≤ s.freePages := by
  have hsub : Finset.Ico q (q + count) ⊆ clearBits s.bitmap := by
    intro p hp
    obtain ⟨hge, hlt⟩ := Finset.mem_Ico.mp hp
    have := hrun.1
    exact Bitmap.mem_clearBits.mpr ⟨h.div_lt (by omega), hrun.2 p hge hlt⟩
  calc count = (Finset.Ico q (q + count)).card := by rw [Nat.card_Ico]; omega
    _ ≤ (clearBits s.bitmap).card := Finset.card_le_card hsub
    _ = s.freePages := h.free.symm

end Search

/-! ## What the call changes -/

section Alloc

variable {s s' : Pmm} {count q : Nat}

/-- The bit of a page that exists, by the page's owners. -/
theorem PmmOk.bit_eq (h : PmmOk s) {p : Nat} (hp : p < s.totalPages) :
    s.bitmap.bit p = decide (0 < s.refs p) :=
  Bool.eq_iff_iff.mpr ((h.bit_iff p hp).trans decide_eq_true_iff.symm)

/-- Behind the last page the bits are set up to the end of the map, and read clear from there. -/
theorem PmmOk.bit_tail (h : PmmOk s) {p : Nat} (hp : s.totalPages ≤ p) :
    s.bitmap.bit p = decide (p < 8 * Pmm.bitmapSize s.totalPages) := by
  rw [← h.length_bitmap]
  by_cases hlt : p < 8 * s.bitmap.length
  · rw [h.tail p hp hlt, decide_eq_true hlt]
  · rw [decide_eq_false hlt, Bitmap.bit_eq_getLsbD, getD_eq_getElem?_getD,
      getElem?_eq_none (by omega)]
    exact BitVec.getLsbD_zero

/-- **The bits follow the owners**: what a call takes is set, every other bit is as it was. -/
theorem Takes.bit (htake : Takes s s' (List.range' q count)) (h : PmmOk s) (h' : PmmOk s')
    (p : Nat) :
    s'.bitmap.bit p = if q ≤ p ∧ p < q + count then true else s.bitmap.bit p := by
  have hmem := mem_range'_1 (s := q) (n := count) (m := p)
  by_cases hp : p < s.totalPages
  · rw [h'.bit_eq (htake.total ▸ hp), h.bit_eq hp, htake.refs p]
    by_cases hin : q ≤ p ∧ p < q + count
    · rw [if_pos hin, if_pos (hmem.mpr hin)]
      rfl
    · rw [if_neg hin, if_neg (fun e => hin (hmem.mp e))]
  · have hout : ¬ (q ≤ p ∧ p < q + count) := fun hin => hp (htake.free p (hmem.mpr hin)).1
    have hge := Nat.le_of_not_lt hp
    rw [if_neg hout, h.bit_tail hge, h'.bit_tail (htake.total ▸ hge), htake.total]

/-- The call asks the counter and then the search, and answers with the search's page. -/
theorem allocPages_result (h : PmmOk s) (hcount : 1 ≤ count) {r : Option Nat}
    (hr : s.allocPages count = .ok (s', r)) :
    s.freePages < count ∧ r = none ∨
      ∃ start, s.findRun count 0 = .ok start ∧ r = start.map (· * PAGE_SIZE) := by
  have h0 : count ≠ 0 := by omega
  rw [Pmm.allocPages, h.initialized] at hr
  by_cases hfree : s.freePages < count
  · simp only [h0, hfree, Bool.not_true, Bool.false_eq_true, or_false, if_false, if_true] at hr
    cases hr
    exact .inl ⟨hfree, rfl⟩
  simp only [h0, hfree, Bool.not_true, Bool.false_eq_true, or_false, if_false] at hr
  obtain ⟨start, hs, hr⟩ := (Except.bind_ok_iff _ _).mp hr
  refine .inr ⟨start, hs, ?_⟩
  cases start with
  | none =>
    cases hr
    rfl
  | some q =>
    obtain ⟨s₁, -, hr⟩ := (Except.bind_ok_iff _ _).mp hr
    obtain ⟨s₂, -, hr⟩ := (Except.bind_ok_iff _ _).mp hr
    cases hr
    rfl

end Alloc

/-- **`allocPages` takes the lowest run.** In every state that keeps the books, for every count
    but zero: the call returns the lowest page-aligned address at which `count` free pages begin
    that all lie below `total_pages`, sets the bits of these pages and gives each one owner, and
    changes the bit and the owners of no other page; it returns null only where no such run
    exists, and then the state is the one before. -/
theorem allocPages_lowest {s : Pmm} (h : PmmOk s) {count : Nat} (hcount : 1 ≤ count) :
    (∃ s' a, s.allocPages count = .ok (s', some a) ∧ PmmOk s' ∧
      IsLeast {a | a % PAGE_SIZE = 0 ∧ FreeRun s count (a / PAGE_SIZE)} a ∧
      s'.totalPages = s.totalPages ∧
      ∀ p, let taken := a / PAGE_SIZE ≤ p ∧ p < a / PAGE_SIZE + count
        s'.bitmap.bit p = (if taken then true else s.bitmap.bit p) ∧
        s'.refs p = if taken then 1 else s.refs p) ∨
    s.allocPages count = .ok (s, none) ∧
      ∀ a, a % PAGE_SIZE = 0 → ¬ FreeRun s count (a / PAGE_SIZE) := by
  obtain ⟨s', r, hr, hok, hnone, hsome⟩ := allocPages_spec h count
  have hfail : r = none → (∀ q, ¬ FreeRun s count q) → s.allocPages count = .ok (s, none) ∧
        ∀ a, a % PAGE_SIZE = 0 → ¬ FreeRun s count (a / PAGE_SIZE) := by
    intro e hno
    rw [hr, e, hnone e]
    exact ⟨rfl, fun a _ => hno _⟩
  rcases allocPages_result h hcount hr with ⟨hfree, e⟩ | ⟨start, hs, e⟩
  · refine .inr (hfail e fun q hrun => ?_)
    have := freeRun_le h hrun
    omega
  rcases findRun_least h count 0 with ⟨q, hq, hrun, hleast⟩ | ⟨hq, hno⟩
  · rw [hq] at hs
    cases hs
    obtain ⟨q', ha, -, htake⟩ := hsome _ e
    have hpage : q * PAGE_SIZE / PAGE_SIZE = q := Nat.mul_div_cancel q (by decide)
    have hq' : q' = q := Nat.eq_of_mul_eq_mul_right (by decide) ha.symm
    rw [hq'] at htake
    refine .inl ⟨s', q * PAGE_SIZE, by rw [hr, e]; rfl, hok, ⟨⟨?_, ?_⟩, ?_⟩, htake.total, ?_⟩
    · exact Nat.mul_mod_left q PAGE_SIZE
    · rw [hpage]
      exact hrun
    · intro a ⟨_, hrun'⟩
      exact (Nat.le_div_iff_mul_le (by decide)).mp (hleast _ (Nat.zero_le _) hrun')
    intro p
    rw [hpage]
    refine ⟨htake.bit h hok p, ?_⟩
    rw [htake.refs p]
    simp only [mem_range'_1]
  · rw [hq] at hs
    cases hs
    exact .inr (hfail e fun q => hno q (Nat.zero_le q))

/-- The lowest two free pages are the pages 1 and 2. -/
theorem smallPmm_run : ∃ s', smallPmm.allocPages 2 = .ok (s', some 0x1000) := by
  have h : (smallPmm.allocPages 2).toOption.map Prod.snd = some (some 0x1000) := by decide +kernel
  rcases hr : smallPmm.allocPages 2 with t | ⟨s', a⟩ <;> rw [hr] at h <;> cases h
  exact ⟨s', rfl⟩

theorem allocPages_lowest_smallMemmap : ∃ s s', Pmm.init {} smallMemmap = .ok (.ok s) ∧
    s.allocPages 2 = .ok (s', some 0x1000) ∧
    IsLeast {a | a % PAGE_SIZE = 0 ∧ FreeRun s 2 (a / PAGE_SIZE)} 0x1000 ∧ s'.refs 2 = 1 := by
  obtain ⟨s', hr⟩ := smallPmm_run
  rcases @allocPages_lowest _ (init_spec smallMemmap_ok smallMemmap_init) 2 (by decide) with
    ⟨s₁, a, hr', -, hleast, -, hpages⟩ | ⟨hr', -⟩
  · rw [hr] at hr'
    cases hr'
    exact ⟨smallPmm, s', smallMemmap_init, hr, hleast, (hpages 2).2⟩
  · rw [hr] at hr'
    cases hr'

end Zigk.Mm
