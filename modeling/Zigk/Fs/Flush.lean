/-
  Subject:   `writeback` AND `invalidate` IN ONE GO, as the close of a file does it.

  * `writebackBucket`, `writeback` -- the loop of one thread while nobody else uses the cache, with
    what `write_fn` does to the world;
  * `Settled`, `flush_eq_self` -- **there is nothing to flush** if and only if every cached page of
    the file is referenced and invalid already, and no dirty one is written.
-/
import Zigk.Fs.PageCacheInvariant

namespace Zigk.Pages

open Function List Bool

theorem countP_lt {α : Type*} {p q : α → Bool} {l : List α} {a : α}
    (h : ∀ x ∈ l, q x = true → p x = true) (ha : a ∈ l) (hp : p a = true) (hq : q a = false) :
    l.countP q < l.countP p := by
  obtain ⟨l₁, l₂, rfl⟩ := append_of_mem ha
  have h₁ : l₁.countP q ≤ l₁.countP p :=
    countP_mono_left fun x hx => h x (mem_append_left _ hx)
  have h₂ : l₂.countP q ≤ l₂.countP p :=
    countP_mono_left fun x hx => h x (mem_append_right _ (mem_cons_of_mem _ hx))
  rw [countP_append, countP_append, countP_cons_of_pos hp,
    countP_cons_of_neg (by rw [hq]; exact false_ne_true)]
  omega

namespace PageCache

variable {T P D W : Type} [DecidableEq P] {s X Y : PageCache T P D} {p q : P} {b : Bucket}
  {f : UInt64} {w : W}

/-! ## 1. The loop -/

def clean (s : PageCache T P D) (p : P) : PageCache T P D :=
  s.modify p fun c => { c with dirty := false }

omit [DecidableEq P] in
theorem isDirty_iff : s.isDirty f p = true ↔
    ∃ c, s.page p = some c ∧ c.fileId = f ∧ c.dirty = true := by
  unfold isDirty
  cases s.page p with
  | none => simp
  | some c => simp

theorem isDirty_clean (hq : (s.clean p).isDirty f q = true) : q ≠ p ∧ s.isDirty f q = true := by
  obtain ⟨c, hc, hf, hd⟩ := isDirty_iff.1 hq
  have hqp : q ≠ p := by
    intro he
    subst he
    rw [clean, page_modify_self] at hc
    obtain ⟨c', -, rfl⟩ := Option.map_eq_some_iff.1 hc
    cases hd
  rw [clean, page_modify_ne hqp] at hc
  exact ⟨hqp, isDirty_iff.2 ⟨c, hc, hf, hd⟩⟩

/-- The dirty pages of a chain are written one after another, up to one whose place in the file
    is no byte offset. The reference that the loop has to each meanwhile is dropped again. -/
def writebackBucket (write_fn : UInt64 → D → W → W) (f : UInt64) (b : Bucket)
    (s : PageCache T P D) (w : W) : PageCache T P D × W :=
  match _hf : (s.buckets b).find? (s.isDirty f) with
  | none => (s, w)
  | some p =>
    match s.page p with
    | none => (s, w)
    | some c =>
      if c.pageOffset.toNat * PAGE_SIZE ≥ 2 ^ 64 then (s, w)
      else writebackBucket write_fn f b (s.clean p) (write_fn (c.pageOffset * 4096) c.data w)
termination_by (s.buckets b).countP (s.isDirty f)
decreasing_by
  refine countP_lt (fun x _ hx => (isDirty_clean hx).2) (mem_of_find?_eq_some _hf)
    (find?_some _hf) ?_
  exact eq_false_iff.2 fun hx => (isDirty_clean hx).1 rfl

def writeback (write_fn : UInt64 → D → W → W) (f : UInt64) (s : PageCache T P D) (w : W) :
    PageCache T P D × W :=
  (List.finRange HASH_BUCKETS).foldl (fun r b => r.1.writebackBucket write_fn f b r.2) (s, w)

/-- What `close` does of it; `write_fn` is there if the file can be written. -/
def flush (write_fn : Option (UInt64 → D → W → W)) (f : UInt64) (s : PageCache T P D) (w : W) :
    PageCache T P D × W :=
  let r := match write_fn with
    | some write_fn => s.writeback write_fn f w
    | none => (s, w)
  (r.1.invalidate f, r.2)

/-- The place of the page in the file is no byte offset. -/
def beyond (s : PageCache T P D) (p : P) : Bool :=
  (s.page p).any fun c => 2 ^ 64 ≤ c.pageOffset.toNat * PAGE_SIZE

/-- `flush` finds nothing to do. -/
structure Settled (s : PageCache T P D) (f : UInt64) (writes : Bool) : Prop where
  held : ∀ b, ∀ p ∈ s.buckets b, ∀ c, s.page p = some c → c.fileId = f →
    c.refCount ≠ 0 ∧ c.valid = false
  written : writes = true → ∀ b p, (s.buckets b).find? (s.isDirty f) = some p → s.beyond p = true

/-! ## 2. What `writeback` does -/

/-- Nothing but flags of dirty pages is different. -/
structure Cleaned (s X : PageCache T P D) : Prop where
  buckets : X.buckets = s.buckets
  totalPages : X.totalPages = s.totalPages
  calls : X.calls = s.calls
  held : X.held = s.held
  written : X.written = s.written
  page : ∀ q, X.page q = s.page q ∨
    ∃ c, s.page q = some c ∧ c.dirty = true ∧ X.page q = some { c with dirty := false }

namespace Cleaned

omit [DecidableEq P] in
theorem refl : s.Cleaned s := ⟨rfl, rfl, rfl, rfl, rfl, fun _ => .inl rfl⟩

omit [DecidableEq P] in
theorem trans (h : s.Cleaned X) (h' : X.Cleaned Y) : s.Cleaned Y := by
  refine ⟨h'.buckets.trans h.buckets, h'.totalPages.trans h.totalPages, h'.calls.trans h.calls,
    h'.held.trans h.held, h'.written.trans h.written, fun q => ?_⟩
  rcases h'.page q with hY | ⟨c, hc, hd, hY⟩
  · rw [hY]
    exact h.page q
  rcases h.page q with hX | ⟨c', -, -, hX⟩
  · exact .inr ⟨c, hX ▸ hc, hd, hY⟩
  · rw [hX] at hc
    cases hc
    cases hd

omit [DecidableEq P] in
/-- The flags are different as long as one page is. -/
theorem eq_of_page (h : s.Cleaned X) (hp : X.page = s.page) : X = s := by
  obtain ⟨page, buckets, totalPages, calls, held, written⟩ := X
  obtain ⟨rfl, rfl, rfl, rfl, rfl, -⟩ := h
  cases hp
  rfl

omit [DecidableEq P] in
theorem antisymm (h : s.Cleaned X) (h' : X.Cleaned s) : X = s := by
  refine h.eq_of_page (funext fun q => ?_)
  rcases h.page q with hX | ⟨c, hc, hd, hX⟩
  · exact hX
  rcases h'.page q with hs | ⟨c', hc', hd', -⟩
  · exact hs.symm
  · rw [hX] at hc'
    cases hc'
    cases hd'

end Cleaned

theorem clean_cleaned {c : CachedPage D} (hc : s.page p = some c) (hd : c.dirty = true) :
    s.Cleaned (s.clean p) := by
  refine ⟨rfl, rfl, rfl, rfl, rfl, fun q => ?_⟩
  by_cases hq : q = p
  · subst hq
    refine .inr ⟨c, hc, hd, ?_⟩
    rw [clean, page_modify_self, hc]
    rfl
  · exact .inl (page_modify_ne hq _)

theorem clean_ne {c : CachedPage D} (hc : s.page p = some c) (hd : c.dirty = true) :
    s.clean p ≠ s := by
  intro he
  have hp : (s.clean p).page p = some { c with dirty := false } := by
    rw [clean, page_modify_self, hc]
    rfl
  rw [he, hc] at hp
  have hdirty := congrArg CachedPage.dirty (Option.some.inj hp)
  rw [hd] at hdirty
  cases hdirty

variable {write_fn : UInt64 → D → W → W}

/-- **A chain without a dirty page that can be written** is left alone, and any other one not. -/
theorem writebackBucket_spec (write_fn : UInt64 → D → W → W) (f : UInt64) (b : Bucket)
    (s : PageCache T P D) (w : W) :
    s.Cleaned (s.writebackBucket write_fn f b w).1 ∧
      ((∀ p, (s.buckets b).find? (s.isDirty f) = some p → s.beyond p = true) →
        s.writebackBucket write_fn f b w = (s, w)) ∧
      ((s.writebackBucket write_fn f b w).1 = s →
        ∀ p, (s.buckets b).find? (s.isDirty f) = some p → s.beyond p = true) := by
  fun_induction writebackBucket write_fn f b s w with
  | case1 s w hfind => exact ⟨.refl, fun _ => rfl, fun _ p hp => by rw [hfind] at hp; cases hp⟩
  | case2 s w p hfind hn =>
    obtain ⟨c, hc, -⟩ := isDirty_iff.1 (find?_some hfind)
    rw [hn] at hc
    cases hc
  | case3 s w p hfind c hc ho =>
    refine ⟨.refl, fun _ => rfl, fun _ q hq => ?_⟩
    rw [hfind] at hq
    cases hq
    rw [beyond, hc]
    exact decide_eq_true ho
  | case4 s w p hfind c hc ho ih =>
    obtain ⟨c', hc', -, hd⟩ := isDirty_iff.1 (find?_some hfind)
    rw [hc] at hc'
    cases hc'
    have hone := clean_cleaned hc hd
    refine ⟨hone.trans ih.1, fun hb => ?_, fun he => ?_⟩
    · have hbeyond := hb p hfind
      rw [beyond, hc] at hbeyond
      exact absurd (of_decide_eq_true hbeyond) ho
    · have hback := ih.1
      rw [he] at hback
      exact absurd (hone.antisymm hback) (clean_ne hc hd)

theorem writeback_spec (write_fn : UInt64 → D → W → W) (f : UInt64) (s : PageCache T P D) (w : W) :
    s.Cleaned (s.writeback write_fn f w).1 ∧
      ((∀ b p, (s.buckets b).find? (s.isDirty f) = some p → s.beyond p = true) →
        s.writeback write_fn f w = (s, w)) ∧
      ((s.writeback write_fn f w).1 = s →
        ∀ b p, (s.buckets b).find? (s.isDirty f) = some p → s.beyond p = true) := by
  have hrun : ∀ (l : List Bucket) (s : PageCache T P D) (w : W),
      s.Cleaned (l.foldl (fun r b => r.1.writebackBucket write_fn f b r.2) (s, w)).1 ∧
        ((∀ b p, (s.buckets b).find? (s.isDirty f) = some p → s.beyond p = true) →
          l.foldl (fun r b => r.1.writebackBucket write_fn f b r.2) (s, w) = (s, w)) ∧
        ((l.foldl (fun r b => r.1.writebackBucket write_fn f b r.2) (s, w)).1 = s →
          ∀ b ∈ l, ∀ p, (s.buckets b).find? (s.isDirty f) = some p → s.beyond p = true) := by
    intro l
    induction l with
    | nil => exact fun s w => ⟨.refl, fun _ => rfl, fun _ _ hb => nomatch hb⟩
    | cons b l ih =>
      intro s w
      obtain ⟨hclean, hkeep, hdone⟩ := writebackBucket_spec write_fn f b s w
      rw [foldl_cons]
      obtain ⟨hclean', hkeep', hdone'⟩ := ih (s.writebackBucket write_fn f b w).1
        (s.writebackBucket write_fn f b w).2
      refine ⟨hclean.trans hclean', fun hb => ?_, fun he b' hb' => ?_⟩
      · have hone := hkeep (hb b)
        rw [hone] at hkeep' ⊢
        exact hkeep' hb
      have hback := hclean'
      rw [he] at hback
      have hone := hclean.antisymm hback
      rcases mem_cons.1 hb' with rfl | hb'
      · exact hdone hone
      · have hrest := hdone' (he.trans hone.symm) b' hb'
        rwa [hone] at hrest
  obtain ⟨hclean, hkeep, hdone⟩ := hrun (List.finRange HASH_BUCKETS) s w
  exact ⟨hclean, hkeep, fun he b => hdone he b (mem_finRange b)⟩

/-! ## 3. What `invalidate` does -/

theorem invalidateBucket_same (hs : ∀ p ∈ s.buckets b, ∀ c, s.page p = some c → c.fileId = f →
    c.refCount ≠ 0 ∧ c.valid = false) : s.invalidateBucket f b = s := by
  have hgone : ∀ p ∈ s.buckets b, (s.isFile f p && s.unreferenced p) = false := by
    intro p hp
    cases hc : s.page p with
    | none =>
      rw [isFile, hc]
      rfl
    | some c =>
      refine eq_false_iff.2 fun ht => ?_
      obtain ⟨hf, hu⟩ := and_eq_true_iff.1 ht
      exact (hs p hp c hc ((isFile_iff hc).1 hf)).1 ((unreferenced_iff hc).1 hu)
  have hkeep : (s.buckets b).filter (fun p => !(s.isFile f p && s.unreferenced p)) =
      s.buckets b := by
    refine filter_eq_self.2 fun p hp => ?_
    rw [hgone p hp]
    rfl
  have hnone : (s.buckets b).filter (fun p => s.isFile f p && s.unreferenced p) = [] := by
    refine filter_eq_nil_iff.2 fun p hp => ?_
    rw [hgone p hp]
    exact false_ne_true
  have hpage : (s.invalidateBucket f b).page = s.page := by
    funext q
    cases hc : s.page q with
    | none => exact (invalidateBucket_loses s f b).none q hc
    | some c =>
      rw [page_invalidateBucket f b hc]
      by_cases hm : q ∈ s.buckets b ∧ c.fileId = f
      · obtain ⟨hr, hv⟩ := hs q hm.1 c hc hm.2
        rw [if_pos hm, if_neg hr, ← hv]
      · rw [if_neg hm]
  have hchains : (s.invalidateBucket f b).buckets = s.buckets := by
    change update s.buckets b _ = s.buckets
    rw [hkeep, update_eq_self]
  have htotal : (s.invalidateBucket f b).totalPages = s.totalPages := by
    change s.totalPages - ((s.buckets b).filter _).length = s.totalPages
    rw [hnone]
    rfl
  have hX : s.Cleaned (s.invalidateBucket f b) :=
    ⟨hchains, htotal, rfl, rfl, rfl, fun q => .inl (congrFun hpage q)⟩
  exact hX.eq_of_page hpage

theorem invalidate_same (hs : ∀ b, ∀ p ∈ s.buckets b, ∀ c, s.page p = some c → c.fileId = f →
    c.refCount ≠ 0 ∧ c.valid = false) : s.invalidate f = s := by
  unfold invalidate
  induction List.finRange HASH_BUCKETS with
  | nil => rfl
  | cons b l ih =>
    rw [foldl_cons, invalidateBucket_same (hs b)]
    exact ih

theorem invalidate_marks {l : List Bucket} (hb : b ∈ l) (hp : p ∈ s.buckets b) {c : CachedPage D}
    (hc : s.page p = some c) (hf : c.fileId = f) (hr : c.refCount ≠ 0) :
    (l.foldl (fun s b => s.invalidateBucket f b) s).page p = some { c with valid := false } := by
  have hlater : ∀ (l : List Bucket) (s : PageCache T P D),
      s.page p = some { c with valid := false } →
      (l.foldl (fun s b => s.invalidateBucket f b) s).page p =
        some { c with valid := false } := by
    intro l
    induction l with
    | nil => exact fun _ hs => hs
    | cons b' l ih =>
      intro s hs
      refine ih _ ?_
      rw [page_invalidateBucket f b' hs]
      by_cases hm : p ∈ s.buckets b' ∧ c.fileId = f
      · rw [if_pos hm, if_neg hr]
      · rw [if_neg hm]
  induction l generalizing s c with
  | nil => cases hb
  | cons b' l ih =>
    have hone := page_invalidateBucket f b' hc
    rw [foldl_cons]
    by_cases hm : p ∈ s.buckets b' ∧ c.fileId = f
    · rw [if_pos hm, if_neg hr] at hone
      exact hlater l _ hone
    rw [if_neg hm] at hone
    have hbb : b ≠ b' := by
      intro he
      subst he
      exact hm ⟨hp, hf⟩
    refine ih ((mem_cons.1 hb).resolve_left hbb) ?_ hone hf hr hlater
    change p ∈ update s.buckets b' _ b
    rw [update_of_ne hbb]
    exact hp

theorem settled_of_invalidate (h : s.invalidate f = s) (hp : p ∈ s.buckets b) {c : CachedPage D}
    (hc : s.page p = some c) (hf : c.fileId = f) : c.refCount ≠ 0 ∧ c.valid = false := by
  have hr : c.refCount ≠ 0 := by
    intro hr
    have hin : p ∈ (s.invalidate f).buckets b := by
      rw [h]
      exact hp
    have hn := invalidate_chain (mem_finRange b) hc hf hr hin
    change (s.invalidate f).page p = none at hn
    rw [h, hc] at hn
    cases hn
  have hv := invalidate_marks (mem_finRange b) hp hc hf hr
  change (s.invalidate f).page p = _ at hv
  rw [h, hc] at hv
  exact ⟨hr, congrArg CachedPage.valid (Option.some.inj hv)⟩

/-! ## 4. Both -/

theorem flush_none (f : UInt64) (s : PageCache T P D) (w : W) :
    s.flush none f w = (s.invalidate f, w) := rfl

theorem flush_some (write_fn : UInt64 → D → W → W) (f : UInt64) (s : PageCache T P D) (w : W) :
    s.flush (some write_fn) f w =
      ((s.writeback write_fn f w).1.invalidate f, (s.writeback write_fn f w).2) := rfl

/-- **The flush of a file leaves the cache as it is** if and only if there is nothing to flush; then
    nothing is written either. -/
theorem flush_eq_self {write : Option (UInt64 → D → W → W)} :
    ((s.flush write f w).1 = s ↔ s.Settled f write.isSome) ∧
      (s.Settled f write.isSome → s.flush write f w = (s, w)) := by
  have hsame : s.Settled f write.isSome → s.flush write f w = (s, w) := by
    intro hs
    cases write with
    | none => rw [flush_none, invalidate_same hs.held]
    | some write_fn =>
      rw [flush_some, (writeback_spec write_fn f s w).2.1 (hs.written rfl), invalidate_same hs.held]
  refine ⟨⟨fun he => ?_, fun hs => by rw [hsame hs]⟩, hsame⟩
  cases write with
  | none =>
    rw [flush_none] at he
    dsimp only at he
    exact ⟨fun b p hp c hc hf => settled_of_invalidate he hp hc hf, nofun⟩
  | some write_fn =>
    obtain ⟨hclean, -, hdone⟩ := writeback_spec write_fn f s w
    rw [flush_some] at he
    dsimp only at he
    have hloses := invalidate_loses (s.writeback write_fn f w).1 f
    rw [he] at hloses
    have hX : (s.writeback write_fn f w).1 = s := by
      refine hclean.eq_of_page (funext fun q => ?_)
      rcases hclean.page q with hq | ⟨c, hc, hd, hq⟩
      · exact hq
      rcases hloses.page q _ hq with ⟨v, hv⟩ | ⟨-, -, hn⟩
      · rw [hc] at hv
        have hdirty := congrArg CachedPage.dirty (Option.some.inj hv)
        rw [hd] at hdirty
        cases hdirty
      · rw [hc] at hn
        cases hn
    rw [hX] at he
    exact ⟨fun b p hp c hc hf => settled_of_invalidate he hp hc hf, fun _ => hdone hX⟩

end PageCache

end Zigk.Pages
