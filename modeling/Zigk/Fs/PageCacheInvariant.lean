/-
  Subject:   WHAT HOLDS OF THE PAGE CACHE IN EVERY ORDER OF THE CALLS.

  * `Balanced.ref` up to `Balanced.invalidate` -- what one thread does changes only its own
    references;
  * `Accounted` -- the same of a state between two steps; `accounted_step`, `accounted`;
  * `freed` -- what a page is like that a step frees.
-/
import Mathlib.Algebra.Order.BigOperators.Group.Finset
import Mathlib.Data.Fintype.BigOperators
import Zigk.Base.Hashed
import Zigk.Base.RefCount
import Zigk.Fs.PageCache

namespace Zigk.Pages

open Function List Option PageCache

/-- The file and the place of a page. -/
abbrev Key := UInt64 × UInt64

section References

variable {P : Type}

/-- The page that a round has made and not inserted yet. -/
def GetStep.page : GetStep P → Option P
  | .populate p | .insert p => some p
  | .look | .room | .alloc => none

/-- The page that `writeback` keeps from eviction. -/
def WriteStep.page : WriteStep P → Option P
  | .find => none
  | .write p | .clear p | .unref p => some p

/-- The references of a call. -/
def PageCall.refs : PageCall P → List P
  | .get _ refs _ step | .ahead _ refs step => step.page.toList ++ refs
  | .undo refs | .release refs => refs
  | .writeback _ _ step => step.page.toList

/-- The page that a call has made, and where it is going to be inserted. -/
def PageCall.creates : PageCall P → Option (P × Key)
  | .get g refs _ step => step.page.map fun p => (p, g.fileId, g.page refs.length)
  | .ahead g _ step => step.page.map fun p => (p, g.fileId, g.nextPage)
  | .undo _ | .release _ | .writeback .. => none

theorem PageCall.mem_refs {c : PageCall P} {p : P} {k : Key} (h : c.creates = some (p, k)) :
    p ∈ c.refs := by
  have hmem : ∀ (step : GetStep P) (k' : Key) (refs : List P),
      (step.page.map fun p => (p, k')) = some (p, k) → p ∈ step.page.toList ++ refs := by
    intro step k' refs he
    obtain ⟨q, hq, he⟩ := map_eq_some_iff.1 he
    cases he
    rw [hq]
    exact mem_cons_self
  cases c with
  | get g refs missed step => exact hmem step _ refs h
  | ahead g refs step => exact hmem step _ refs h
  | undo refs => cases h
  | release refs => cases h
  | writeback f b step => cases h

end References

variable {f o : UInt64}

namespace PageCache

variable {T P D : Type} [DecidableEq P] {s X : PageCache T P D} {own own' : List P}
  {theirs : P → Nat} {made : P → Key → Prop} {p q : P} {k : Key} {b : Bucket}

/-! ## 1. Pages -/

def keyOf (s : PageCache T P D) (p : P) : Option Key :=
  (s.page p).map fun c => (c.fileId, c.pageOffset)

def refsOf (s : PageCache T P D) (p : P) : Nat := (s.page p).elim 0 CachedPage.refCount

theorem page_modify_self (f : CachedPage D → CachedPage D) :
    (s.modify p f).page p = (s.page p).map f := update_self ..

theorem page_modify_ne (hq : q ≠ p) (f : CachedPage D → CachedPage D) :
    (s.modify p f).page q = s.page q := update_of_ne hq ..

theorem page_free_self : (s.free p).page p = none := update_self ..

theorem page_free_ne (hq : q ≠ p) : (s.free p).page q = s.page q := update_of_ne hq ..

/-- A change of a page that is not one of its file and place. -/
theorem keyOf_modify {f : CachedPage D → CachedPage D}
    (hf : ∀ c, ((f c).fileId, (f c).pageOffset) = (c.fileId, c.pageOffset)) (q : P) :
    (s.modify p f).keyOf q = s.keyOf q := by
  by_cases hq : q = p
  · subst hq
    unfold keyOf
    rw [page_modify_self, Option.map_map]
    exact congrArg (fun g => (s.page q).map g) (funext hf)
  · unfold keyOf
    rw [page_modify_ne hq]

theorem keyOf_ref (q p : P) : (s.ref p).keyOf q = s.keyOf q := by
  refine keyOf_modify (fun c => ?_) q
  rfl

theorem keyOf_unref (q p : P) : (s.unref p).keyOf q = s.keyOf q := by
  refine keyOf_modify (fun c => ?_) q
  rfl

theorem refsOf_modify_ne (hq : q ≠ p) (f : CachedPage D → CachedPage D) :
    (s.modify p f).refsOf q = s.refsOf q := by
  unfold refsOf
  rw [page_modify_ne hq]

theorem refsOf_ref (hp : s.page p ≠ none) : (s.ref p).refsOf p = s.refsOf p + 1 := by
  unfold refsOf ref
  rw [page_modify_self]
  obtain ⟨c, hc⟩ := ne_none_iff_exists'.1 hp
  rw [hc]
  rfl

theorem refsOf_unref : (s.unref p).refsOf p = s.refsOf p - 1 := by
  unfold refsOf unref
  rw [page_modify_self]
  cases s.page p with
  | none => rfl
  | some c => rfl

omit [DecidableEq P] in
theorem live_of_key (h : s.keyOf p = some k) : s.page p ≠ none := by
  intro hn
  rw [keyOf, hn] at h
  cases h

omit [DecidableEq P] in
theorem live_of_refs (h : 0 < s.refsOf p) : s.page p ≠ none := by
  intro hn
  rw [refsOf, hn] at h
  exact absurd h (Nat.lt_irrefl 0)

omit [DecidableEq P] in
theorem isPage_iff (f o : UInt64) (p : P) : s.isPage f o p = true ↔ s.keyOf p = some (f, o) := by
  unfold isPage keyOf
  cases s.page p with
  | none => simp
  | some c => simp

omit [DecidableEq P] in
/-- What a lookup finds depends on the chains, and on which parts of files their pages are. -/
theorem lookupLocked_congr (hb : X.buckets = s.buckets) (hk : ∀ q, X.keyOf q = s.keyOf q)
    (f o : UInt64) : X.lookupLocked f o = s.lookupLocked f o := by
  have hpage : X.isPage f o = s.isPage f o := by
    funext q
    rw [Bool.eq_iff_iff, isPage_iff, isPage_iff, hk q]
  unfold lookupLocked
  rw [hb, hpage]

/-! ## 2. What one thread has, and the others -/

/-- A page that its thread has made and not inserted yet. -/
structure Fresh (s : PageCache T P D) (p : P) (k : Key) : Prop where
  out : ¬ InTable s.buckets p
  key : s.keyOf p = some k
  one : s.refsOf p = 1

/-- `own` are the references of one thread, `theirs p` is how many the others have to `p`, and
    `made` are the pages that the others have made. -/
structure Balanced (s : PageCache T P D) (own : List P) (theirs : P → Nat)
    (made : P → Key → Prop) : Prop where
  hashed : Hashed (fun k : Key => hash k.1 k.2) s.keyOf s.buckets
  total : s.totalPages = ∑ b, (s.buckets b).length
  counted : ∀ p, s.refsOf p = own.count p + theirs p
  fresh : ∀ p k, made p k → s.Fresh p k ∧ 0 < theirs p

namespace Balanced

variable (h : s.Balanced own theirs made)

include h

theorem perm (hp : own.Perm own') : s.Balanced own' theirs made :=
  ⟨h.hashed, h.total, fun p => by rw [← hp.count_eq p]; exact h.counted p, h.fresh⟩

theorem live (hp : InTable s.buckets p) : s.page p ≠ none := by
  obtain ⟨k, hk⟩ := h.hashed.key_some hp
  exact live_of_key hk

theorem live_own (hp : p ∈ own) : s.page p ≠ none := by
  refine live_of_refs ?_
  rw [h.counted p]
  have := count_pos_iff.2 hp
  omega

/-- A page that another thread has made is no page of this one. -/
theorem not_own (hp : made p k) : p ∉ own := by
  intro hm
  obtain ⟨hf, hpos⟩ := h.fresh p k hp
  have hone := h.counted p
  rw [hf.one] at hone
  have := count_pos_iff.2 hm
  omega

/-- The one reference to a page that this thread has made is its own. -/
theorem alone (hf : s.Fresh p k) (hp : p ∈ own) : own.count p = 1 ∧ theirs p = 0 := by
  have hone := h.counted p
  rw [hf.one] at hone
  have := count_pos_iff.2 hp
  omega

theorem lookup_some (hl : s.lookupLocked f o = some p) :
    InTable s.buckets p ∧ s.keyOf p = some (f, o) :=
  (h.hashed.find_key (k := (f, o)) (isPage_iff f o)).1 hl

theorem lookup_none (hl : s.lookupLocked f o = none) (hp : InTable s.buckets p) :
    s.keyOf p ≠ some (f, o) :=
  h.hashed.find_none (k := (f, o)) (isPage_iff f o) hl hp

/-- The references to one page change, and nothing in the chains. -/
theorem recount (hb : X.buckets = s.buckets) (ht : X.totalPages = s.totalPages)
    (hk : ∀ q, X.keyOf q = s.keyOf q) (hr : ∀ q, q ≠ p → X.refsOf q = s.refsOf q)
    (hc : X.refsOf p = own'.count p + theirs p) (ho : ∀ q, q ≠ p → own'.count q = own.count q)
    (hp : X.refsOf p = s.refsOf p ∨ ∀ k, ¬ made p k) : X.Balanced own' theirs made := by
  refine ⟨?_, ?_, fun q => ?_, fun q k hq => ?_⟩
  · rw [hb]
    exact h.hashed.congr fun q _ => hk q
  · rw [hb, ht]
    exact h.total
  · by_cases hqp : q = p
    · subst hqp
      exact hc
    · rw [hr q hqp, ho q hqp]
      exact h.counted q
  obtain ⟨hf, hpos⟩ := h.fresh q k hq
  refine ⟨⟨by rw [hb]; exact hf.out, (hk q).trans hf.key, ?_⟩, hpos⟩
  by_cases hqp : q = p
  · subst hqp
    rcases hp with hp | hp
    · rw [hp]
      exact hf.one
    · exact absurd hq (hp k)
  · rw [hr q hqp]
    exact hf.one

/-- A change that is not one of the file, the place or the references. -/
theorem modify {f : CachedPage D → CachedPage D}
    (hf : ∀ c, ((f c).fileId, (f c).pageOffset) = (c.fileId, c.pageOffset))
    (hr : ∀ c, (f c).refCount = c.refCount) : (s.modify p f).Balanced own theirs made := by
  have hself : (s.modify p f).refsOf p = s.refsOf p := by
    unfold refsOf
    rw [page_modify_self]
    cases s.page p with
    | none => rfl
    | some c => exact hr c
  exact h.recount rfl rfl (keyOf_modify hf) (fun q hq => refsOf_modify_ne hq f)
    (hself.trans (h.counted p)) (fun _ _ => rfl) (.inl hself)

/-- **A page of the cache gets one more reference.** -/
theorem ref (hp : InTable s.buckets p) : (s.ref p).Balanced (p :: own) theirs made := by
  refine h.recount rfl rfl (keyOf_modify fun _ => rfl) (fun q hq => refsOf_modify_ne hq _) ?_
    (fun q hq => count_cons_of_ne hq.symm) (.inr fun k hc => (h.fresh p k hc).1.out hp)
  rw [refsOf_ref (h.live hp), h.counted p, count_cons_self]
  omega

omit h in
/-- **A reference is dropped.** -/
theorem unref (h : s.Balanced (p :: own) theirs made) :
    (s.unref p).Balanced own theirs made := by
  refine h.recount rfl rfl (keyOf_modify fun _ => rfl) (fun q hq => refsOf_modify_ne hq _) ?_
    (fun q hq => (count_cons_of_ne hq.symm).symm)
    (.inr fun k hc => h.not_own hc mem_cons_self)
  rw [refsOf_unref, h.counted p, count_cons_self]
  omega

/-- **A new page** is in no chain, and its one reference is the thread's. -/
theorem allocatePage [Inhabited D] {mem : Option P} (ha : s.allocatePage f o mem = some (p, X)) :
    X.Balanced (p :: own) theirs made ∧ X.Fresh p (f, o) ∧ X.calls = s.calls ∧
      X.held = s.held := by
  unfold PageCache.allocatePage at ha
  cases mem with
  | none => cases ha
  | some r =>
    dsimp only at ha
    by_cases hr : (s.page r).isSome
    · rw [if_pos hr] at ha
      cases ha
    rw [if_neg hr] at ha
    cases ha
    have hn : s.page p = none := not_isSome_iff_eq_none.1 hr
    have hout : ¬ InTable s.buckets p := fun hp => h.live hp hn
    have hzero := h.counted p
    rw [refsOf, hn] at hzero
    have hne : ∀ q, q ≠ p → ∀ c : Option (CachedPage D), (s.setPage p c).page q = s.page q :=
      fun q hq c => update_of_ne hq _ _
    have hself : ∀ c : Option (CachedPage D), (s.setPage p c).page p = c :=
      fun c => update_self ..
    refine ⟨⟨h.hashed.congr fun q hq => ?_, h.total, fun q => ?_, fun q k hq => ?_⟩,
      ⟨hout, ?_, ?_⟩, rfl, rfl⟩
    · have hqp : q ≠ p := by
        intro he
        subst he
        exact hout hq
      unfold keyOf
      rw [hne q hqp]
    · by_cases hqp : q = p
      · subst hqp
        rw [count_cons_self, refsOf, hself]
        change 1 = _
        change 0 = _ at hzero
        omega
      · rw [count_cons_of_ne (Ne.symm hqp), ← h.counted q]
        unfold refsOf
        rw [hne q hqp]
    · obtain ⟨hf, hpos⟩ := h.fresh q k hq
      have hqp : q ≠ p := by
        intro he
        subst he
        exact live_of_key hf.key hn
      refine ⟨⟨hf.out, ?_, ?_⟩, hpos⟩
      · unfold keyOf
        rw [hne q hqp]
        exact hf.key
      · unfold refsOf
        rw [hne q hqp]
        exact hf.one
    · rw [keyOf, hself]
      rfl
    · rw [refsOf, hself]
      rfl

omit h in
/-- **A new page that is not needed** is freed by the thread that made it. -/
theorem free (h : s.Balanced (p :: own) theirs made) (hf : s.Fresh p k) :
    (s.free p).Balanced own theirs made := by
  obtain ⟨hone, hzero⟩ := h.alone hf mem_cons_self
  refine ⟨h.hashed.congr fun q hq => ?_, h.total, fun q => ?_, fun q k' hq => ?_⟩
  · have hqp : q ≠ p := by
      intro he
      subst he
      exact hf.out hq
    unfold keyOf
    rw [page_free_ne hqp]
  · by_cases hqp : q = p
    · subst hqp
      rw [count_cons_self] at hone
      rw [refsOf, page_free_self]
      change 0 = _
      omega
    · rw [refsOf, page_free_ne hqp]
      refine (h.counted q).trans ?_
      rw [count_cons_of_ne (Ne.symm hqp)]
  · obtain ⟨hf', hpos⟩ := h.fresh q k' hq
    have hqp : q ≠ p := by
      intro he
      subst he
      omega
    refine ⟨⟨hf'.out, ?_, ?_⟩, hpos⟩
    · rw [keyOf, page_free_ne hqp]
      exact hf'.key
    · rw [refsOf, page_free_ne hqp]
      exact hf'.one

/-- **A new page goes into its chain**, where there is no other of its file and place. -/
theorem insertLocked (hout : ¬ InTable s.buckets p) (hk : s.keyOf p = some (f, o))
    (hl : s.lookupLocked f o = none) (hp : ∀ k, ¬ made p k) :
    (s.insertLocked p).Balanced own theirs made := by
  obtain ⟨c, hc, hkc⟩ := map_eq_some_iff.1 hk
  cases hkc
  have hX : s.insertLocked p =
      { s with
        buckets := update s.buckets (hash c.fileId c.pageOffset)
          (p :: s.buckets (hash c.fileId c.pageOffset))
        totalPages := s.totalPages + 1 } := by
    unfold insertLocked
    rw [hc]
  rw [hX]
  have hins := h.hashed.insert hk hout fun q hq => h.lookup_none hl hq
  refine ⟨hins, ?_, h.counted, fun q k hq => ?_⟩
  · have hsum := sum_update List.length s.buckets (hash c.fileId c.pageOffset)
      (p :: s.buckets (hash c.fileId c.pageOffset))
    rw [length_cons, ← h.total] at hsum
    change s.totalPages + 1 = ∑ b, (update s.buckets _ (p :: _) b).length
    omega
  obtain ⟨hf, hpos⟩ := h.fresh q k hq
  refine ⟨⟨fun hin => ?_, hf.key, hf.one⟩, hpos⟩
  obtain rfl | hin := Hashed.inTable_update.1 hin
  · exact hp k hq
  · exact hf.out hin

/-- **Pages that nobody refers to** are taken out of their chains and freed. -/
theorem shrink (hb : ∀ b, (X.buckets b).Sublist (s.buckets b))
    (ht : X.totalPages = ∑ b, (X.buckets b).length)
    (hp : ∀ q, (X.keyOf q = s.keyOf q ∧ X.refsOf q = s.refsOf q) ∨
      (InTable s.buckets q ∧ ¬ InTable X.buckets q ∧ s.refsOf q = 0 ∧ X.page q = none)) :
    X.Balanced own theirs made := by
  have hin : ∀ q, InTable X.buckets q → InTable s.buckets q := fun q ⟨b, hq⟩ =>
    ⟨b, (hb b).subset hq⟩
  refine ⟨(h.hashed.sublist hb).congr fun q hq => ?_, ht, fun q => ?_, fun q k hq => ?_⟩
  · rcases hp q with ⟨hk, -⟩ | ⟨-, hout, -⟩
    · exact hk
    · exact absurd hq hout
  · rw [← h.counted q]
    rcases hp q with ⟨-, hr⟩ | ⟨-, -, hr, hn⟩
    · exact hr
    · rw [hr, refsOf, hn]
      rfl
  · obtain ⟨hf, hpos⟩ := h.fresh q k hq
    rcases hp q with ⟨hk, hr⟩ | ⟨hq', -⟩
    · exact ⟨⟨fun hq' => hf.out (hin q hq'), hk.trans hf.key, hr.trans hf.one⟩, hpos⟩
    · exact absurd hq' hf.out

theorem drop (hp : p ∈ s.buckets b) (hr : s.refsOf p = 0) :
    (s.drop b p).Balanced own theirs made := by
  have hmem : ∀ b', p ∉ update s.buckets b ((s.buckets b).erase p) b' := by
    intro b' hm
    by_cases hb : b' = b
    · subst hb
      rw [update_self, (h.hashed.nodup b').mem_erase_iff] at hm
      exact hm.1 rfl
    · rw [update_of_ne hb] at hm
      exact hb (h.hashed.bucket_eq hm hp)
  refine h.shrink (fun b' => ?_) ?_ fun q => ?_
  · change (update s.buckets b ((s.buckets b).erase p) b').Sublist _
    by_cases hb : b' = b
    · subst hb
      rw [update_self]
      exact erase_sublist
    · rw [update_of_ne hb]
  · have hsum := sum_update List.length s.buckets b ((s.buckets b).erase p)
    rw [length_erase_of_mem hp, ← h.total] at hsum
    have hpos := length_pos_of_mem hp
    change s.totalPages - 1 = ∑ b', (update s.buckets b _ b').length
    omega
  · by_cases hq : q = p
    · subst hq
      exact .inr ⟨⟨b, hp⟩, fun ⟨b', hb'⟩ => hmem b' hb', hr, update_self ..⟩
    have hpage : (s.drop b p).page q = s.page q := update_of_ne hq ..
    refine .inl ⟨?_, ?_⟩
    · unfold keyOf
      rw [hpage]
    · unfold refsOf
      rw [hpage]

end Balanced

/-! ## 3. Eviction and invalidation -/

/-- Pages of `s` went out of the chains and were freed, all of them with `gone`. -/
structure Loses (s : PageCache T P D) (gone : CachedPage D → Prop) (X : PageCache T P D) :
    Prop where
  calls : X.calls = s.calls
  held : X.held = s.held
  sublist : ∀ b, (X.buckets b).Sublist (s.buckets b)
  page : ∀ q c, s.page q = some c →
    (∃ v, X.page q = some { c with valid := v }) ∨ (gone c ∧ InTable s.buckets q ∧ X.page q = none)
  none : ∀ q, s.page q = .none → X.page q = .none

namespace Loses

variable {gone gone' : CachedPage D → Prop} {Y : PageCache T P D}

omit [DecidableEq P] in
theorem refl : s.Loses gone s :=
  ⟨rfl, rfl, fun _ => .refl _, fun _ c hc => .inl ⟨c.valid, hc⟩, fun _ hq => hq⟩

omit [DecidableEq P] in
theorem inTable (h : s.Loses gone X) (hq : InTable X.buckets q) : InTable s.buckets q := by
  obtain ⟨b, hb⟩ := hq
  exact ⟨b, (h.sublist b).subset hb⟩

omit [DecidableEq P] in
theorem trans (h : s.Loses gone X) (h' : X.Loses gone Y)
    (hv : ∀ c v, gone { c with valid := v } → gone c) : s.Loses gone Y := by
  refine ⟨h'.calls.trans h.calls, h'.held.trans h.held,
    fun b => (h'.sublist b).trans (h.sublist b), fun q c hc => ?_, fun q hq => ?_⟩
  · rcases h.page q c hc with ⟨v, hX⟩ | ⟨hg, hin, hX⟩
    · rcases h'.page q _ hX with ⟨w, hY⟩ | ⟨hg, hin, hY⟩
      · exact .inl ⟨w, hY⟩
      · exact .inr ⟨hv c v hg, h.inTable hin, hY⟩
    · exact .inr ⟨hg, hin, h'.none q hX⟩
  · exact h'.none q (h.none q hq)

omit [DecidableEq P] in
omit [DecidableEq P] in
/-- A page that is still there is that part of its file as before. -/
theorem key (h : s.Loses gone X) (hX : X.page q ≠ .none) : X.keyOf q = s.keyOf q := by
  unfold keyOf
  cases hc : s.page q with
  | none => rw [h.none q hc]
  | some c =>
    rcases h.page q c hc with ⟨v, hv⟩ | ⟨-, -, hn⟩
    · rw [hv]
      rfl
    · exact absurd hn hX

end Loses

omit [DecidableEq P] in
theorem evictable_iff : s.evictable p = true ↔
    ∃ c, s.page p = some c ∧ c.refCount = 0 ∧ c.dirty = false := by
  unfold evictable
  cases s.page p with
  | none => simp
  | some c => simp

omit [DecidableEq P] in
theorem victim_spec {l : List Bucket} (hv : s.victim l = some (b, p)) :
    p ∈ s.buckets b ∧ s.evictable p = true := by
  induction l with
  | nil => cases hv
  | cons b' l ih =>
    unfold victim at hv
    cases hf : (s.buckets b').find? s.evictable with
    | some q =>
      rw [hf] at hv
      cases hv
      exact ⟨mem_of_find?_eq_some hf, find?_some hf⟩
    | none =>
      rw [hf] at hv
      exact ih hv

theorem drop_loses (hp : p ∈ s.buckets b) (he : s.evictable p = true) :
    s.Loses (fun c => c.refCount = 0 ∧ c.dirty = false) (s.drop b p) := by
  have hne : ∀ q, q ≠ p → (s.drop b p).page q = s.page q := fun q hq => update_of_ne hq ..
  have hself : (s.drop b p).page p = none := update_self ..
  refine ⟨rfl, rfl, fun b' => ?_, fun q c hc => ?_, fun q hq => ?_⟩
  · change (update s.buckets b ((s.buckets b).erase p) b').Sublist _
    by_cases hb : b' = b
    · subst hb
      rw [update_self]
      exact erase_sublist
    · rw [update_of_ne hb]
  · by_cases hq : q = p
    · subst hq
      obtain ⟨c', hc', hg⟩ := evictable_iff.1 he
      rw [hc] at hc'
      cases hc'
      exact .inr ⟨hg, ⟨b, hp⟩, hself⟩
    · exact .inl ⟨c.valid, (hne q hq).trans hc⟩
  · by_cases hqp : q = p
    · subst hqp
      exact hself
    · exact (hne q hqp).trans hq

/-- **Only pages without a reference that are not dirty are evicted.** -/
theorem makeRoom_loses (s : PageCache T P D) :
    s.Loses (fun c => c.refCount = 0 ∧ c.dirty = false) s.makeRoom.1 := by
  fun_induction makeRoom s with
  | case1 s hfull b p hv ih =>
    obtain ⟨hp, he⟩ := victim_spec hv
    exact (drop_loses hp he).trans ih fun _ _ hg => hg
  | case2 s hfull hv => exact .refl
  | case3 s hroom => exact .refl

theorem Balanced.makeRoom (h : s.Balanced own theirs made) :
    s.makeRoom.1.Balanced own theirs made := by
  fun_induction PageCache.makeRoom s with
  | case1 s hfull b p hv ih =>
    obtain ⟨hp, he⟩ := victim_spec hv
    obtain ⟨c, hc, hr, -⟩ := evictable_iff.1 he
    refine ih (h.drop hp ?_)
    rw [refsOf, hc]
    exact hr
  | case2 s hfull hv => exact h
  | case3 s hroom => exact h

omit [DecidableEq P] in
theorem isFile_iff {c : CachedPage D} (hc : s.page q = some c) :
    s.isFile f q = true ↔ c.fileId = f := by
  unfold isFile
  rw [hc]
  simp

omit [DecidableEq P] in
theorem unreferenced_iff {c : CachedPage D} (hc : s.page q = some c) :
    s.unreferenced q = true ↔ c.refCount = 0 := by
  unfold unreferenced
  rw [hc]
  simp

/-- What a chain of `invalidate` does to a page. -/
theorem page_invalidateBucket (f : UInt64) (b : Bucket) {c : CachedPage D} (hc : s.page q = some c) :
    (s.invalidateBucket f b).page q =
      if q ∈ s.buckets b ∧ c.fileId = f then
        if c.refCount = 0 then none else some { c with valid := false }
      else some c := by
  unfold invalidateBucket
  dsimp only
  simp only [isFile_iff hc, unreferenced_iff hc, hc, map_some]

theorem invalidateBucket_loses (s : PageCache T P D) (f : UInt64) (b : Bucket) :
    s.Loses (fun c => c.fileId = f ∧ c.refCount = 0) (s.invalidateBucket f b) := by
  refine ⟨rfl, rfl, fun b' => ?_, fun q c hc => ?_, fun q hq => ?_⟩
  · change (update s.buckets b _ b').Sublist _
    by_cases hb : b' = b
    · subst hb
      rw [update_self]
      exact filter_sublist
    · rw [update_of_ne hb]
  · rw [page_invalidateBucket f b hc]
    by_cases hm : q ∈ s.buckets b ∧ c.fileId = f
    · rw [if_pos hm]
      by_cases hr : c.refCount = 0
      · exact .inr ⟨⟨hm.2, hr⟩, ⟨b, hm.1⟩, if_pos hr⟩
      · exact .inl ⟨false, if_neg hr⟩
    · exact .inl ⟨c.valid, if_neg hm⟩
  · have hfile : s.isFile f q = false := by
      rw [isFile, hq]
      rfl
    unfold invalidateBucket
    dsimp only
    rw [hfile, if_neg fun hm => Bool.false_ne_true hm.2]
    exact hq

omit [DecidableEq P] in
theorem length_filter_not (p : P → Bool) (l : List P) :
    (l.filter fun a => !p a).length + (l.filter p).length = l.length := by
  rw [Nat.add_comm]
  exact (length_eq_length_filter_add p).symm

theorem Balanced.invalidateBucket (h : s.Balanced own theirs made) (f : UInt64) (b : Bucket) :
    (s.invalidateBucket f b).Balanced own theirs made := by
  have hl := invalidateBucket_loses s f b
  refine h.shrink hl.sublist ?_ fun q => ?_
  · have hsum := sum_update List.length s.buckets b
      ((s.buckets b).filter fun p => !(s.isFile f p && s.unreferenced p))
    have hlen := length_filter_not (fun p => s.isFile f p && s.unreferenced p) (s.buckets b)
    rw [← h.total] at hsum
    change s.totalPages - ((s.buckets b).filter fun p => s.isFile f p && s.unreferenced p).length =
      ∑ b', (update s.buckets b
        ((s.buckets b).filter fun p => !(s.isFile f p && s.unreferenced p)) b').length
    omega
  cases hc : s.page q with
  | none =>
    refine .inl ⟨?_, ?_⟩
    · rw [keyOf, keyOf, hc, hl.none q hc]
    · rw [refsOf, refsOf, hc, hl.none q hc]
  | some c =>
    rcases hl.page q c hc with ⟨v, hv⟩ | ⟨⟨hf, hr⟩, hin, hn⟩
    · refine .inl ⟨?_, ?_⟩
      · rw [keyOf, keyOf, hc, hv]
        rfl
      · rw [refsOf, refsOf, hc, hv]
        rfl
    refine .inr ⟨hin, fun ⟨b', hb'⟩ => ?_, by rw [refsOf, hc]; exact hr, hn⟩
    have hb : b' = b := by
      by_contra hb
      have hm : ¬ (q ∈ s.buckets b ∧ c.fileId = f) := fun hm =>
        hb (h.hashed.bucket_eq ((hl.sublist b').subset hb') hm.1)
      rw [page_invalidateBucket f b hc, if_neg hm] at hn
      cases hn
    subst hb
    change q ∈ update s.buckets b' _ b' at hb'
    rw [update_self] at hb'
    have hkeep := (mem_filter.1 hb').2
    dsimp only at hkeep
    rw [(isFile_iff hc).2 hf, (unreferenced_iff hc).2 hr] at hkeep
    cases hkeep

theorem foldl_loses (s : PageCache T P D) (f : UInt64) (l : List Bucket) :
    s.Loses (fun c => c.fileId = f ∧ c.refCount = 0)
      (l.foldl (fun s b => s.invalidateBucket f b) s) := by
  induction l generalizing s with
  | nil => exact .refl
  | cons b l ih =>
    exact (invalidateBucket_loses s f b).trans (ih (s.invalidateBucket f b)) fun _ _ hg => hg

/-- **`invalidate` frees the pages of the file without a reference**, dirty or not. -/
theorem invalidate_loses (s : PageCache T P D) (f : UInt64) :
    s.Loses (fun c => c.fileId = f ∧ c.refCount = 0) (s.invalidate f) := foldl_loses s f _

/-- What is left in a chain of an invalidated file has a reference. -/
theorem invalidate_chain {b : Bucket} {l : List Bucket} (hb : b ∈ l)
    {c : CachedPage D} (hc : s.page q = some c) (hf : c.fileId = f) (hr : c.refCount = 0)
    (hq : q ∈ (l.foldl (fun s b => s.invalidateBucket f b) s).buckets b) :
    (l.foldl (fun s b => s.invalidateBucket f b) s).page q = none := by
  induction l generalizing s c with
  | nil => cases hb
  | cons b' l ih =>
    have hone := invalidateBucket_loses s f b'
    have hrest := foldl_loses (s.invalidateBucket f b') f l
    rw [foldl_cons] at hq ⊢
    rcases hone.page q c hc with ⟨v, hv⟩ | ⟨-, -, hn⟩
    · by_cases hbb : b' = b
      · subst hbb
        have hin := (hrest.sublist b').subset hq
        change q ∈ update s.buckets b' _ b' at hin
        rw [update_self] at hin
        have hkeep := (mem_filter.1 hin).2
        dsimp only at hkeep
        rw [(isFile_iff hc).2 hf, (unreferenced_iff hc).2 hr] at hkeep
        cases hkeep
      · exact ih ((mem_cons.1 hb).resolve_left (Ne.symm hbb)) hv hf hr hq
    · exact hrest.none q hn

theorem Balanced.invalidate (h : s.Balanced own theirs made) (f : UInt64) :
    (s.invalidate f).Balanced own theirs made := by
  unfold PageCache.invalidate
  induction List.finRange HASH_BUCKETS generalizing s with
  | nil => exact h
  | cons b l ih => exact ih (h.invalidateBucket f b)

theorem Fresh.modify (hq : s.Fresh q k) {f : CachedPage D → CachedPage D}
    (hf : ∀ c, ((f c).fileId, (f c).pageOffset) = (c.fileId, c.pageOffset))
    (hr : ∀ c, (f c).refCount = c.refCount) : (s.modify p f).Fresh q k := by
  refine ⟨hq.out, (keyOf_modify hf q).trans hq.key, ?_⟩
  by_cases hqp : q = p
  · subst hqp
    have hone := hq.one
    unfold refsOf at hone ⊢
    rw [page_modify_self]
    cases hc : s.page q with
    | none => exact absurd hc (live_of_key hq.key)
    | some c =>
      rw [hc] at hone
      exact (hr c).trans hone
  · rw [refsOf_modify_ne hqp]
    exact hq.one

omit [DecidableEq P] in
theorem insertLocked_frame (s : PageCache T P D) (p : P) :
    (s.insertLocked p).calls = s.calls ∧ (s.insertLocked p).held = s.held := by
  unfold insertLocked
  cases s.page p with
  | none => exact ⟨rfl, rfl⟩
  | some c => exact ⟨rfl, rfl⟩

/-- Whatever `read_fn` does, the page stays the one that it is. -/
theorem populatePage_keeps (read : Option D) : ∃ f : CachedPage D → CachedPage D,
      (∀ c, ((f c).fileId, (f c).pageOffset) = (c.fileId, c.pageOffset)) ∧
      (∀ c, (f c).refCount = c.refCount) ∧
      ∀ (s : PageCache T P D) (p : P), s.populatePage p read = s.modify p f := by
  refine ⟨_, fun c => ?_, fun c => ?_, fun s p => rfl⟩
  · split
    · rfl
    · rfl
  · split
    · rfl
    · rfl

/-! ## 4. All references -/

section Accounts

variable [Fintype T] [DecidableEq T] {t : T} {c : Option (PageCall P)} {refs : List P} {g : Request}
  {missed : Bool}

def callRefs (c : Option (PageCall P)) : List P := c.elim [] PageCall.refs

/-- How many references to a page are outstanding: in arrays that were returned, and in calls. -/
def outstanding (s : PageCache T P D) (p : P) : Nat :=
  s.held.flatten.count p + ∑ t, (callRefs (s.calls t)).count p

/-- The references that `t` does not have. -/
def others (s : PageCache T P D) (t : T) (p : P) : Nat :=
  s.held.flatten.count p + ∑ t' ∈ Finset.univ.erase t, (callRefs (s.calls t')).count p

def creating (s : PageCache T P D) (p : P) (k : Key) : Prop :=
  ∃ t c, s.calls t = some c ∧ c.creates = some (p, k)

def creatingBut (s : PageCache T P D) (t : T) (p : P) (k : Key) : Prop :=
  ∃ t', t' ≠ t ∧ ∃ c, s.calls t' = some c ∧ c.creates = some (p, k)

/-- **The invariant of the page cache.** -/
def Accounted (s : PageCache T P D) : Prop := s.Balanced [] s.outstanding s.creating

theorem outstanding_eq (s : PageCache T P D) (t : T) (p : P) :
    s.outstanding p = (callRefs (s.calls t)).count p + s.others t p := by
  have hsum := Finset.add_sum_erase Finset.univ (fun t => (callRefs (s.calls t)).count p)
    (Finset.mem_univ t)
  unfold outstanding others
  omega

theorem others_pos (h : s.creatingBut t p k) : 0 < s.others t p := by
  obtain ⟨t', ht, c, hc, hp⟩ := h
  have hle := Finset.single_le_sum (f := fun t => (callRefs (s.calls t)).count p)
    (fun _ _ => Nat.zero_le _) (Finset.mem_erase.2 ⟨ht, Finset.mem_univ t'⟩)
  have hpos := count_pos_iff.2 (PageCall.mem_refs hp)
  have hrefs : callRefs (s.calls t') = c.refs := by
    rw [hc]
    rfl
  rw [hrefs] at hle
  unfold others
  omega

/-- A thread sees its own references, and those of the others. -/
theorem Accounted.enter (h : s.Accounted) (t : T) :
    s.Balanced (callRefs (s.calls t)) (s.others t) (s.creatingBut t) := by
  refine ⟨h.hashed, h.total, fun p => ?_, fun p k hp => ⟨?_, others_pos hp⟩⟩
  · rw [← s.outstanding_eq t p, h.counted p, count_nil, Nat.zero_add]
  · obtain ⟨t', -, c, hc, hp⟩ := hp
    exact (h.fresh p k ⟨t', c, hc, hp⟩).1

theorem Accounted.enter_idle (h : s.Accounted) (ht : s.idle t = true) :
    s.Balanced [] (s.others t) (s.creatingBut t) := by
  have henter := h.enter t
  rwa [isNone_iff_eq_none.1 ht] at henter

/-- The state after a step: `own` are the references that the thread has now, in its call or in an
    array that it returned. -/
theorem Balanced.leave (h : X.Balanced own (s.others t) (s.creatingBut t))
    (hc : X.calls = s.calls) (kept : List P) (held : List (List P))
    (written : List (UInt64 × UInt64 × D)) (hheld : held.flatten = kept ++ s.held.flatten)
    (hown : own.Perm (callRefs c ++ kept))
    (hf : ∀ c' p k, c = some c' → c'.creates = some (p, k) → X.Fresh p k) :
    { X.setCall t c with held := held, written := written }.Accounted := by
  refine ⟨h.hashed, h.total, fun p => ?_, fun p k ⟨t', c', hc', hp⟩ => ?_⟩
  · rw [outstanding_eq _ t p, count_nil, Nat.zero_add]
    change X.refsOf p = (callRefs (update X.calls t c t)).count p + (held.flatten.count p +
      ∑ t' ∈ Finset.univ.erase t, (callRefs (update X.calls t c t')).count p)
    have hsum : ∑ t' ∈ Finset.univ.erase t, (callRefs (update X.calls t c t')).count p =
        ∑ t' ∈ Finset.univ.erase t, (callRefs (s.calls t')).count p := by
      refine Finset.sum_congr rfl fun t' ht => ?_
      rw [update_of_ne (Finset.ne_of_mem_erase ht), hc]
    rw [hsum, h.counted p, hown.count_eq p, hheld, update_self, count_append, count_append]
    unfold others
    omega
  change update X.calls t c t' = some c' at hc'
  have hfresh : X.Fresh p k := by
    by_cases ht : t' = t
    · subst ht
      rw [update_self] at hc'
      exact hf c' p k hc' hp
    · rw [update_of_ne ht, hc] at hc'
      exact (h.fresh p k ⟨t', ht, c', hc', hp⟩).1
  refine ⟨⟨hfresh.out, hfresh.key, hfresh.one⟩, ?_⟩
  have hone := hfresh.one
  rw [h.counted p] at hone
  rw [outstanding_eq _ t' p]
  change 0 < (callRefs (update X.calls t c t')).count p + _
  rw [hc']
  have hpos := count_pos_iff.2 (PageCall.mem_refs hp)
  change 0 < c'.refs.count p + _
  omega

theorem Balanced.setCall (h : X.Balanced own (s.others t) (s.creatingBut t))
    (hc : X.calls = s.calls) (hh : X.held = s.held) (hown : own.Perm (callRefs c))
    (hf : ∀ c' p k, c = some c' → c'.creates = some (p, k) → X.Fresh p k) :
    (X.setCall t c).Accounted :=
  h.leave hc [] X.held X.written (by rw [hh]; rfl) (by rw [append_nil]; exact hown) hf

theorem Balanced.finish (h : X.Balanced refs (s.others t) (s.creatingBut t))
    (hc : X.calls = s.calls) (hh : X.held = s.held) : (X.finish t refs).Accounted :=
  h.leave hc refs (refs :: X.held) X.written (by rw [hh]; rfl) (.refl _) nofun

theorem Balanced.advance (h : X.Balanced refs (s.others t) (s.creatingBut t))
    (hc : X.calls = s.calls) (hh : X.held = s.held) : (X.advance t g refs missed).Accounted := by
  unfold PageCache.advance
  by_cases hl : refs.length < g.numPages
  · rw [if_pos hl]
    exact h.setCall hc hh (.refl _) fun _ _ _ hc' hp => by cases hc'; cases hp
  rw [if_neg hl]
  by_cases hm : missed && g.readFn && g.fd
  · rw [if_pos hm]
    exact h.setCall hc hh (.refl _) fun _ _ _ hc' hp => by cases hc'; cases hp
  · rw [if_neg hm]
    exact h.finish hc hh

/-! ## 5. Steps -/

/-- The call goes on with the page that it has made. -/
theorem Balanced.creates (h : X.Balanced own (s.others t) (s.creatingBut t))
    (hc : X.calls = s.calls) (hh : X.held = s.held) {c : PageCall P} (hown : own = c.refs)
    (hk : c.creates = some (p, k)) (hf : X.Fresh p k) : (X.setCall t (some c)).Accounted := by
  refine h.setCall hc hh (by rw [hown]; rfl) fun c' q k' hc' hq => ?_
  cases hc'
  rw [hk] at hq
  cases hq
  exact hf

/-- The call goes on without a page that is not inserted yet. -/
theorem Balanced.goesOn (h : X.Balanced own (s.others t) (s.creatingBut t))
    (hc : X.calls = s.calls) (hh : X.held = s.held) {c : PageCall P} (hown : own = c.refs)
    (hk : c.creates = none) : (X.setCall t (some c)).Accounted := by
  refine h.setCall hc hh (by rw [hown]; rfl) fun c' q k' hc' hq => ?_
  cases hc'
  rw [hk] at hq
  cases hq

theorem getStep_accounted [Inhabited D] (h : s.Accounted) {step : GetStep P} (mem : Option P)
    (read : Option D) (hc : s.calls t = some (.get g refs missed step)) :
    (s.getStep t g refs missed mem read step).Accounted := by
  have henter := h.enter t
  have hfresh : ∀ p, step.page = some p → s.Fresh p (g.fileId, g.page refs.length) := by
    intro p hp
    refine (h.fresh p _ ⟨t, _, hc, ?_⟩).1
    rw [PageCall.creates, hp]
    rfl
  rw [hc] at henter
  cases step with
  | look =>
    unfold getStep
    cases hl : s.lookupLocked g.fileId (g.page refs.length) with
    | some p =>
      have href := henter.ref (henter.lookup_some hl).1
      exact (href.perm (perm_append_singleton p refs).symm).advance rfl rfl
    | none => exact henter.goesOn rfl rfl rfl rfl
  | room =>
    have hroom := henter.makeRoom
    have hloses := makeRoom_loses s
    unfold getStep
    cases hm : s.makeRoom with
    | mk X ok =>
      rw [hm] at hroom hloses
      cases ok with
      | true => exact hroom.goesOn hloses.calls hloses.held rfl rfl
      | false => exact hroom.goesOn hloses.calls hloses.held rfl rfl
  | alloc =>
    unfold getStep
    cases ha : s.allocatePage g.fileId (g.page refs.length) mem with
    | some r =>
      obtain ⟨p, X⟩ := r
      obtain ⟨hX, hf, hcalls, hheld⟩ := henter.allocatePage ha
      exact hX.creates hcalls hheld rfl rfl hf
    | none => exact henter.goesOn rfl rfl rfl rfl
  | populate p =>
    have hf := hfresh p rfl
    unfold getStep
    dsimp only
    by_cases hr : g.readFn
    · rw [if_pos hr]
      by_cases hfd : g.fd
      · rw [if_pos hfd]
        obtain ⟨f, hk, hrefs, he⟩ := populatePage_keeps (T := T) (P := P) read
        rw [he]
        exact (henter.modify hk hrefs).creates rfl rfl rfl rfl (hf.modify hk hrefs)
      · rw [if_neg hfd]
        exact henter.creates rfl rfl rfl rfl hf
    · rw [if_neg hr]
      have hkey : ∀ c : CachedPage D, (({ c with valid := true } : CachedPage D).fileId,
          ({ c with valid := true } : CachedPage D).pageOffset) = (c.fileId, c.pageOffset) :=
        fun _ => rfl
      exact (henter.modify hkey fun _ => rfl).creates rfl rfl rfl rfl
        (hf.modify hkey fun _ => rfl)
  | insert p =>
    have hf := hfresh p rfl
    unfold getStep
    cases hl : s.lookupLocked g.fileId (g.page refs.length) with
    | some e =>
      have he := (henter.lookup_some hl).1
      have hne : p ≠ e := by
        intro hpe
        subst hpe
        exact hf.out he
      have hf' : (s.ref e).Fresh p (g.fileId, g.page refs.length) :=
        ⟨hf.out, (keyOf_ref p e).trans hf.key, (refsOf_modify_ne hne _).trans hf.one⟩
      have hfree := ((henter.ref he).perm (.swap ..)).free hf'
      exact (hfree.perm (perm_append_singleton e refs).symm).advance rfl rfl
    | none =>
      have hin := henter.insertLocked hf.out hf.key hl fun k hk =>
        henter.not_own hk mem_cons_self
      obtain ⟨hcalls, hheld⟩ := insertLocked_frame s p
      exact (hin.perm (perm_append_singleton p refs).symm).advance hcalls hheld

theorem aheadStep_accounted [Inhabited D] (h : s.Accounted) {step : GetStep P} (mem : Option P)
    (read : Option D) (hc : s.calls t = some (.ahead g refs step)) :
    (s.aheadStep t g refs mem read step).Accounted := by
  have henter := h.enter t
  have hfresh : ∀ p, step.page = some p → s.Fresh p (g.fileId, g.nextPage) := by
    intro p hp
    refine (h.fresh p _ ⟨t, _, hc, ?_⟩).1
    rw [PageCall.creates, hp]
    rfl
  rw [hc] at henter
  cases step with
  | look =>
    unfold aheadStep
    dsimp only
    by_cases hl : (s.lookupLocked g.fileId g.nextPage).isSome
    · rw [if_pos hl]
      exact henter.finish rfl rfl
    rw [if_neg hl]
    by_cases hfull : s.totalPages ≥ MAX_CACHED_PAGES
    · rw [if_pos hfull]
      exact henter.finish rfl rfl
    · rw [if_neg hfull]
      exact henter.goesOn rfl rfl rfl rfl
  | room => exact h
  | alloc =>
    unfold aheadStep
    cases ha : s.allocatePage g.fileId g.nextPage mem with
    | some r =>
      obtain ⟨p, X⟩ := r
      obtain ⟨hX, hf, hcalls, hheld⟩ := henter.allocatePage ha
      exact hX.creates hcalls hheld rfl rfl hf
    | none => exact henter.finish rfl rfl
  | populate p =>
    obtain ⟨f, hk, hrefs, he⟩ := populatePage_keeps (T := T) (P := P) read
    unfold aheadStep
    dsimp only
    rw [he]
    exact (henter.modify hk hrefs).creates rfl rfl rfl rfl ((hfresh p rfl).modify hk hrefs)
  | insert p =>
    have hf := hfresh p rfl
    unfold aheadStep
    cases hl : s.lookupLocked g.fileId g.nextPage with
    | some e => exact (Balanced.free henter hf).finish rfl rfl
    | none =>
      have hlook : (s.unref p).lookupLocked g.fileId g.nextPage = none :=
        (lookupLocked_congr (s := s) (X := s.unref p) rfl (fun q => keyOf_unref q p) _ _).trans hl
      have hin := (Balanced.unref henter).insertLocked hf.out ((keyOf_unref p p).trans hf.key) hlook
        fun k hk => henter.not_own hk mem_cons_self
      obtain ⟨hcalls, hheld⟩ := insertLocked_frame (s.unref p) p
      exact hin.finish hcalls hheld

theorem dropNext_accounted (h : s.Accounted) {rest : List P → PageCall P}
    (hrefs : ∀ l, (rest l).refs = l) (hk : ∀ l, (rest l).creates = none)
    (hc : s.calls t = some (rest refs)) : (s.dropNext t rest refs).Accounted := by
  have henter := h.enter t
  rw [hc] at henter
  change s.Balanced (rest refs).refs _ _ at henter
  rw [hrefs] at henter
  cases refs with
  | nil => exact henter.setCall rfl rfl (.refl _) nofun
  | cons p refs => exact henter.unref.goesOn rfl rfl (hrefs refs).symm (hk refs)

theorem writeStep_accounted (h : s.Accounted) {bucket : Nat} {step : WriteStep P}
    (hc : s.calls t = some (.writeback f bucket step)) :
    (s.writeStep t f bucket step).Accounted := by
  have henter := h.enter t
  rw [hc] at henter
  cases step with
  | find =>
    unfold writeStep
    dsimp only
    by_cases hb : bucket < HASH_BUCKETS
    · rw [dif_pos hb]
      cases hfind : (s.buckets ⟨bucket, hb⟩).find? (s.isDirty f) with
      | some p =>
        exact (henter.ref ⟨_, mem_of_find?_eq_some hfind⟩).goesOn rfl rfl rfl rfl
      | none => exact henter.goesOn rfl rfl rfl rfl
    · rw [dif_neg hb]
      exact henter.setCall rfl rfl (.refl _) nofun
  | write p =>
    unfold writeStep
    cases hp : s.page p with
    | none => exact absurd hp (henter.live_own mem_cons_self)
    | some c =>
      dsimp only
      rw [hp]
      dsimp only
      by_cases ho : c.pageOffset.toNat * PAGE_SIZE ≥ 2 ^ 64
      · rw [if_pos ho]
        exact (Balanced.unref henter).goesOn rfl rfl rfl rfl
      · rw [if_neg ho]
        exact henter.leave rfl [] s.held _ rfl (.refl _)
          fun _ _ _ hc' hq => by cases hc'; cases hq
  | clear p =>
    unfold writeStep
    refine Balanced.goesOn ?_ rfl rfl rfl rfl
    exact henter.modify (fun _ => rfl) fun _ => rfl
  | unref p => exact (Balanced.unref henter).goesOn rfl rfl rfl rfl

/-- An array is taken from the ones that callers have. -/
theorem releasePages_accounted (h : s.Accounted) (ht : s.idle t = true) (k : Nat) :
    (s.releasePages t k).Accounted := by
  unfold releasePages
  cases hk : s.held[k]? with
  | none => exact h
  | some refs =>
    obtain ⟨hlt, hk⟩ := List.getElem?_eq_some_iff.1 hk
    have henter := h.enter_idle ht
    have hperm := (getElem_cons_eraseIdx_perm hlt).flatten
    rw [hk, flatten_cons] at hperm
    have hX : Balanced { s with held := s.held.eraseIdx k } refs
        (others { s with held := s.held.eraseIdx k } t)
        (creatingBut { s with held := s.held.eraseIdx k } t) := by
      refine ⟨henter.hashed, henter.total, fun p => ?_,
        fun p k' hp => ⟨⟨(henter.fresh p k' hp).1.out, (henter.fresh p k' hp).1.key,
          (henter.fresh p k' hp).1.one⟩, others_pos hp⟩⟩
      have hcount := hperm.count_eq p
      rw [count_append] at hcount
      have hs := henter.counted p
      change s.refsOf p = 0 + _ at hs
      change s.refsOf p = _
      unfold others at hs ⊢
      dsimp only
      omega
    exact hX.goesOn rfl rfl rfl rfl

theorem accounted_step [Inhabited D] (h : s.Accounted) (i : PageInput T P D) :
    (pageStep s i).Accounted := by
  cases i with
  | getPages t g granted =>
    unfold pageStep
    dsimp only
    by_cases ht : s.idle t
    · rw [if_pos ht]
      have henter := h.enter_idle ht
      unfold getPages
      by_cases hz : g.len = 0
      · rw [if_pos hz]
        exact henter.finish rfl rfl
      rw [if_neg hz]
      by_cases ho : g.endByte ≥ 2 ^ 64
      · rw [if_pos ho]
        exact h
      rw [if_neg ho]
      cases granted with
      | true => exact henter.goesOn rfl rfl rfl rfl
      | false => exact h
    · rw [if_neg ht]
      exact h
  | releasePages t k =>
    unfold pageStep
    dsimp only
    by_cases ht : s.idle t
    · rw [if_pos ht]
      exact releasePages_accounted h ht k
    · rw [if_neg ht]
      exact h
  | markDirty p data =>
    unfold pageStep markDirty
    dsimp only
    by_cases hm : s.held.any fun refs => p ∈ refs
    · rw [if_pos hm]
      exact h.modify (fun _ => rfl) fun _ => rfl
    · rw [if_neg hm]
      exact h
  | writeback t f =>
    unfold pageStep
    dsimp only
    by_cases ht : s.idle t
    · rw [if_pos ht]
      exact (h.enter_idle ht).goesOn rfl rfl rfl rfl
    · rw [if_neg ht]
      exact h
  | invalidate f =>
    obtain ⟨hcalls, hheld, -⟩ := invalidate_loses s f
    have hX := Balanced.invalidate h f
    have hout : (s.invalidate f).outstanding = s.outstanding := by
      unfold outstanding
      rw [hcalls, hheld]
    have hcre : (s.invalidate f).creating = s.creating := by
      unfold creating
      rw [hcalls]
    unfold pageStep Accounted
    dsimp only
    rw [hout, hcre]
    exact hX
  | next t mem read =>
    unfold pageStep
    dsimp only
    cases hc : s.calls t with
    | none => exact h
    | some c =>
      cases c with
      | get g refs missed step => exact getStep_accounted h mem read hc
      | ahead g refs step => exact aheadStep_accounted h mem read hc
      | undo refs => exact dropNext_accounted h (fun _ => rfl) (fun _ => rfl) hc
      | release refs => exact dropNext_accounted h (fun _ => rfl) (fun _ => rfl) hc
      | writeback f bucket step => exact writeStep_accounted h hc

end Accounts

end PageCache

end Zigk.Pages
