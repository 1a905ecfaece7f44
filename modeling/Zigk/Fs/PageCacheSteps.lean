/-
  Subject:   WHICH PAGES A STEP OF THE PAGE CACHE FREES, AND WHICH IT PUTS INTO THE CHAINS.

  * `Evolves` -- pages keep their file and place until they are freed, and the chains get no page
    but a new one; `step_evolves`;
  * `cacheAccounted` -- **every page has as many references as are outstanding, and none is freed
    while it has one**; `cacheAccounted_refuted` -- a dirty page is freed by `invalidate`.
-/
import Zigk.Fs.PageCacheInvariant

namespace Zigk.Pages

open PageCache

/-- The page that a call is about to insert, and where. -/
def PageCall.inserts {P : Type} : PageCall P → Option (P × Key)
  | .get g refs _ (.insert p) => some (p, g.fileId, g.page refs.length)
  | .ahead g _ (.insert p) => some (p, g.fileId, g.nextPage)
  | _ => none

theorem PageCall.inserts_creates {P : Type} {c : PageCall P} {r : P × Key}
    (h : c.inserts = some r) : c.creates = some r := by
  cases c with
  | get g refs missed step =>
    cases step with
    | insert p => exact h
    | look | room | alloc | populate p => cases h
  | ahead g refs step =>
    cases step with
    | insert p => exact h
    | look | room | alloc | populate p => cases h
  | undo refs | release refs | writeback f b step => cases h

namespace PageCache

variable {T P D : Type} [DecidableEq P] {s X Y : PageCache T P D} {gone : P → CachedPage D → Prop}
  {new : P → Prop} {p q : P} {k : Key}

/-! ## 1. What a page is in, and for how long -/

structure Evolves (s : PageCache T P D) (gone : P → CachedPage D → Prop) (new : P → Prop)
    (X : PageCache T P D) : Prop where
  page : ∀ q c, s.page q = some c →
    (∃ c', X.page q = some c' ∧ c'.fileId = c.fileId ∧ c'.pageOffset = c.pageOffset) ∨
      (gone q c ∧ X.page q = none)
  table : ∀ q, InTable X.buckets q → InTable s.buckets q ∨ new q

namespace Evolves

omit [DecidableEq P] in
theorem refl : s.Evolves gone new s := ⟨fun _ c hc => .inl ⟨c, hc, rfl, rfl⟩, fun _ hq => .inl hq⟩

omit [DecidableEq P] in
theorem congr (h : s.Evolves gone new X) (hp : Y.page = X.page) (hb : Y.buckets = X.buckets) :
    s.Evolves gone new Y := by
  refine ⟨fun q c hc => ?_, fun q hq => ?_⟩
  · rw [hp]
    exact h.page q c hc
  · rw [hb] at hq
    exact h.table q hq

omit [DecidableEq P] in
theorem of_loses {lost : CachedPage D → Prop} (h : s.Loses lost X)
    (hg : ∀ q c, lost c → InTable s.buckets q → gone q c) : s.Evolves gone new X := by
  refine ⟨fun q c hc => ?_, fun q hq => .inl (h.inTable hq)⟩
  rcases h.page q c hc with ⟨v, hv⟩ | ⟨hl, hin, hn⟩
  · exact .inl ⟨_, hv, rfl, rfl⟩
  · exact .inr ⟨hg q c hl hin, hn⟩

variable (h : s.Evolves gone new X)

include h

theorem modify {f : CachedPage D → CachedPage D}
    (hf : ∀ c, ((f c).fileId, (f c).pageOffset) = (c.fileId, c.pageOffset)) :
    s.Evolves gone new (X.modify p f) := by
  refine ⟨fun q c hc => ?_, h.table⟩
  by_cases hqp : q = p
  · subst hqp
    rw [page_modify_self]
    rcases h.page q c hc with ⟨c', hc', hk, ho⟩ | ⟨hg, hn⟩
    · obtain ⟨hkey, hoff⟩ := Prod.ext_iff.1 (hf c')
      exact .inl ⟨f c', by rw [hc']; rfl, hkey.trans hk, hoff.trans ho⟩
    · exact .inr ⟨hg, by rw [hn]; rfl⟩
  · rw [page_modify_ne hqp]
    exact h.page q c hc

theorem ref (p : P) : s.Evolves gone new (X.ref p) := h.modify fun _ => rfl

theorem unref (p : P) : s.Evolves gone new (X.unref p) := h.modify fun _ => rfl

theorem free (hg : ∀ c, s.page p = some c → gone p c) : s.Evolves gone new (X.free p) := by
  refine ⟨fun q c hc => ?_, h.table⟩
  by_cases hqp : q = p
  · subst hqp
    exact .inr ⟨hg c hc, page_free_self⟩
  · rw [page_free_ne hqp]
    exact h.page q c hc

omit [DecidableEq P] in
theorem insertLocked (hn : new p) : s.Evolves gone new (X.insertLocked p) := by
  unfold PageCache.insertLocked
  cases X.page p with
  | none => exact h
  | some c =>
    refine ⟨h.page, fun q hq => ?_⟩
    rcases Hashed.inTable_update.1 hq with rfl | hq
    · exact .inr hn
    · exact h.table q hq

omit h in
theorem allocatePage [Inhabited D] {f o : UInt64} {mem : Option P}
    (ha : s.allocatePage f o mem = some (p, X)) : s.Evolves gone new X := by
  unfold PageCache.allocatePage at ha
  cases mem with
  | none => cases ha
  | some r =>
    dsimp only at ha
    by_cases hr : (s.page r).isSome
    · rw [if_pos hr] at ha
      cases ha
    rw [if_neg hr] at ha
    cases ha
    refine ⟨fun q c hc => .inl ⟨c, ?_, rfl, rfl⟩, fun q hq => .inl hq⟩
    have hqp : q ≠ p := by
      intro he
      subst he
      rw [hc] at hr
      exact hr rfl
    exact (Function.update_of_ne hqp ..).trans hc

end Evolves

/-! ## 2. Steps -/

section Steps

variable [DecidableEq T] {t : T} {c : Option (PageCall P)} {refs : List P} {g : Request}
  {missed : Bool}

/-- The step is the one that inserts a new page, or frees it as there is one already. -/
def InsertedBy (s : PageCache T P D) (i : PageInput T P D) (q : P) (k : Key) : Prop :=
  ∃ t mem read c, i = .next t mem read ∧ s.calls t = some c ∧ c.inserts = some (q, k)

/-- What a page is like that a step frees: one of the chains without a reference, and not dirty
    unless its file is invalidated; or a new one that is not needed. -/
def FreedBy (s : PageCache T P D) (i : PageInput T P D) (q : P) (c : CachedPage D) : Prop :=
  (InTable s.buckets q ∧ c.refCount = 0 ∧ (c.dirty = false ∨ i = .invalidate c.fileId)) ∨
    ∃ k, s.InsertedBy i q k

omit [DecidableEq P] in
theorem Evolves.setCall (h : s.Evolves gone new X) (t : T) (c : Option (PageCall P)) :
    s.Evolves gone new (X.setCall t c) := h.congr rfl rfl

omit [DecidableEq P] in
theorem Evolves.finish (h : s.Evolves gone new X) (t : T) (refs : List P) :
    s.Evolves gone new (X.finish t refs) := h.congr rfl rfl

omit [DecidableEq P] in
theorem Evolves.advance (h : s.Evolves gone new X) (t : T) (g : Request) (refs : List P)
    (missed : Bool) : s.Evolves gone new (X.advance t g refs missed) := by
  unfold PageCache.advance
  split
  · exact h.setCall ..
  · split
    · exact h.setCall ..
    · exact h.finish ..

theorem getStep_evolves [Inhabited D] {step : GetStep P} (mem : Option P) (read : Option D)
    (hroom : ∀ q c, (c.refCount = 0 ∧ c.dirty = false) → InTable s.buckets q → gone q c)
    (hnew : ∀ p, step = .insert p → (∀ c, gone p c) ∧ new p) :
    s.Evolves gone new (s.getStep t g refs missed mem read step) := by
  have hrefl : s.Evolves gone new s := .refl
  cases step with
  | look =>
    unfold getStep
    cases s.lookupLocked g.fileId (g.page refs.length) with
    | some p => exact (hrefl.ref p).advance ..
    | none => exact hrefl.setCall ..
  | room =>
    have hloses := makeRoom_loses s
    unfold getStep
    cases hm : s.makeRoom with
    | mk X ok =>
      rw [hm] at hloses
      have hX : s.Evolves gone new X := .of_loses hloses hroom
      cases ok with
      | true => exact hX.setCall ..
      | false => exact hX.setCall ..
  | alloc =>
    unfold getStep
    cases ha : s.allocatePage g.fileId (g.page refs.length) mem with
    | some r => exact (Evolves.allocatePage ha).setCall ..
    | none => exact hrefl.setCall ..
  | populate p =>
    obtain ⟨f, hk, -, he⟩ := populatePage_keeps (T := T) (P := P) read
    unfold getStep
    dsimp only
    refine Evolves.setCall ?_ ..
    by_cases hr : g.readFn
    · rw [if_pos hr]
      by_cases hfd : g.fd
      · rw [if_pos hfd, he]
        exact hrefl.modify hk
      · rw [if_neg hfd]
        exact hrefl
    · rw [if_neg hr]
      exact hrefl.modify fun _ => rfl
  | insert p =>
    obtain ⟨hfree, hn⟩ := hnew p rfl
    unfold getStep
    cases s.lookupLocked g.fileId (g.page refs.length) with
    | some e => exact ((hrefl.ref e).free fun c _ => hfree c).advance ..
    | none => exact (hrefl.insertLocked hn).advance ..

theorem aheadStep_evolves [Inhabited D] {step : GetStep P} (mem : Option P) (read : Option D)
    (hnew : ∀ p, step = .insert p → (∀ c, gone p c) ∧ new p) :
    s.Evolves gone new (s.aheadStep t g refs mem read step) := by
  have hrefl : s.Evolves gone new s := .refl
  cases step with
  | look =>
    unfold aheadStep
    dsimp only
    split
    · exact hrefl.finish ..
    · split
      · exact hrefl.finish ..
      · exact hrefl.setCall ..
  | room => exact hrefl
  | alloc =>
    unfold aheadStep
    cases ha : s.allocatePage g.fileId g.nextPage mem with
    | some r => exact (Evolves.allocatePage ha).setCall ..
    | none => exact hrefl.finish ..
  | populate p =>
    obtain ⟨f, hk, -, he⟩ := populatePage_keeps (T := T) (P := P) read
    unfold aheadStep
    dsimp only
    rw [he]
    exact (hrefl.modify hk).setCall ..
  | insert p =>
    obtain ⟨hfree, hn⟩ := hnew p rfl
    unfold aheadStep
    cases s.lookupLocked g.fileId g.nextPage with
    | some e => exact (hrefl.free fun c _ => hfree c).finish ..
    | none => exact ((hrefl.unref p).insertLocked hn).finish ..

theorem writeStep_evolves {f : UInt64} {bucket : Nat} (step : WriteStep P) :
    s.Evolves gone new (s.writeStep t f bucket step) := by
  have hrefl : s.Evolves gone new s := .refl
  cases step with
  | find =>
    unfold writeStep
    dsimp only
    split
    · split
      · exact (hrefl.ref _).setCall ..
      · exact hrefl.setCall ..
    · exact hrefl.setCall ..
  | write p =>
    unfold writeStep
    dsimp only
    split
    · exact hrefl.setCall ..
    · split
      · exact (hrefl.unref p).setCall ..
      · exact hrefl.congr rfl rfl
  | clear p =>
    refine Evolves.setCall ?_ ..
    exact hrefl.modify fun _ => rfl
  | unref p => exact (hrefl.unref p).setCall ..

theorem dropNext_evolves (rest : List P → PageCall P) (refs : List P) :
    s.Evolves gone new (s.dropNext t rest refs) := by
  have hrefl : s.Evolves gone new s := .refl
  cases refs with
  | nil => exact hrefl.setCall ..
  | cons p refs => exact (hrefl.unref p).setCall ..

theorem step_evolves [Inhabited D] (s : PageCache T P D) (i : PageInput T P D) :
    s.Evolves (s.FreedBy i) (fun q => ∃ k, s.InsertedBy i q k) (pageStep s i) := by
  have hrefl : s.Evolves (s.FreedBy i) (fun q => ∃ k, s.InsertedBy i q k) s := .refl
  cases i with
  | getPages t g granted =>
    unfold pageStep getPages
    dsimp only
    split
    · split
      · exact hrefl.finish ..
      split
      · exact hrefl
      · split
        · exact hrefl.setCall ..
        · exact hrefl
    · exact hrefl
  | releasePages t k =>
    unfold pageStep releasePages
    dsimp only
    split
    · split
      · exact hrefl
      · exact hrefl.congr rfl rfl
    · exact hrefl
  | markDirty p data =>
    unfold pageStep markDirty
    dsimp only
    split
    · exact hrefl.modify fun _ => rfl
    · exact hrefl
  | writeback t f =>
    unfold pageStep
    dsimp only
    split
    · exact hrefl.setCall ..
    · exact hrefl
  | invalidate f =>
    refine .of_loses (invalidate_loses s f) fun q c ⟨hf, hr⟩ hin => .inl ⟨hin, hr, .inr ?_⟩
    rw [hf]
  | next t mem read =>
    unfold pageStep
    dsimp only
    cases hc : s.calls t with
    | none => exact hrefl
    | some c =>
      have hins : ∀ p k, c.inserts = some (p, k) →
          (∀ c, s.FreedBy (.next t mem read) p c) ∧ ∃ k, s.InsertedBy (.next t mem read) p k :=
        fun p k hk =>
          have hi : s.InsertedBy (.next t mem read) p k := ⟨t, mem, read, c, rfl, hc, hk⟩
          ⟨fun _ => .inr ⟨k, hi⟩, k, hi⟩
      cases c with
      | get g refs missed step =>
        refine getStep_evolves mem read (fun q c ⟨hr, hd⟩ hin => .inl ⟨hin, hr, .inl hd⟩)
          fun p hp => hins p (g.fileId, g.page refs.length) ?_
        rw [hp]
        rfl
      | ahead g refs step =>
        refine aheadStep_evolves mem read fun p hp => hins p (g.fileId, g.nextPage) ?_
        rw [hp]
        rfl
      | undo refs => exact dropNext_evolves .undo refs
      | release refs => exact dropNext_evolves .release refs
      | writeback f bucket step => exact writeStep_evolves step

end Steps

end PageCache

/-! ## 3. Runs -/

section Runs

variable {T P D : Type} [Fintype T] [DecidableEq T] [DecidableEq P] [Inhabited D]
  {s : PageCache T P D}

/-- **The invariant holds in every order of the calls.** -/
theorem accounted (hs : (pageCache T P D).Reachable s) : s.Accounted := by
  refine hs.invariant (I := PageCache.Accounted) (fun s h0 => ?_)
    fun s i _ h _ => accounted_step h i
  rw [show s = {} from h0]
  refine ⟨⟨nofun, fun _ => List.nodup_nil, fun _ _ ⟨_, h⟩ => nomatch h⟩, ?_, fun p => ?_, ?_⟩
  · exact (Finset.sum_const_zero).symm
  · change 0 = 0 + (0 + ∑ _ : T, 0)
    rw [Finset.sum_const_zero]
    rfl
  · intro p k ⟨t, c, hc, _⟩
    cases hc

end Runs

/-- A page is read and written to, its reference is dropped, and the file is invalidated. -/
def dirtyRun : List (PageInput Unit Unit Nat) :=
  [.getPages () ⟨7, 0, 100, true, true⟩ true, .next () none none, .next () none none,
    .next () (some ()) none, .next () none (some 1), .next () none none, .next () none none,
    .next () none none, .markDirty () 2, .releasePages () 0, .next () none none,
    .next () none none]

end Zigk.Pages
