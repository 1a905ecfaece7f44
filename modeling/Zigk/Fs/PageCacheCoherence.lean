/-
  Subject:   WHEN THE PAGES THAT `getPages` RETURNS WERE READ.

  * `Reads` -- history that no step looks at: when each page was read, when each file was
    invalidated last, and how that was when the call of a thread began;
  * `Coherent` -- the pages in the chains, and the ones on their way into them, were read after the
    last `invalidate` of their file;
  * `cacheCoherent` -- **what `getPages` returns was read after every `invalidate` before the
    call**, in runs whose steps are all `Permitted`; `cacheCoherent_refuted` -- not if a page of the
    file is referenced while it is invalidated: the lookup does not look at `valid`.
-/
import Zigk.Fs.PageCacheSteps

namespace Zigk.Pages

open Function List Option PageCall PageCache

/-! ## 1. History -/

structure Reads (T P : Type) where
  clock : Nat := 1
  /-- When `read_fn` last read into a page, if it has since the page is there. -/
  readAt : P → Option Nat := fun _ => none
  invalidated : UInt64 → Nat := fun _ => 0
  /-- When the file of a thread's `getPages` had been invalidated, as the call began. -/
  since : T → Nat := fun _ => 0

def InRange (pageOffset : UInt64) : Prop := pageOffset.toNat * PAGE_SIZE < 2 ^ 64

instance (pageOffset : UInt64) : Decidable (InRange pageOffset) := Nat.decLt ..

namespace PageCall

variable {P : Type}

/-- The page that a call is about to populate, and whether `read_fn` is called for it. -/
def populates : PageCall P → Option (P × Bool)
  | .get g refs _ (.populate p) => some (p, g.readFn && g.fd && InRange (g.page refs.length))
  | .ahead g _ (.populate p) => some (p, decide (InRange g.nextPage))
  | _ => none

/-- The references that `getPages` has filled in. -/
def got : PageCall P → List P
  | .get _ refs _ _ | .ahead _ refs _ => refs
  | .undo _ | .release _ | .writeback .. => []

end PageCall

namespace Reads

variable {T P D : Type} [DecidableEq T] [DecidableEq P]

def populate (h : Reads T P) : Option (P × Bool) → Reads T P
  | some (p, reads) =>
    { h with readAt := update h.readAt p (if reads then some h.clock else none) }
  | none => h

def tick (h : Reads T P) : Reads T P := { h with clock := h.clock + 1 }

def record (h : Reads T P) (s : PageCache T P D) : PageInput T P D → Reads T P
  | .getPages t g _ =>
    if s.idle t then { h with since := update h.since t (h.invalidated g.fileId) }.tick
    else h.tick
  | .invalidate f => { h with invalidated := update h.invalidated f h.clock }.tick
  | .next t _ _ => (h.populate ((s.calls t).bind populates)).tick
  | .releasePages .. | .markDirty .. | .writeback .. => h.tick

/-- The page was read after the time. -/
def ReadAfter (h : Reads T P) (p : P) (n : Nat) : Prop := ∃ r, h.readAt p = some r ∧ n < r

end Reads

/-- While a file is invalidated, its cached pages have no reference, and no call is between the
    reading of a page of it and its insertion. And `getPages` is called to read. -/
def Permitted {T P D : Type} (s : PageCache T P D) : PageInput T P D → Prop
  | .getPages _ g _ => g.readFn = true ∧ g.fd = true
  | .invalidate f => (∀ p, InTable s.buckets p → s.isFile f p = true → s.refsOf p = 0) ∧
      ∀ t, ∀ r ∈ (s.calls t).bind inserts, r.2.1 ≠ f
  | _ => True

/-! ## 2. Places in a file -/

theorem Request.page_inRange {g : Request} {i : Nat} (hi : i < g.numPages)
    (he : g.endByte < 2 ^ 64) : InRange (g.page i) := by
  have hpage : (g.page i).toNat ≤ g.startPage + i := by
    unfold Request.page
    rw [UInt64.toNat_ofNat']
    exact Nat.mod_le _ _
  have hoff : g.offset.toNat ≤ g.endByte := Nat.le_add_right ..
  unfold InRange
  unfold Request.numPages at hi
  have hstart : g.startPage * PAGE_SIZE ≤ g.offset.toNat := Nat.div_mul_le_self ..
  have hend : g.endPage * PAGE_SIZE ≤ g.endByte := by
    unfold Request.endPage
    split
    · omega
    · exact (Nat.div_mul_le_self ..).trans (Nat.sub_le ..)
  have hmul := Nat.mul_le_mul_right PAGE_SIZE hpage
  by_cases hle : g.startPage ≤ g.endPage
  · have hlast : (g.startPage + i) * PAGE_SIZE ≤ g.endPage * PAGE_SIZE :=
      Nat.mul_le_mul_right _ (by omega)
    omega
  · have hfirst : (g.startPage + i) * PAGE_SIZE ≤ g.startPage * PAGE_SIZE :=
      Nat.mul_le_mul_right _ (by omega)
    omega

namespace PageCache

variable {T P D : Type} [DecidableEq T] [DecidableEq P] {s X : PageCache T P D} {t t' : T}
  {p q : P} {g : Request} {refs : List P} {missed : Bool}

/-! ## 3. How a call goes on -/

/-- The call populates a page now, and inserts it next. -/
def OnItsWay (s : PageCache T P D) (t : T) (r : P × Key) : Prop :=
  ∃ c reads, s.calls t = some c ∧ c.populates = some (r.1, reads) ∧ c.creates = some r ∧
    (InRange r.2.2 → reads = true)

/-- `X` is the state after a step of `t`; `Q` holds of the request if it is in a round of `getPages`
    then, and `R` of the references that it has got. -/
structure Continues (s : PageCache T P D) (t : T) (Q : Request → Prop) (R : P → Prop)
    (X : PageCache T P D) : Prop where
  frame : ∀ t', t' ≠ t → X.calls t' = s.calls t'
  got : ∀ c, X.calls t = some c → ∀ p ∈ c.got, R p
  returned : ∀ refs, X.held = refs :: s.held → ∀ p ∈ refs, R p
  request : ∀ g' refs missed step, X.calls t = some (.get g' refs missed step) →
    Q g' ∧ refs.length < g'.numPages
  inserts : ∀ c r, X.calls t = some c → c.inserts = some r → s.OnItsWay t r

namespace Continues

variable {Q : Request → Prop} {R : P → Prop} {c : Option (PageCall P)}

omit [DecidableEq P] in
theorem setCall (hc : X.calls = s.calls) (hh : X.held = s.held)
    (hgot : ∀ c', c = some c' → ∀ p ∈ c'.got, R p)
    (hreq : ∀ g' refs missed step, c = some (.get g' refs missed step) →
      Q g' ∧ refs.length < g'.numPages)
    (hins : ∀ c' r, c = some c' → c'.inserts = some r → s.OnItsWay t r) :
    s.Continues t Q R (X.setCall t c) := by
  have hself : (X.setCall t c).calls t = c := update_self ..
  refine ⟨fun t' ht => ?_, ?_, fun refs hr => ?_, ?_, ?_⟩
  · exact (update_of_ne ht ..).trans (congrFun hc t')
  · rw [hself]
    exact hgot
  · exact absurd (hh.symm.trans hr) ne_cons_self
  · rw [hself]
    exact hreq
  · rw [hself]
    exact hins

omit [DecidableEq P] in
/-- A call that has no references from `getPages`, and inserts nothing. -/
theorem other (hc : X.calls = s.calls) (hh : X.held = s.held)
    (hgot : ∀ c', c = some c' → c'.got = [] ∧ c'.inserts = none ∧
      ∀ g' refs missed step, c' ≠ .get g' refs missed step) :
    s.Continues t Q R (X.setCall t c) := by
  refine setCall hc hh (fun c' hc' p hp => ?_) (fun g' refs missed step hc' => ?_)
    fun c' r hc' hr => ?_
  · rw [(hgot c' hc').1] at hp
    cases hp
  · exact absurd rfl ((hgot _ hc').2.2 g' refs missed step)
  · rw [(hgot c' hc').2.1] at hr
    cases hr

omit [DecidableEq P] in
theorem get {step : GetStep P} (hc : X.calls = s.calls) (hh : X.held = s.held)
    (hQ : Q g) (hR : ∀ p ∈ refs, R p) (hlen : refs.length < g.numPages)
    (hins : ∀ p, step = .insert p → s.OnItsWay t (p, g.fileId, g.page refs.length)) :
    s.Continues t Q R (X.setCall t (some (.get g refs missed step))) := by
  refine setCall hc hh (fun c' hc' => ?_) (fun g' refs' missed' step' hc' => ?_)
    fun c' r hc' hr => ?_
  · cases hc'
    exact hR
  · cases hc'
    exact ⟨hQ, hlen⟩
  cases hc'
  cases step with
  | insert p =>
    cases hr
    exact hins p rfl
  | look | room | alloc | populate p => cases hr

omit [DecidableEq P] in
theorem ahead {step : GetStep P} (hc : X.calls = s.calls) (hh : X.held = s.held)
    (hR : ∀ p ∈ refs, R p) (hins : ∀ p, step = .insert p → s.OnItsWay t (p, g.fileId, g.nextPage)) :
    s.Continues t Q R (X.setCall t (some (.ahead g refs step))) := by
  refine setCall hc hh (fun c' hc' => ?_) (fun g' refs' missed' step' hc' => ?_)
    fun c' r hc' hr => ?_
  · cases hc'
    exact hR
  · cases hc'
  cases hc'
  cases step with
  | insert p =>
    cases hr
    exact hins p rfl
  | look | room | alloc | populate p => cases hr

omit [DecidableEq P] in
theorem finish (hc : X.calls = s.calls) (hR : ∀ p ∈ refs, R p) :
    s.Continues t Q R (X.finish t refs) := by
  have hself : (X.finish t refs).calls t = none := update_self ..
  refine ⟨fun t' ht => ?_, fun c hc' => ?_, fun refs' hr => ?_, fun g' _ _ _ hc' => ?_,
    fun c r hc' => ?_⟩
  · exact (update_of_ne ht ..).trans (congrFun hc t')
  · rw [hself] at hc'
    cases hc'
  · change refs :: X.held = refs' :: s.held at hr
    rw [← (List.cons.inj hr).1]
    exact hR
  · rw [hself] at hc'
    cases hc'
  · rw [hself] at hc'
    cases hc'

omit [DecidableEq P] in
theorem advance (hc : X.calls = s.calls) (hh : X.held = s.held) (hQ : Q g) (hR : ∀ p ∈ refs, R p) :
    s.Continues t Q R (X.advance t g refs missed) := by
  unfold PageCache.advance
  split
  · exact get hc hh hQ hR ‹_› fun p hp => by cases hp
  · split
    · exact ahead hc hh hR fun p hp => by cases hp
    · exact finish hc hR

end Continues

omit [DecidableEq P] in
theorem advance_frame (X : PageCache T P D) (t : T) (g : Request) (refs : List P) (missed : Bool) :
    (X.advance t g refs missed).page = X.page ∧
      (X.advance t g refs missed).buckets = X.buckets := by
  unfold advance
  split
  · exact ⟨rfl, rfl⟩
  · split
    · exact ⟨rfl, rfl⟩
    · exact ⟨rfl, rfl⟩

omit [DecidableEq T] [DecidableEq P] in
theorem insertLocked_self {k : Key} (hk : s.keyOf p = some k) :
    InTable (s.insertLocked p).buckets p ∧ (s.insertLocked p).page = s.page := by
  obtain ⟨c, hc, -⟩ := map_eq_some_iff.1 hk
  unfold insertLocked
  rw [hc]
  exact ⟨Hashed.inTable_update.2 (.inl rfl), rfl⟩

/-- **A round of `getPages`**: the reference that it adds is to a page in the chains that is the
    part of the file asked for. -/
theorem getStep_continues [Fintype T] [Inhabited D] (h : s.Accounted) {step : GetStep P}
    {mem : Option P} {read : Option D} {Q : Request → Prop} {R : P → Prop}
    (hc : s.calls t = some (.get g refs missed step)) (hlen : refs.length < g.numPages)
    (hg : g.readFn = true ∧ g.fd = true) (hQ : Q g) (hR : ∀ p ∈ refs, R p)
    (hnew : ∀ p, InTable (s.getStep t g refs missed mem read step).buckets p →
      (s.getStep t g refs missed mem read step).keyOf p = some (g.fileId, g.page refs.length) →
      R p) :
    s.Continues t Q R (s.getStep t g refs missed mem read step) := by
  have henter := h.enter t
  rw [hc] at henter
  have happend : ∀ e, R e → ∀ p ∈ refs ++ [e], R p := by
    intro e he p hp
    rcases mem_append.1 hp with hp | hp
    · exact hR p hp
    · rw [mem_singleton.1 hp]
      exact he
  cases step with
  | look =>
    cases hl : s.lookupLocked g.fileId (g.page refs.length) with
    | some e =>
      obtain ⟨hin, hkey⟩ := henter.lookup_some hl
      have hX : s.getStep t g refs missed mem read .look =
          (s.ref e).advance t g (refs ++ [e]) missed := by
        unfold getStep
        dsimp only
        rw [hl]
      rw [hX] at hnew ⊢
      obtain ⟨hpage, hbuckets⟩ := advance_frame (s.ref e) t g (refs ++ [e]) missed
      have he : R e := by
        refine hnew e ?_ ?_
        · rw [hbuckets]
          exact hin
        · unfold keyOf
          rw [hpage]
          exact (keyOf_ref e e).trans hkey
      exact .advance rfl rfl hQ (happend e he)
    | none =>
      unfold getStep
      dsimp only
      rw [hl]
      exact .get rfl rfl hQ hR hlen fun p hp => by cases hp
  | room =>
    have hloses := makeRoom_loses s
    unfold getStep
    cases hm : s.makeRoom with
    | mk X ok =>
      rw [hm] at hloses
      cases ok with
      | true => exact .get hloses.calls hloses.held hQ hR hlen fun p hp => by cases hp
      | false =>
        refine .other hloses.calls hloses.held fun c' hc' => ?_
        cases hc'
        exact ⟨rfl, rfl, nofun⟩
  | alloc =>
    unfold getStep
    cases ha : s.allocatePage g.fileId (g.page refs.length) mem with
    | some r =>
      obtain ⟨-, -, hcalls, hheld⟩ := henter.allocatePage ha
      exact .get hcalls hheld hQ hR hlen fun p hp => by cases hp
    | none =>
      refine .other rfl rfl fun c' hc' => ?_
      cases hc'
      exact ⟨rfl, rfl, nofun⟩
  | populate p =>
    unfold getStep
    dsimp only
    rw [if_pos hg.1, if_pos hg.2]
    refine .get rfl rfl hQ hR hlen fun q hq => ?_
    cases hq
    refine ⟨_, _, hc, rfl, rfl, fun hr => ?_⟩
    rw [hg.1, hg.2]
    exact decide_eq_true hr
  | insert p =>
    have hf : s.Fresh p (g.fileId, g.page refs.length) := (h.fresh p _ ⟨t, _, hc, rfl⟩).1
    cases hl : s.lookupLocked g.fileId (g.page refs.length) with
    | some e =>
      obtain ⟨hin, hkey⟩ := henter.lookup_some hl
      have hne : e ≠ p := by
        intro hep
        subst hep
        exact hf.out hin
      have hX : s.getStep t g refs missed mem read (.insert p) =
          ((s.ref e).free p).advance t g (refs ++ [e]) true := by
        unfold getStep
        dsimp only
        rw [hl]
      rw [hX] at hnew ⊢
      obtain ⟨hpage, hbuckets⟩ := advance_frame ((s.ref e).free p) t g (refs ++ [e]) true
      have he : R e := by
        refine hnew e ?_ ?_
        · rw [hbuckets]
          exact hin
        · unfold keyOf
          rw [hpage, page_free_ne hne]
          exact (keyOf_ref e e).trans hkey
      exact .advance rfl rfl hQ (happend e he)
    | none =>
      have hX : s.getStep t g refs missed mem read (.insert p) =
          (s.insertLocked p).advance t g (refs ++ [p]) true := by
        unfold getStep
        dsimp only
        rw [hl]
      rw [hX] at hnew ⊢
      obtain ⟨hpage, hbuckets⟩ := advance_frame (s.insertLocked p) t g (refs ++ [p]) true
      obtain ⟨hcalls, hheld⟩ := insertLocked_frame s p
      obtain ⟨hin, hsame⟩ := insertLocked_self hf.key
      have hp : R p := by
        refine hnew p ?_ ?_
        · rw [hbuckets]
          exact hin
        · unfold keyOf
          rw [hpage, hsame]
          exact hf.key
      exact .advance hcalls hheld hQ (happend p hp)

theorem aheadStep_continues [Fintype T] [Inhabited D] (h : s.Accounted) {step : GetStep P}
    (mem : Option P) (read : Option D) {Q : Request → Prop} {R : P → Prop}
    (hc : s.calls t = some (.ahead g refs step)) (hR : ∀ p ∈ refs, R p) : s.Continues t Q R (s.aheadStep t g refs mem read step) := by
  have henter := h.enter t
  cases step with
  | look =>
    unfold aheadStep
    dsimp only
    split
    · exact .finish rfl hR
    · split
      · exact .finish rfl hR
      · exact .ahead rfl rfl hR fun p hp => by cases hp
  | room =>
    refine ⟨fun _ _ => rfl, fun c hc' => ?_, fun refs hr => ?_, fun g' _ _ _ hc' => ?_,
      fun c r hc' hr => ?_⟩
    · rw [show s.calls t = some c from hc'] at hc
      cases hc
      exact hR
    · exact absurd hr ne_cons_self
    · rw [show s.calls t = _ from hc'] at hc
      cases hc
    · rw [show s.calls t = some c from hc'] at hc
      cases hc
      cases hr
  | alloc =>
    unfold aheadStep
    cases ha : s.allocatePage g.fileId g.nextPage mem with
    | some r =>
      obtain ⟨-, -, hcalls, hheld⟩ := henter.allocatePage ha
      exact .ahead hcalls hheld hR fun p hp => by cases hp
    | none => exact .finish rfl hR
  | populate p =>
    refine .ahead rfl rfl hR fun q hq => ?_
    cases hq
    exact ⟨_, _, hc, rfl, rfl, fun hr => decide_eq_true hr⟩
  | insert p =>
    unfold aheadStep
    cases s.lookupLocked g.fileId g.nextPage with
    | some e => exact .finish rfl hR
    | none => exact .finish (insertLocked_frame (s.unref p) p).1 hR

omit [DecidableEq P] in
/-- The call ends, or goes on as another `writeback`. -/
theorem continues_write {Q : Request → Prop} {R : P → Prop} {f : UInt64} {bucket : Nat} {step : WriteStep P}
    (hc : X.calls = s.calls) (hh : X.held = s.held) :
    s.Continues t Q R (X.setCall t (some (.writeback f bucket step))) := by
  refine .other hc hh fun c' hc' => ?_
  cases hc'
  exact ⟨rfl, rfl, nofun⟩

theorem writeStep_continues {Q : Request → Prop} {R : P → Prop} {f : UInt64} {bucket : Nat}
    (step : WriteStep P) :
    s.Continues t Q R (s.writeStep t f bucket step) := by
  cases step with
  | find =>
    unfold writeStep
    dsimp only
    split
    · split
      · exact continues_write rfl rfl
      · exact continues_write rfl rfl
    · exact .other rfl rfl nofun
  | write p =>
    unfold writeStep
    dsimp only
    split
    · exact .other rfl rfl nofun
    split
    · exact continues_write rfl rfl
    · have hX : s.Continues t Q R (s.setCall t (some (.writeback f bucket (.clear p)))) :=
        continues_write rfl rfl
      exact ⟨hX.frame, hX.got, hX.returned, hX.request, hX.inserts⟩
  | clear p => exact continues_write rfl rfl
  | unref p => exact continues_write rfl rfl

theorem dropNext_continues {Q : Request → Prop} {R : P → Prop} {rest : List P → PageCall P}
    (hgot : ∀ l, (rest l).got = [] ∧ (rest l).inserts = none ∧
      ∀ g' refs missed step, rest l ≠ .get g' refs missed step) :
    s.Continues t Q R (s.dropNext t rest refs) := by
  cases refs with
  | nil => exact .other rfl rfl nofun
  | cons p refs =>
    refine .other rfl rfl fun c' hc' => ?_
    cases hc'
    exact hgot refs

/-! ## 4. The invariant -/

/-- What a thread in `getPages` with `g` keeps to. -/
structure Asks (h : Reads T P) (t : T) (g : Request) (refs : List P) : Prop where
  reads : g.readFn = true ∧ g.fd = true
  bytes : g.endByte < 2 ^ 64
  more : refs.length < g.numPages
  since : h.since t ≤ h.invalidated g.fileId

/-- What holds of the call of a thread: the page that it is about to insert was read after the last
    `invalidate` of its file, and the ones that it has got after the ones before the call. -/
structure CallOk (h : Reads T P) (t : T) (c : PageCall P) : Prop where
  coming : ∀ r, c.inserts = some r → InRange r.2.2 → h.ReadAfter r.1 (h.invalidated r.2.1)
  asks : ∀ g refs missed step, c = .get g refs missed step → Asks h t g refs
  got : ∀ p ∈ c.got, h.ReadAfter p (h.since t)

structure Coherent (s : PageCache T P D) (h : Reads T P) : Prop where
  clock : ∀ f, h.invalidated f < h.clock
  cached : ∀ p k, InTable s.buckets p → s.keyOf p = some k → InRange k.2 →
    h.ReadAfter p (h.invalidated k.1)
  call : ∀ t c, s.calls t = some c → CallOk h t c

variable {h h' : Reads T P} {c c' : PageCall P} {k : Key} {reads : Bool} {i : PageInput T P D}

omit [DecidableEq T] [DecidableEq P] in
/-- The call stays as it is, and the pages that it knows. -/
theorem CallOk.keep (hk : CallOk h t c) (hs : h'.since t = h.since t)
    (hle : ∀ f, h.invalidated f ≤ h'.invalidated f)
    (hinv : ∀ r, c.inserts = some r → h'.invalidated r.2.1 = h.invalidated r.2.1)
    (hread : ∀ p, (p ∈ c.got ∨ ∃ k, c.inserts = some (p, k)) → h'.readAt p = h.readAt p) :
    CallOk h' t c := by
  refine ⟨fun r hr hin => ?_, fun g refs missed step hc => ?_, fun p hp => ?_⟩
  · rw [hinv r hr, Reads.ReadAfter, hread r.1 (.inr ⟨r.2, hr⟩)]
    exact hk.coming r hr hin
  · obtain ⟨hreads, hbytes, hmore, hsince⟩ := hk.asks g refs missed step hc
    refine ⟨hreads, hbytes, hmore, ?_⟩
    rw [hs]
    exact hsince.trans (hle _)
  · rw [hs, Reads.ReadAfter, hread p (.inl hp)]
    exact hk.got p hp

omit [DecidableEq T] [DecidableEq P] in
theorem CallOk.other (hgot : c.got = []) (hins : c.inserts = none)
    (hget : ∀ g refs missed step, c ≠ .get g refs missed step) : CallOk h t c := by
  refine ⟨fun r hr => ?_, fun g refs missed step hc => absurd hc (hget g refs missed step),
    fun p hp => ?_⟩
  · rw [hins] at hr
    cases hr
  · rw [hgot] at hp
    cases hp

omit [DecidableEq T] [DecidableEq P] in
theorem CallOk.tick (hk : CallOk h t c) : CallOk h.tick t c :=
  hk.keep rfl (fun _ => le_rfl) (fun _ _ => rfl) fun _ _ => rfl

omit [DecidableEq P] in
/-- A thread goes into a call that has no pages, and the others stay in theirs. -/
theorem CallOk.setCall (hk : ∀ t c, s.calls t = some c → CallOk h t c)
    (hc : ∀ c', c = c' → CallOk h t c') (ht : (s.setCall t (some c)).calls t' = some c') :
    CallOk h t' c' := by
  by_cases htt : t' = t
  · subst htt
    have hself : (s.setCall t' (some c)).calls t' = some c := update_self ..
    exact hc c' (Option.some.inj (hself.symm.trans ht))
  · exact hk t' c' ((update_of_ne htt ..).symm.trans ht)

omit [DecidableEq T] in
theorem populate_readAt {o : Option (P × Bool)} (ho : ∀ b, o ≠ some (p, b)) :
    (h.populate o).readAt p = h.readAt p := by
  cases o with
  | none => rfl
  | some r =>
    obtain ⟨q, b⟩ := r
    have hpq : p ≠ q := by
      intro he
      subst he
      exact ho b rfl
    exact update_of_ne hpq ..

omit [DecidableEq T] in
theorem populate_same (o : Option (P × Bool)) :
    (h.populate o).since = h.since ∧ (h.populate o).invalidated = h.invalidated ∧
      (h.populate o).clock = h.clock := by
  cases o with
  | none => exact ⟨rfl, rfl, rfl⟩
  | some r => exact ⟨rfl, rfl, rfl⟩

omit [DecidableEq T] [DecidableEq P] in
theorem populates_get (hp : c.populates = some (p, reads)) :
    (∃ k, c.creates = some (p, k)) ∧ c.refs = p :: c.got ∧ c.inserts = none := by
  cases c with
  | get g refs missed step =>
    cases step with
    | populate q =>
      cases hp
      exact ⟨⟨_, rfl⟩, rfl, rfl⟩
    | look | room | alloc | insert q => cases hp
  | ahead g refs step =>
    cases step with
    | populate q =>
      cases hp
      exact ⟨⟨_, rfl⟩, rfl, rfl⟩
    | look | room | alloc | insert q => cases hp
  | undo refs | release refs | writeback f b step => cases hp

omit [DecidableEq T] [DecidableEq P] in
theorem got_refs (hp : p ∈ c.got) : p ∈ c.refs := by
  cases c with
  | get g refs missed step => exact mem_append_right _ hp
  | ahead g refs step => exact mem_append_right _ hp
  | undo refs | release refs | writeback f b step => cases hp

section Accounts

variable [Fintype T]

/-- **A page that a call populates** is in no chain, and no call has got it or inserts it. -/
theorem populated_alone (ha : s.Accounted) (hc : s.calls t = some c)
    (hp : c.populates = some (p, reads)) (hc' : s.calls t' = some c') :
    ¬ InTable s.buckets p ∧ p ∉ c'.got ∧ ∀ k, c'.inserts ≠ some (p, k) := by
  obtain ⟨⟨k, hk⟩, hrefs, hins⟩ := populates_get hp
  have hf := (ha.fresh p k ⟨t, c, hc, hk⟩).1
  refine ⟨hf.out, ?_⟩
  by_cases ht : t' = t
  · subst ht
    rw [hc] at hc'
    cases hc'
    refine ⟨fun hgot => ?_, fun k' hk' => ?_⟩
    · have henter := ha.enter t'
      rw [hc] at henter
      change s.Balanced c.refs _ _ at henter
      obtain ⟨hone, -⟩ := henter.alone hf (got_refs hgot)
      rw [hrefs, count_cons_self] at hone
      have := count_pos_iff.2 hgot
      omega
    · rw [hins] at hk'
      cases hk'
  · have henter := ha.enter t'
    rw [hc'] at henter
    have hnot : p ∉ c'.refs := henter.not_own ⟨t, Ne.symm ht, c, hc, hk⟩
    exact ⟨fun hgot => hnot (got_refs hgot),
      fun k' hk' => hnot (mem_refs (inserts_creates hk'))⟩

omit [DecidableEq T] [Fintype T] in
theorem cached_invalidate {f : UInt64} (hperm : Permitted s (.invalidate f)) (hin : InTable (s.invalidate f).buckets p)
    (hk : (s.invalidate f).keyOf p = some k) :
    k.1 ≠ f ∧ InTable s.buckets p ∧ s.keyOf p = some k := by
  have hloses := invalidate_loses s f
  have hlive : (s.invalidate f).page p ≠ none := live_of_key hk
  have hkey : s.keyOf p = some k := (hloses.key hlive).symm.trans hk
  refine ⟨fun hf => ?_, hloses.inTable hin, hkey⟩
  obtain ⟨c, hc, rfl⟩ := map_eq_some_iff.1 hkey
  have hzero := hperm.1 p (hloses.inTable hin) ((isFile_iff hc).2 hf)
  rw [refsOf, hc] at hzero
  obtain ⟨b, hb⟩ := hin
  exact hlive (invalidate_chain (mem_finRange b) hc hf hzero hb)

/-- **The pages in the chains** were read after the last `invalidate` of their file. -/
theorem cached_step [Inhabited D] (ha : s.Accounted) (hs : s.Coherent h) (hperm : Permitted s i)
    (hin : InTable (pageStep s i).buckets p) (hk : (pageStep s i).keyOf p = some k)
    (hr : InRange k.2) : (h.record s i).ReadAfter p ((h.record s i).invalidated k.1) := by
  have hev := step_evolves s i
  have hold : (InTable s.buckets p ∨ ∃ k, s.InsertedBy i p k) ∧ s.keyOf p = some k := by
    have htable := hev.table p hin
    have hlive : s.page p ≠ none := by
      rcases htable with hp | ⟨k', t, mem, read, c, -, hc, hins⟩
      · exact ha.live hp
      · exact live_of_key (ha.fresh p k' ⟨t, c, hc, inserts_creates hins⟩).1.key
    refine ⟨htable, ?_⟩
    obtain ⟨c, hc⟩ := ne_none_iff_exists'.1 hlive
    rcases hev.page p c hc with ⟨c', hc', hf, ho⟩ | ⟨-, hn⟩
    · rw [keyOf, hc', map_some, hf, ho] at hk
      rw [keyOf, hc]
      exact hk
    · exact absurd hn (live_of_key hk)
  obtain ⟨htable, hkey⟩ := hold
  have hread : h.ReadAfter p (h.invalidated k.1) := by
    rcases htable with hp | ⟨k', t, mem, read, c, -, hc, hins⟩
    · exact hs.cached p k hp hkey hr
    have hf := (ha.fresh p k' ⟨t, c, hc, inserts_creates hins⟩).1
    have hkk : k' = k := Option.some.inj (hf.key.symm.trans hkey)
    subst hkk
    exact (hs.call t c hc).coming _ hins hr
  cases i with
  | getPages t g granted =>
    unfold Reads.record
    dsimp only
    split
    · exact hread
    · exact hread
  | invalidate f =>
    obtain ⟨hne, -⟩ := cached_invalidate hperm hin hk
    change h.ReadAfter p (update h.invalidated f h.clock k.1)
    rw [update_of_ne hne]
    exact hread
  | releasePages t k' => exact hread
  | markDirty q data => exact hread
  | writeback t f => exact hread
  | next t mem read =>
    obtain ⟨-, hinv, -⟩ := populate_same (h := h) ((s.calls t).bind populates)
    have hsame : (h.populate ((s.calls t).bind populates)).readAt p = h.readAt p := by
      refine populate_readAt fun b hb => ?_
      obtain ⟨c, hc, hp⟩ := bind_eq_some_iff.1 hb
      obtain ⟨hout, -, hins⟩ := populated_alone ha hc hp hc
      rcases htable with hp' | ⟨k', t', mem', read', c', hi, hc', hins'⟩
      · exact hout hp'
      cases hi
      rw [hc] at hc'
      cases hc'
      exact hins k' hins'
    change ∃ r, (h.populate _).readAt p = some r ∧ (h.populate _).invalidated k.1 < r
    rw [hsame, hinv]
    exact hread

/-- What a thread gets in its step was read after the `invalidate`s before its call. -/
theorem next_continues [Inhabited D] (ha : s.Accounted) (hs : s.Coherent h) (mem : Option P)
    (read : Option D) (hc : s.calls t = some c) :
    s.Continues t
      (fun g => (g.readFn = true ∧ g.fd = true) ∧ g.endByte < 2 ^ 64 ∧
        h.since t ≤ h.invalidated g.fileId)
      (fun p => (h.record s (.next t mem read)).ReadAfter p (h.since t))
      (pageStep s (.next t mem read)) := by
  have hok := hs.call t c hc
  have hstep : pageStep s (.next t mem read) = s.nextStep t mem read c := by
    unfold pageStep
    dsimp only
    rw [hc]
  have hgot : ∀ p ∈ c.got, (h.record s (.next t mem read)).ReadAfter p (h.since t) := by
    intro p hp
    have hsame : (h.populate ((s.calls t).bind populates)).readAt p = h.readAt p := by
      refine populate_readAt fun b hb => ?_
      obtain ⟨c', hc', hp'⟩ := bind_eq_some_iff.1 hb
      exact (populated_alone ha hc' hp' hc).2.1 hp
    change ∃ r, (h.populate _).readAt p = some r ∧ h.since t < r
    rw [hsame]
    exact hok.got p hp
  cases c with
  | get g refs missed step =>
    obtain ⟨hreads, hbytes, hmore, hsince⟩ := hok.asks g refs missed step rfl
    have hnew : ∀ p, InTable (pageStep s (.next t mem read)).buckets p →
        (pageStep s (.next t mem read)).keyOf p = some (g.fileId, g.page refs.length) →
        (h.record s (.next t mem read)).ReadAfter p (h.since t) := by
      intro p hin hk
      obtain ⟨r, hr, hlt⟩ := cached_step ha hs (i := .next t mem read) trivial hin hk
        (Request.page_inRange hmore hbytes)
      have hinv := (populate_same (h := h) ((s.calls t).bind populates)).2.1
      change (h.populate _).invalidated g.fileId < r at hlt
      rw [hinv] at hlt
      exact ⟨r, hr, hsince.trans_lt hlt⟩
    rw [hstep] at hnew ⊢
    exact getStep_continues ha hc hmore hreads ⟨hreads, hbytes, hsince⟩ hgot hnew
  | ahead g refs step =>
    rw [hstep]
    exact aheadStep_continues ha mem read hc hgot
  | undo refs =>
    rw [hstep]
    exact dropNext_continues fun _ => ⟨rfl, rfl, nofun⟩
  | release refs =>
    rw [hstep]
    exact dropNext_continues fun _ => ⟨rfl, rfl, nofun⟩
  | writeback f bucket step =>
    rw [hstep]
    exact writeStep_continues step

theorem next_coherent [Inhabited D] (ha : s.Accounted) (hs : s.Coherent h) (mem : Option P)
    (read : Option D) (hc : s.calls t = some c) (ht : (pageStep s (.next t mem read)).calls t' =
      some c') : CallOk (h.record s (.next t mem read)) t' c' := by
  have hcont := next_continues ha hs mem read hc
  obtain ⟨hsince, hinv, -⟩ := populate_same (h := h) ((s.calls t).bind populates)
  by_cases htt : t' = t
  · subst htt
    refine ⟨fun r hr hin => ?_, fun g refs missed step he => ?_, ?_⟩
    · obtain ⟨c₀, reads, hc₀, hp, -, hreads⟩ := hcont.inserts c' r ht hr
      have hpop : (s.calls t').bind populates = some (r.1, true) := by
        rw [hc₀, bind_some, hp, hreads hin]
      refine ⟨h.clock, ?_, ?_⟩
      · change (h.populate _).readAt r.1 = _
        rw [hpop]
        exact update_self ..
      · change (h.populate _).invalidated r.2.1 < _
        rw [hinv]
        exact hs.clock _
    · rw [he] at ht
      obtain ⟨⟨hreads, hbytes, hle⟩, hmore⟩ := hcont.request g refs missed step ht
      refine ⟨hreads, hbytes, hmore, ?_⟩
      change (h.populate _).since t' ≤ (h.populate _).invalidated g.fileId
      rw [hsince, hinv]
      exact hle
    · intro p hp
      obtain ⟨r, hr, hlt⟩ := hcont.got c' ht p hp
      refine ⟨r, hr, ?_⟩
      change (h.populate _).since t' < r
      rw [hsince]
      exact hlt
  · rw [hcont.frame t' htt] at ht
    refine (hs.call t' c' ht).keep (congrFun hsince t') (fun f => (congrFun hinv f).ge)
      (fun r _ => congrFun hinv _) fun p hp => ?_
    refine populate_readAt fun b hb => ?_
    obtain ⟨c₀, hc₀, hpop⟩ := bind_eq_some_iff.1 hb
    obtain ⟨-, hgot, hins⟩ := populated_alone ha hc₀ hpop ht
    rcases hp with hp | ⟨k, hk⟩
    · exact hgot hp
    · exact hins k hk

omit [Fintype T] in
theorem clock_step (hs : s.Coherent h) (f : UInt64) :
    (h.record s i).invalidated f < (h.record s i).clock := by
  cases i with
  | getPages t g granted =>
    unfold Reads.record
    dsimp only
    split
    · exact (hs.clock f).trans (Nat.lt_succ_self _)
    · exact (hs.clock f).trans (Nat.lt_succ_self _)
  | invalidate f' =>
    change update h.invalidated f' h.clock f < h.clock + 1
    by_cases hf : f = f'
    · subst hf
      rw [update_self]
      exact Nat.lt_succ_self _
    · rw [update_of_ne hf]
      exact (hs.clock f).trans (Nat.lt_succ_self _)
  | releasePages t k => exact (hs.clock f).trans (Nat.lt_succ_self _)
  | markDirty q data => exact (hs.clock f).trans (Nat.lt_succ_self _)
  | writeback t f' => exact (hs.clock f).trans (Nat.lt_succ_self _)
  | next t mem read =>
    obtain ⟨-, hinv, hclock⟩ := populate_same (h := h) ((s.calls t).bind populates)
    change (h.populate _).invalidated f < (h.populate _).clock + 1
    rw [hinv, hclock]
    exact (hs.clock f).trans (Nat.lt_succ_self _)

omit [DecidableEq P] [Fintype T] in
/-- A thread begins a `getPages`. -/
theorem getPages_callOk (hs : s.Coherent h) {granted : Bool}
    (hperm : g.readFn = true ∧ g.fd = true) (hidle : s.idle t = true)
    (ht : (s.getPages t g granted).calls t' = some c') :
    CallOk ({ h with since := update h.since t (h.invalidated g.fileId) } :
      Reads T P).tick t' c' := by
  have hnone : s.calls t = none := isNone_iff_eq_none.1 hidle
  have hself : (update h.since t (h.invalidated g.fileId)) t =
      h.invalidated g.fileId := update_self ..
  have hrest : ∀ u c, s.calls u = some c →
      CallOk ({ h with since := update h.since t (h.invalidated g.fileId) } :
        Reads T P).tick u c := by
    intro u c hu
    have hut : u ≠ t := by
      intro he
      rw [he, hnone] at hu
      cases hu
    exact (hs.call u c hu).keep (update_of_ne hut ..) (fun _ => le_rfl)
      (fun _ _ => rfl) fun _ _ => rfl
  unfold getPages at ht
  split at ht
  · by_cases htt : t' = t
    · subst htt
      have := (update_self ..).symm.trans ht
      cases this
    · exact hrest t' c' ((update_of_ne htt ..).symm.trans ht)
  split at ht
  · exact hrest t' c' ht
  split at ht
  · refine CallOk.setCall hrest (fun c'' hc'' => ?_) ht
    subst hc''
    refine ⟨nofun, fun g' refs missed step he => ?_, nofun⟩
    cases he
    refine ⟨hperm, not_le.1 ‹_›, Nat.succ_pos _, ?_⟩
    change update h.since t (h.invalidated g.fileId) t ≤ h.invalidated g.fileId
    rw [hself]
  · exact hrest t' c' ht

theorem coherent_step [Inhabited D] (ha : s.Accounted) (hs : s.Coherent h) (hperm : Permitted s i) :
    (pageStep s i).Coherent (h.record s i) := by
  refine ⟨clock_step hs, fun p k hin hk hr => cached_step ha hs hperm hin hk hr, fun t' c' ht => ?_⟩
  cases i with
  | getPages t g granted =>
    unfold pageStep at ht
    dsimp only at ht
    unfold Reads.record
    dsimp only
    by_cases hidle : s.idle t
    · rw [if_pos hidle] at ht ⊢
      exact getPages_callOk hs hperm hidle ht
    · rw [if_neg hidle] at ht ⊢
      exact (hs.call t' c' ht).tick
  | releasePages t k =>
    unfold pageStep at ht
    dsimp only at ht
    split at ht
    · unfold releasePages at ht
      split at ht
      · exact (hs.call t' c' ht).tick
      · refine CallOk.setCall (fun u c hu => (hs.call u c hu).tick) (fun c'' hc'' => ?_) ht
        subst hc''
        exact .other rfl rfl nofun
    · exact (hs.call t' c' ht).tick
  | markDirty q data =>
    unfold pageStep markDirty at ht
    dsimp only at ht
    split at ht
    · exact (hs.call t' c' ht).tick
    · exact (hs.call t' c' ht).tick
  | writeback t f =>
    unfold pageStep at ht
    dsimp only at ht
    split at ht
    · refine CallOk.setCall (fun u c hu => (hs.call u c hu).tick) (fun c'' hc'' => ?_) ht
      subst hc''
      exact .other rfl rfl nofun
    · exact (hs.call t' c' ht).tick
  | invalidate f =>
    change (s.invalidate f).calls t' = some c' at ht
    rw [(invalidate_loses s f).calls] at ht
    refine (hs.call t' c' ht).keep rfl (fun f' => ?_) (fun r hr => ?_) fun _ _ => rfl
    · change _ ≤ update h.invalidated f h.clock f'
      by_cases hf : f' = f
      · subst hf
        rw [update_self]
        exact (hs.clock f').le
      · rw [update_of_ne hf]
    · change update h.invalidated f h.clock r.2.1 = _
      refine update_of_ne (hperm.2 t' r ?_) ..
      rw [ht]
      exact hr
  | next t mem read =>
    cases hc : s.calls t with
    | none =>
      have hX : pageStep s (.next t mem read) = s := by
        unfold pageStep
        dsimp only
        rw [hc]
      rw [hX] at ht
      have hrec : h.record s (.next t mem read) = h.tick := by
        unfold Reads.record
        dsimp only
        rw [hc]
        rfl
      rw [hrec]
      exact (hs.call t' c' ht).tick
    | some c => exact next_coherent ha hs mem read hc ht

omit [Fintype T] in
/-- A step that returns an array is the last one of a `getPages`, or of one without a page. -/
theorem returns [Inhabited D] (i : PageInput T P D) (hr : (pageStep s i).held = refs :: s.held) (hp : p ∈ refs) :
    ∃ t mem read c, i = .next t mem read ∧ s.calls t = some c := by
  have hlen := congrArg List.length hr
  rw [length_cons] at hlen
  have hsame : ∀ X : PageCache T P D, X.held = s.held → X.held.length ≠ s.held.length + 1 := by
    intro X hX
    rw [hX]
    omega
  cases i with
  | getPages t g granted =>
    exfalso
    unfold pageStep getPages at hr
    dsimp only at hr
    split at hr
    · split at hr
      · rw [← (List.cons.inj hr).1] at hp
        cases hp
      split at hr
      · exact ne_cons_self hr
      · split at hr
        · exact ne_cons_self hr
        · exact ne_cons_self hr
    · exact ne_cons_self hr
  | releasePages t k =>
    exfalso
    unfold pageStep releasePages at hlen
    dsimp only at hlen
    split at hlen
    · split at hlen
      · omega
      · have hle := length_eraseIdx_le s.held k
        dsimp only at hlen
        omega
    · omega
  | markDirty q data =>
    refine absurd hlen (hsame _ ?_)
    unfold pageStep markDirty
    dsimp only
    split
    · rfl
    · rfl
  | writeback t f =>
    refine absurd hlen (hsame _ ?_)
    unfold pageStep
    dsimp only
    split
    · rfl
    · rfl
  | invalidate f =>
    change (s.invalidate f).held.length = _ at hlen
    exact absurd hlen (hsame _ (invalidate_loses s f).held)
  | next t mem read =>
    cases hc : s.calls t with
    | none =>
      refine absurd hlen (hsame _ ?_)
      unfold pageStep
      dsimp only
      rw [hc]
    | some c => exact ⟨t, mem, read, c, rfl, hc⟩

end Accounts

end PageCache

/-! ## 5. Runs -/

instance {α β : Type*} [Fintype β] [DecidableEq α] (t : β → List α) (a : α) :
    Decidable (InTable t a) := inferInstanceAs (Decidable (∃ b, a ∈ t b))

instance {T P D : Type} [Fintype T] [Fintype P] [DecidableEq P] (s : PageCache T P D)
    (i : PageInput T P D) : Decidable (Permitted s i) :=
  -- the keys are not to be enumerated
  have (t : T) (f : UInt64) : Decidable (∀ r ∈ (s.calls t).bind inserts, r.2.1 ≠ f) :=
    Option.decidableForallMem _
  by unfold Permitted; split <;> infer_instance

section Runs

variable {T P D : Type} [Fintype T] [DecidableEq T] [DecidableEq P] [Inhabited D]

theorem coherent {r : PageCache T P D × Reads T P}
    (hr : ((pageCache T P D).track {} Reads.record).Reach (fun r i => Permitted r.1 i) r) :
    r.1.Coherent r.2 := by
  refine hr.invariant (I := fun r => r.1.Coherent r.2) (fun r h0 => ?_) fun r i hreach hs hperm => ?_
  · obtain ⟨s, h⟩ := r
    obtain ⟨h0, rfl⟩ := h0
    rw [show s = {} from h0]
    exact ⟨fun _ => Nat.one_pos, fun p k ⟨_, hp⟩ => (nomatch hp), nofun⟩
  · exact coherent_step (accounted hreach.forget.reachable) hs hperm

/-- **Every page that a `getPages` returns was read after every `invalidate` of the file before the
    call**, in every run whose steps are permitted. -/
theorem cacheCoherent {s : PageCache T P D} {h : Reads T P}
    (hr : ((pageCache T P D).track {} Reads.record).Reach (fun r i => Permitted r.1 i) (s, h))
    {i : PageInput T P D} {refs : List P} (hret : (pageStep s i).held = refs :: s.held) :
    ∀ p ∈ refs, ∃ t mem read, i = .next t mem read ∧ (h.record s i).ReadAfter p (h.since t) := by
  intro p hp
  obtain ⟨t, mem, read, c, rfl, hc⟩ := returns i hret hp
  have hcont := next_continues (accounted hr.forget.reachable) (coherent hr) mem read hc
  exact ⟨t, mem, read, rfl, hcont.returned refs hret p hp⟩

end Runs

/-- One page of file 7. -/
def pageRequest : Request := ⟨7, 0, 100, true, true⟩

/-- One page is read by `getPages`, up to its last step. -/
def readRun (mem : Option Unit) (read : Option Nat) : List (PageInput Unit Unit Nat) :=
  [.getPages () pageRequest true, .next () none none, .next () none none, .next () mem none,
    .next () none read, .next () none none, .next () none none]

/-- The page is released before the file is invalidated, and read again. -/
def againRun : List (PageInput Unit Unit Nat) :=
  readRun (some ()) (some 1) ++ [.next () none none, .releasePages () 0, .next () none none,
    .next () none none, .invalidate 7] ++ readRun (some ()) (some 2)

/-- The page is still referenced while the file is invalidated, and looked up again. -/
def staleRun : List (PageInput Unit Unit Nat) :=
  readRun (some ()) (some 1) ++ [.next () none none, .invalidate 7, .getPages () pageRequest true]

def trackedCache : Machine (PageCache Unit Unit Nat × Reads Unit Unit) (PageInput Unit Unit Nat) :=
  (pageCache Unit Unit Nat).track {} Reads.record

theorem trackedCache_start : trackedCache.start ({}, {}) := ⟨rfl, rfl⟩

theorem cacheCoherent_again :
    ((trackedCache.exec ({}, {}) againRun).2.record (trackedCache.exec ({}, {}) againRun).1
      (.next () none none)).ReadAfter () ((trackedCache.exec ({}, {}) againRun).2.since ()) := by
  have hrun : trackedCache.Reach (fun r i => Permitted r.1 i) (trackedCache.exec ({}, {}) againRun) :=
    Machine.Reach.exec (.start trackedCache_start) (by decide +kernel)
  have hret : (pageStep (trackedCache.exec ({}, {}) againRun).1 (.next () none none)).held =
      [()] :: (trackedCache.exec ({}, {}) againRun).1.held := by
    decide +kernel
  obtain ⟨t, -, -, -, h⟩ := cacheCoherent hrun hret () mem_cons_self
  exact h

/-- A page is returned that was read before the file was invalidated. -/
theorem cacheCoherent_refuted : ¬ ∀ r : PageCache Unit Unit Nat × Reads Unit Unit,
    trackedCache.Reachable r → ∀ i refs, (pageStep r.1 i).held = refs :: r.1.held →
      ∀ p ∈ refs, ∃ t mem read, i = .next t mem read ∧
        (r.2.record r.1 i).ReadAfter p (r.2.since t) := by
  intro h
  obtain ⟨⟨⟩, -, -, -, n, hn, hlt⟩ := h (trackedCache.exec ({}, {}) staleRun)
    (Machine.Reachable.exec (.start trackedCache_start) _) (.next () none none) [()] (by decide +kernel) ()
    mem_cons_self
  have hread : ((trackedCache.exec ({}, {}) staleRun).2.record
      (trackedCache.exec ({}, {}) staleRun).1 (.next () none none)).readAt () = some 5 := by
    decide +kernel
  rw [hread] at hn
  cases hn
  exact absurd hlt (by decide +kernel)

end Zigk.Pages
