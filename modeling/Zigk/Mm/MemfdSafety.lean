/-
  Subject:   WHICH FRAMES A MEMFD MAPPING MAY STILL REACH.

  Every frame has one owner at most, a memfd or something else, and an owned frame has its one
  count (`Owns`); this holds in every run, as does that no munmap frees a frame (`MemfdOk`).
  A mapping, though, is no owner: a memfd that replaces its buffer or is closed gives the frames
  back while they are mapped. `Undisturbed` excludes that step.

  * **`memfdSafety`** -- in the runs without such a step every mapped frame is in use.
-/
import Zigk.Mm.Memfd

namespace Zigk.Mm

open Function List Except MemfdState

/-! ## 1. Ownership -/

/-- The frames of `l` are pages, each listed once and with a count of one. -/
structure Owns (s : Pmm) (l : List Nat) : Prop where
  nodup : l.Nodup
  held : ∀ p ∈ l, p < s.totalPages ∧ s.refs p = 1

section Owns

variable {s s' : Pmm} {l r : List Nat}

theorem Owns.perm (h : Owns s l) (hp : l.Perm r) : Owns s r where
  nodup := hp.nodup h.nodup
  held p hr := h.held p (hp.mem_iff.mpr hr)

theorem Owns.inUse (h : PmmOk s) (ho : Owns s l) {p : Nat} (hp : p ∈ l) :
    InUse s (p * PAGE_SIZE) := by
  rw [InUse, Nat.mul_div_cancel p (by decide)]
  intro hlt
  have h1 := (ho.held p hp).2
  exact (h.bit_iff p hlt).mpr (Nat.lt_of_lt_of_eq Nat.one_pos h1.symm)

/-- What was free before does not overlap what was owned. -/
theorem Owns.take (ho : Owns s l) (ht : Takes s s' r) (hr : r.Nodup) : Owns s' (r ++ l) where
  nodup := by
    refine nodup_append.mpr ⟨hr, ho.nodup, ?_⟩
    rintro a ha _ hb rfl
    have := (ht.free a ha).2
    have := (ho.held a hb).2
    omega
  held p hp := by
    rw [ht.total, ht.refs]
    by_cases hmem : p ∈ r
    · rw [if_pos hmem]
      exact ⟨(ht.free p hmem).1, rfl⟩
    · rw [if_neg hmem]
      exact ho.held p ((mem_append.mp hp).resolve_left hmem)

/-- Giving back one owned frame. -/
theorem Owns.free {p : Nat} (debug : Bool) (h : PmmOk s) (ho : Owns s (p :: l)) :
    ∃ s', Pmm.freePage debug s (p * PAGE_SIZE) = .ok s' ∧ PmmOk s' ∧
      s'.totalPages = s.totalPages ∧ Owns s' l ∧
      ∀ k, s'.refs k = if k = p then 0 else s.refs k := by
  obtain ⟨s', hs', hok, htotal, hrefs⟩ := freePage_spec debug h (ho.inUse h mem_cons_self)
  have hcount : ∀ k, s'.refs k = if k = p then 0 else s.refs k := by
    intro k
    rw [hrefs, Nat.mul_div_cancel p (by decide), Nat.mul_mod_left]
    by_cases hk : k = p
    · rw [if_pos ⟨rfl, hk⟩, if_pos hk, hk, (ho.held p mem_cons_self).2]
    · rw [if_neg (fun e => hk e.2), if_neg hk]
  refine ⟨s', hs', hok, htotal, ⟨(nodup_cons.mp ho.nodup).2, fun k hk => ?_⟩, hcount⟩
  have hne : k ≠ p := by
    rintro rfl
    exact (nodup_cons.mp ho.nodup).1 hk
  rw [htotal, hcount, if_neg hne]
  exact ho.held k (mem_cons_of_mem p hk)

/-- **Giving back a run of owned frames**: they are free afterwards, the other owners keep
    theirs. -/
theorem freeFrames_spec (debug : Bool) {q n : Nat} (h : PmmOk s)
    (ho : Owns s (List.range' q n ++ l)) :
    ∃ s', freeFrames debug s (q * PAGE_SIZE) n = .ok s' ∧ PmmOk s' ∧
      s'.totalPages = s.totalPages ∧ Owns s' l ∧
      ∀ k, s'.refs k = if k ∈ List.range' q n then 0 else s.refs k := by
  -- after `d` the frames from `q + d.length` on are still owned
  let I (d : List Nat) (b : Pmm) : Prop := PmmOk b ∧ b.totalPages = s.totalPages ∧
    Owns b (List.range' (q + d.length) (n - d.length) ++ l) ∧
    ∀ k, b.refs k = if q ≤ k ∧ k < q + d.length then 0 else s.refs k
  have hloop : ∃ s', freeFrames debug s (q * PAGE_SIZE) n = .ok s' ∧ I (List.range n) s' := by
    refine Except.foldlM_ok (I := I) ?_ ⟨h, rfl, ho, fun k => by
      rw [length_nil, if_neg (by omega)]⟩
    rintro d i rest b e ⟨hok, htotal, hown, hrefs⟩
    have hlen : n = d.length + (rest.length + 1) := by
      simpa using congrArg List.length e
    have hi : i = d.length := by
      have := congrArg (fun t => t[d.length]?) e
      simpa [getElem?_range (show d.length < n by omega)] using this.symm
    subst hi
    rw [show n - d.length = (n - (d.length + 1)) + 1 by omega, range'_succ] at hown
    obtain ⟨b', hb', hok', htotal', hown', hrefs'⟩ := hown.free debug hok
    refine ⟨b', ?_, hok', htotal'.trans htotal, ?_, fun k => ?_⟩
    · rw [← hb', Nat.add_mul]
    · rw [length_append]
      exact hown'
    rw [hrefs', hrefs, length_append, length_singleton]
    by_cases hk : k = q + d.length
    · rw [if_pos hk, if_pos (by omega)]
    rw [if_neg hk]
    by_cases hlt : q ≤ k ∧ k < q + d.length
    · rw [if_pos hlt, if_pos (by omega)]
    · rw [if_neg hlt, if_neg (by omega)]
  obtain ⟨s', hs', hok, htotal, hown, hrefs⟩ := hloop
  rw [length_range] at hown hrefs
  rw [Nat.sub_self] at hown
  refine ⟨s', hs', hok, htotal, hown, fun k => ?_⟩
  rw [hrefs, if_congr mem_range'_1 rfl rfl]

end Owns

/-! ## 2. The functions on one memfd -/

namespace MemfdState

/-- The frames of the buffer; a memfd without references has none. -/
def frames (m : MemfdState) : List Nat :=
  if m.refCount = 0 then [] else List.range' (m.physAddr / PAGE_SIZE) (m.capacity / PAGE_SIZE)

/-- A buffer starts with a page and is a number of pages; no buffer is address 0 and no bytes. -/
structure Wf (m : MemfdState) : Prop where
  physAddr : m.physAddr % PAGE_SIZE = 0
  capacity : m.capacity % PAGE_SIZE = 0
  empty : m.hasBuffer = false → m.physAddr = 0 ∧ m.capacity = 0

end MemfdState

/-- There is a run of `n` free pages. -/
def HasRun (s : Pmm) (n : Nat) : Prop :=
  ∃ q, q + n ≤ s.totalPages ∧ ∀ p ∈ List.range' q n, s.refs p = 0

/-- `ensureCapacity` will replace the buffer. -/
def Replaces (s : Pmm) (m : MemfdState) (newCap : Nat) : Prop :=
  m.capacity < newCap ∧ newCap + (PAGE_SIZE - 1) < 2 ^ 64 ∧ HasRun s (pageAlignLen newCap / PAGE_SIZE)

/-- What an operation on a memfd comes to. The rest `l` keeps its frames; the buffer keeps its
    too, unless `gives` holds. -/
def Serves (gives : Prop) (l : List Nat) (m : MemfdState) :
    Except Trap (Pmm × MemfdState) → Prop
  | .error t => t = .integerOverflow
  | .ok (s', m') => PmmOk s' ∧ Owns s' (m'.frames ++ l) ∧ m'.Wf ∧ (m'.frames = m.frames ∨ gives)

section Ops

variable {s : Pmm} {m : MemfdState} {l : List Nat} {debug : Bool}

theorem pageAlignLen_mod (len : Nat) : pageAlignLen len % PAGE_SIZE = 0 := by
  unfold pageAlignLen pageAlignDown PAGE_SIZE
  omega

theorem pageAlignLen_of_aligned {len : Nat} (h : len % PAGE_SIZE = 0) : pageAlignLen len = len := by
  unfold PAGE_SIZE at h
  unfold pageAlignLen pageAlignDown PAGE_SIZE
  omega

theorem frames_live (h : 0 < m.refCount) :
    m.frames = List.range' (m.physAddr / PAGE_SIZE) (m.capacity / PAGE_SIZE) := by
  rw [frames, if_neg (by omega)]

/-- Freeing the buffer of a memfd, in `ensureCapacity` and in the last `unref`. -/
theorem freeBuffer_spec (debug : Bool) (h : PmmOk s) (hw : m.Wf) (hl : 0 < m.refCount)
    (ho : Owns s (m.frames ++ l)) :
    ∃ s', freeFrames debug s m.physAddr (m.capacity / PAGE_SIZE) = .ok s' ∧ PmmOk s' ∧
      s'.totalPages = s.totalPages ∧ Owns s' l ∧
      ∀ k, s'.refs k = if k ∈ m.frames then 0 else s.refs k := by
  rw [frames_live hl] at ho ⊢
  have := freeFrames_spec debug h ho
  rwa [Nat.div_mul_cancel (Nat.dvd_of_mod_eq_zero hw.physAddr)] at this

/-- **`ensureCapacity` keeps the buffer or replaces it**, and the frames it gives back have no
    owner then. -/
theorem ensureCapacity_spec (debug : Bool) (h : PmmOk s) (hw : m.Wf) (hl : 0 < m.refCount)
    (ho : Owns s (m.frames ++ l)) (newCap : Nat) :
    m.ensureCapacity debug s newCap = .error .integerOverflow ∨
    ∃ s' m' ok, m.ensureCapacity debug s newCap = .ok (s', m', ok) ∧ PmmOk s' ∧
      Owns s' (m'.frames ++ l) ∧ m'.Wf ∧ m'.refCount = m.refCount ∧
      (m'.frames = m.frames ∨ Replaces s m newCap) := by
  rw [ensureCapacity]
  by_cases hcap : newCap ≤ m.capacity
  · right
    rw [if_pos hcap]
    exact ⟨s, m, true, rfl, h, ho, hw, rfl, .inl rfl⟩
  rw [if_neg hcap]
  by_cases hov : newCap + (PAGE_SIZE - 1) ≥ 2 ^ 64
  · left
    rw [if_pos hov]
    rfl
  right
  rw [if_neg hov]
  obtain ⟨s₁, r, halloc, hok, hnone, hsome⟩ := allocPages_spec h (pageAlignLen newCap / PAGE_SIZE)
  simp only [pure_bind, halloc, ok_bind]
  cases r with
  | none => exact ⟨s₁, m, false, rfl, hok, by rw [hnone rfl]; exact ho, hw, rfl, .inl rfl⟩
  | some a =>
    obtain ⟨q, rfl, hle, htake⟩ := hsome a rfl
    have hrep : Replaces s m newCap := ⟨by omega, by omega, q, hle, fun p hp => (htake.free p hp).2⟩
    have hown := ho.take htake nodup_range'
    let m' : MemfdState :=
      { m with hasBuffer := true, physAddr := q * PAGE_SIZE, capacity := pageAlignLen newCap }
    have hframes : m'.frames = List.range' q (pageAlignLen newCap / PAGE_SIZE) := by
      rw [frames_live (show 0 < m'.refCount from hl)]
      show List.range' (q * PAGE_SIZE / PAGE_SIZE) _ = _
      rw [Nat.mul_div_cancel q (by decide)]
    have hw' : m'.Wf := ⟨Nat.mul_mod_left q _, pageAlignLen_mod newCap, fun e => (nomatch e)⟩
    cases hb : m.hasBuffer with
    | false =>
      refine ⟨s₁, m', true, rfl, hok, ?_, hw', rfl, .inr hrep⟩
      have hold : m.frames = [] := by
        rw [frames_live hl, (hw.empty hb).2]
        rfl
      rw [hold] at hown
      rw [hframes]
      exact hown
    | true =>
      have hswap : (List.range' q (pageAlignLen newCap / PAGE_SIZE) ++ (m.frames ++ l)).Perm
          (m.frames ++ (List.range' q (pageAlignLen newCap / PAGE_SIZE) ++ l)) :=
        perm_append_comm_assoc _ _ _
      obtain ⟨s₂, hs₂, hok₂, -, hown₂, -⟩ := freeBuffer_spec debug hok hw hl (hown.perm hswap)
      refine ⟨s₂, m', true, ?_, hok₂, by rw [hframes]; exact hown₂, hw', rfl, .inr hrep⟩
      simp only [if_true, hs₂, ok_bind]
      rfl

theorem frames_congr {m' : MemfdState} (hl : 0 < m.refCount) (hl' : 0 < m'.refCount)
    (hp : m'.physAddr = m.physAddr) (hc : m'.capacity = m.capacity) : m'.frames = m.frames := by
  rw [frames_live hl, frames_live hl', hp, hc]

theorem frames_ref (hl : 0 < m.refCount) : m.ref.frames = m.frames :=
  frames_congr hl (Nat.succ_pos m.refCount) rfl rfl

/-- The reference an operation took before goes again, and the buffer stays. -/
theorem unref_ref (h : 1 < m.refCount) :
    m.unref debug s = .ok (s, { m with refCount := m.refCount - 1 }) := by
  rw [unref, if_neg (by omega)]
  rfl

/-- The end of `memfdWrite` and `memfdTruncate`: with the size and the position of `m'`. -/
theorem serves_unref {gives : Prop} {m₁ m₂ : MemfdState} (hl : 0 < m.refCount)
    (hr : m₁.refCount = m.refCount + 1) (h : PmmOk s) (ho : Owns s (m₁.frames ++ l)) (hw : m₁.Wf)
    (hf : m₁.frames = m.ref.frames ∨ gives) (hr' : m₂.refCount = m₁.refCount)
    (hp : m₂.physAddr = m₁.physAddr) (hc : m₂.capacity = m₁.capacity)
    (hb : m₂.hasBuffer = m₁.hasBuffer) : Serves gives l m (m₂.unref debug s) := by
  rw [unref_ref (by omega)]
  have e : ({ m₂ with refCount := m₂.refCount - 1 } : MemfdState).frames = m₁.frames :=
    frames_congr (by omega) (show 0 < m₂.refCount - 1 by omega) hp hc
  refine ⟨h, by rw [e]; exact ho, ⟨?_, ?_, ?_⟩, ?_⟩
  · exact hp ▸ hw.physAddr
  · exact hc ▸ hw.capacity
  · intro hbuf
    exact ⟨hp.trans (hw.empty (hb ▸ hbuf)).1, hc.trans (hw.empty (hb ▸ hbuf)).2⟩
  · rw [e]
    exact hf.imp_left fun h => h.trans (frames_ref hl)

theorem memfdWrite_spec (h : PmmOk s) (hw : m.Wf) (hl : 0 < m.refCount)
    (ho : Owns s (m.frames ++ l)) (len : Nat) :
    Serves (Replaces s m (m.position + len)) l m (m.memfdWrite debug s len) := by
  rw [← frames_ref hl] at ho
  have hw' : m.ref.Wf := ⟨hw.physAddr, hw.capacity, hw.empty⟩
  rw [memfdWrite]
  rcases ensureCapacity_spec debug h hw' (Nat.succ_pos _) ho (m.position + len) with
    e | ⟨s', m', ok, e, hok, hown, hw', hr, hf⟩
  · rw [show m.ref.position = m.position from rfl, e]
    rfl
  rw [show m.ref.position = m.position from rfl, e, ok_bind]
  by_cases hc : (ok && m'.hasBuffer) = true
  · simp only [hc, if_true]
    exact serves_unref hl hr hok hown hw' hf rfl rfl rfl rfl
  · simp only [hc]
    exact serves_unref hl hr hok hown hw' hf rfl rfl rfl rfl

theorem memfdTruncate_spec (h : PmmOk s) (hw : m.Wf) (hl : 0 < m.refCount)
    (ho : Owns s (m.frames ++ l)) (length : Nat) :
    Serves (m.size < length ∧ Replaces s m length) l m (m.memfdTruncate debug s length) := by
  rw [← frames_ref hl] at ho
  have hw' : m.ref.Wf := ⟨hw.physAddr, hw.capacity, hw.empty⟩
  rw [memfdTruncate, truncate]
  by_cases hgrow : length > m.ref.size
  · rw [if_pos hgrow]
    rcases ensureCapacity_spec debug h hw' (Nat.succ_pos _) ho length with
      e | ⟨s', m', ok, e, hok, hown, hw', hr, hf⟩
    · rw [e]
      rfl
    have hf' := hf.imp_right fun hrep => (⟨hgrow, hrep⟩ : m.size < length ∧ Replaces s m length)
    rw [e]
    cases ok with
    | true => exact serves_unref hl hr hok hown hw' hf' rfl rfl rfl rfl
    | false => exact serves_unref hl hr hok hown hw' hf' rfl rfl rfl rfl
  · rw [if_neg hgrow]
    exact serves_unref hl rfl h ho hw' (.inl rfl) rfl rfl rfl rfl

/-- `memfdClose`. -/
theorem unref_spec (h : PmmOk s) (hw : m.Wf) (hl : 0 < m.refCount) (ho : Owns s (m.frames ++ l)) :
    Serves (m.refCount = 1) l m (m.unref debug s) := by
  by_cases h1 : m.refCount = 1
  · obtain ⟨s', hs', hok, -, hown, -⟩ := freeBuffer_spec debug h hw hl ho
    rw [unref, if_pos h1, hs']
    refine ⟨hok, ?_, ⟨hw.physAddr, hw.capacity, hw.empty⟩, .inr h1⟩
    have e : ({ m with refCount := m.refCount - 1 } : MemfdState).frames = [] :=
      if_pos (show m.refCount - 1 = 0 by omega)
    rw [e]
    exact hown
  · rw [unref_ref (by omega)]
    have e : ({ m with refCount := m.refCount - 1 } : MemfdState).frames = m.frames :=
      frames_congr hl (show 0 < m.refCount - 1 by omega) rfl rfl
    exact ⟨h, by rw [e]; exact ho, ⟨hw.physAddr, hw.capacity, hw.empty⟩, .inl e⟩

end Ops

/-! ## 3. Mappings -/

/-- All VMAs are a device's. -/
def AllDevice (vmas : List Vma) : Prop := ∀ v ∈ vmas, v.flags &&& MAP_DEVICE ≠ 0

/-- Every mapping of `pt'` was one of `pt`. -/
def SubMap (pt' pt : Nat → Option Nat) : Prop := ∀ v p, pt' v = some p → pt v = some p

section Mappings

variable {s : Pmm} {debug : Bool} {pt pt' pt'' : Nat → Option Nat} {v : Vma} {vmas : List Vma}

theorem SubMap.rfl : SubMap pt pt := fun _ _ h => h

theorem SubMap.trans (h : SubMap pt'' pt') (h' : SubMap pt' pt) : SubMap pt'' pt :=
  fun v p hp => h' v p (h v p hp)

theorem unmapRange_subMap (pt : Nat → Option Nat) (start len : Nat) :
    SubMap (unmapRange pt start len) pt := by
  intro v p h
  unfold unmapRange at h
  split at h
  · cases h
  · exact h

theorem update_none_subMap (pt : Nat → Option Nat) (page : Nat) :
    SubMap (update pt page none) pt := by
  intro v p h
  by_cases e : v = page
  · rw [e, update_self] at h
    cases h
  · rwa [update_of_ne e] at h

/-- **A device's frames are not freed with their VMA.** -/
theorem freeVmaPages_spec (debug : Bool) (s : Pmm) (pt : Nat → Option Nat)
    (hv : v.flags &&& MAP_DEVICE ≠ 0) :
    ∃ pt', freeVmaPages debug s pt v = .ok (s, pt') ∧ SubMap pt' pt := by
  let I (b : Pmm × (Nat → Option Nat)) : Prop := b.1 = s ∧ SubMap b.2 pt
  have hloop : ∃ b, freeVmaPages debug s pt v = .ok b ∧ I b := by
    refine Except.foldlM_ok_of (I := I) ?_ ⟨rfl, .rfl⟩
    rintro ⟨_, pt₁⟩ ⟨rfl, h₁⟩ i _
    cases hp : pt₁ (v.start / PAGE_SIZE + i) with
    | none => exact ⟨_, by simp only [hp]; rfl, rfl, h₁⟩
    | some frame =>
      refine ⟨(_, update pt₁ (v.start / PAGE_SIZE + i) none), ?_, rfl, ?_⟩
      · simp only [hp, if_neg hv]
        rfl
      · exact (update_none_subMap pt₁ _).trans h₁
  obtain ⟨⟨_, pt'⟩, hb, rfl, hw⟩ := hloop
  exact ⟨pt', hb, hw⟩

theorem munmapVmas_spec (debug oom : Bool) (addr endAddr : Nat) (s : Pmm) (pt : Nat → Option Nat)
    (hv : AllDevice vmas) :
    ∃ pt' vmas' ok, munmapVmas debug oom addr endAddr s pt vmas = .ok (s, pt', vmas', ok) ∧
      SubMap pt' pt ∧ AllDevice vmas' := by
  induction vmas generalizing pt with
  | nil => exact ⟨pt, [], true, rfl, .rfl, hv⟩
  | cons v vmas ih =>
    have hhead := hv v mem_cons_self
    have htail : AllDevice vmas := fun w hw => hv w (mem_cons_of_mem v hw)
    rw [munmapVmas]
    by_cases hover : v.overlaps addr endAddr = true
    · rw [if_pos hover]
      by_cases hall : addr ≤ v.start ∧ endAddr ≥ v.stop
      · obtain ⟨pt₁, e₁, h₁⟩ := freeVmaPages_spec debug s pt hhead
        obtain ⟨pt', vmas', ok, e, h', hv'⟩ := ih pt₁ htail
        rw [if_pos hall, e₁]
        exact ⟨pt', vmas', ok, e, h'.trans h₁, hv'⟩
      rw [if_neg hall]
      by_cases hleft : addr ≤ v.start
      · obtain ⟨pt', vmas', ok, e, h', hv'⟩ :=
          ih (unmapRange pt v.start (min endAddr v.stop - v.start)) htail
        rw [if_pos hleft]
        simp only [e, ok_bind]
        exact ⟨pt', _, ok, rfl, h'.trans (unmapRange_subMap _ _ _),
          forall_mem_cons.mpr ⟨hhead, hv'⟩⟩
      rw [if_neg hleft]
      by_cases hright : endAddr ≥ v.stop
      · obtain ⟨pt', vmas', ok, e, h', hv'⟩ :=
          ih (unmapRange pt (max addr v.start) (v.stop - max addr v.start)) htail
        rw [if_pos hright]
        simp only [e, ok_bind]
        exact ⟨pt', _, ok, rfl, h'.trans (unmapRange_subMap _ _ _),
          forall_mem_cons.mpr ⟨hhead, hv'⟩⟩
      rw [if_neg hright]
      cases oom with
      | true => exact ⟨pt, v :: vmas, false, rfl, .rfl, hv⟩
      | false =>
        obtain ⟨pt', vmas', ok, e, h', hv'⟩ := ih (unmapRange pt addr (endAddr - addr)) htail
        rw [if_neg Bool.false_ne_true]
        simp only [e, ok_bind]
        exact ⟨pt', _, ok, rfl, h'.trans (unmapRange_subMap _ _ _),
          forall_mem_cons.mpr ⟨hhead, forall_mem_cons.mpr ⟨hhead, hv'⟩⟩⟩
    · obtain ⟨pt', vmas', ok, e, h', hv'⟩ := ih pt htail
      rw [if_neg hover, e]
      exact ⟨pt', _, ok, rfl, h', forall_mem_cons.mpr ⟨hhead, hv'⟩⟩

theorem munmap_spec (debug oom : Bool) (s : Pmm) {p : Process} (hv : AllDevice p.vmas)
    (addr len : Nat) :
    ∃ p', munmap debug oom s p addr len = .ok (s, p') ∧ SubMap p'.pt p.pt ∧ AllDevice p'.vmas := by
  have stay : ∃ p', (.ok (s, p) : Except Trap (Pmm × Process)) = .ok (s, p') ∧
      SubMap p'.pt p.pt ∧ AllDevice p'.vmas := ⟨p, rfl, .rfl, hv⟩
  rw [munmap]
  by_cases hal : isPageAligned addr = true
  · by_cases hlen : len = 0
    · simp only [hal, hlen, if_true]
      exact stay
    by_cases hov : addr > 2 ^ 64 - 1 - pageAlignLen len
    · simp only [hal, hlen, hov, if_true]
      exact stay
    obtain ⟨pt', vmas', ok, e, h', hv'⟩ :=
      munmapVmas_spec debug oom addr (addr + pageAlignLen len) s p.pt hv
    simp only [hal, hlen, hov, e, ok_bind]
    cases ok with
    | true => exact ⟨_, rfl, h', hv'⟩
    | false => exact ⟨_, rfl, h', hv'⟩
  · simp only [hal]
    exact stay

theorem mem_insertVma {w : Vma} (h : w ∈ insertVma v vmas) : w = v ∨ w ∈ vmas := by
  induction vmas with
  | nil => exact .inl (mem_singleton.mp h)
  | cons u vmas ih =>
    rw [insertVma] at h
    by_cases hlt : v.start < u.start
    · rw [if_pos hlt] at h
      exact mem_cons.mp h
    rw [if_neg hlt] at h
    rcases mem_cons.mp h with rfl | h
    · exact .inr mem_cons_self
    · exact (ih h).imp_right (mem_cons_of_mem u)

/-- **A new mapping reaches the frames of the buffer only.** -/
theorem sysMmap_spec {m : MemfdState} (hw : m.Wf) (hl : 0 < m.refCount) {p : Process}
    (hv : AllDevice p.vmas) (env : MmapEnv) (len prot : Nat) :
    AllDevice (sysMmap env m p len prot).vmas ∧
    ∀ k f, (sysMmap env m p len prot).pt k = some f → p.pt k = some f ∨ f ∈ m.frames := by
  have stay : AllDevice p.vmas ∧ ∀ k f, p.pt k = some f → p.pt k = some f ∨ f ∈ m.frames :=
    ⟨hv, fun _ _ => .inl⟩
  unfold sysMmap
  by_cases h0 : len = 0
  · rw [if_pos h0]
    exact stay
  rw [if_neg h0]
  by_cases hrss : p.rssCurrent + pageAlignLen len > p.rlimitAs
  · rw [if_pos hrss]
    exact stay
  rw [if_neg hrss]
  cases hb : m.hasBuffer with
  | false =>
    simp only [memfdMmap, hb, Bool.false_eq_true, if_false, true_or, if_true]
    exact stay
  | true =>
    simp only [memfdMmap, hb, if_true, pageAlignLen_of_aligned hw.capacity]
    by_cases hno : m.physAddr = 0 ∨ m.capacity = 0
    · rw [if_pos hno]
      exact stay
    rw [if_neg hno]
    cases env.virt with
    | none => exact stay
    | some virt =>
      have hmap : ∀ k f, mapRange p.pt virt m.physAddr m.capacity k = some f →
          p.pt k = some f ∨ f ∈ m.frames := by
        intro k f hk
        unfold mapRange at hk
        split at hk
        · right
          rw [frames_live hl, mem_range'_1]
          rw [Option.some.injEq] at hk
          omega
        · exact .inl hk
      cases env.fails with
      | some mapped => exact ⟨hv, fun k f hk => .inl (unmapRange_subMap _ _ _ k f hk)⟩
      | none =>
        by_cases hvma : (!env.vma) = true
        · simp only [hvma, if_true]
          exact ⟨hv, fun k f hk => hmap k f (unmapRange_subMap _ _ _ k f hk)⟩
        simp only [hvma]
        refine ⟨fun w hw => ?_, hmap⟩
        rcases mem_insertVma hw with rfl | hw
        · show (MAP_SHARED ||| MAP_DEVICE) &&& MAP_DEVICE ≠ 0
          decide
        · exact hv w hw

end Mappings

/-! ## 4. Runs -/

namespace Memfds

/-- The frames of the buffers. -/
def frames (s : Memfds) : List Nat := s.memfds.flatMap MemfdState.frames

def Mapped (s : Memfds) (p : Nat) : Prop := ∃ proc v, (s.procs proc).pt v = some p

end Memfds

structure MemfdOk (s : Memfds) : Prop where
  pmm : PmmOk s.pmm
  owns : Owns s.pmm (s.frames ++ s.others)
  wf : ∀ m ∈ s.memfds, m.Wf
  device : ∀ proc, AllDevice (s.procs proc).vmas

/-- Every frame that is mapped belongs to a buffer. -/
def Backed (s : Memfds) : Prop := ∀ p, s.Mapped p → p ∈ s.frames

/-- The event takes the frames from the buffer of the memfd `i`. -/
def GivesBack (s : Pmm) (m : MemfdState) (i : Nat) : MemfdEvent → Prop
  | .write j len => i = j ∧ Replaces s m (m.position + len)
  | .truncate j length => i = j ∧ m.size < length ∧ Replaces s m length
  | .close j => i = j ∧ m.refCount = 1
  | _ => False

/-- A buffer is replaced or freed only while no process maps a frame of it. -/
def Undisturbed (r : Except Trap Memfds) (e : MemfdEvent) : Prop :=
  ∀ s i m, r = .ok s → s.memfds[i]? = some m → 0 < m.refCount → GivesBack s.pmm m i e →
    ∀ p ∈ m.frames, ¬ s.Mapped p

/-- What a step comes to. -/
def MemfdStep (s : Memfds) (e : MemfdEvent) : Except Trap Memfds → Prop
  | .error t => t = .integerOverflow
  | .ok s' => MemfdOk s' ∧ (Undisturbed (.ok s) e → Backed s → Backed s')

section Steps

variable {s : Memfds} {e : MemfdEvent} {debug : Bool}

theorem MemfdOk.stay (h : MemfdOk s) : MemfdStep s e (.ok s) := ⟨h, fun _ hb => hb⟩

theorem frames_perm {i : Nat} {m : MemfdState} (hm : s.memfds[i]? = some m) :
    s.frames.Perm (m.frames ++ (s.memfds.eraseIdx i).flatMap MemfdState.frames) := by
  obtain ⟨hi, rfl⟩ := List.getElem?_eq_some_iff.mp hm
  exact (getElem_cons_eraseIdx_perm hi).symm.flatMap_right _

theorem frames_set_perm {i : Nat} {m : MemfdState} (hm : s.memfds[i]? = some m) (m' : MemfdState) :
    ((s.memfds.set i m').flatMap MemfdState.frames).Perm
      (m'.frames ++ (s.memfds.eraseIdx i).flatMap MemfdState.frames) := by
  obtain ⟨hi, -⟩ := List.getElem?_eq_some_iff.mp hm
  exact (set_perm_cons_eraseIdx hi m').flatMap_right _

/-- An operation on one memfd. -/
theorem MemfdOk.onMemfd (h : MemfdOk s) {i : Nat}
    {f : Pmm → MemfdState → Except Trap (Pmm × MemfdState)}
    (hf : ∀ m l, m.Wf → 0 < m.refCount → Owns s.pmm (m.frames ++ l) →
      Serves (GivesBack s.pmm m i e) l m (f s.pmm m)) :
    MemfdStep s e (s.onMemfd i f) := by
  unfold Memfds.onMemfd
  cases hm : s.memfds[i]? with
  | none => exact h.stay
  | some m =>
    by_cases hl : m.refCount = 0
    · simp only [if_pos hl]
      exact h.stay
    simp only [if_neg hl]
    have hmem : m ∈ s.memfds := mem_of_getElem? hm
    have hown : Owns s.pmm (m.frames ++
        ((s.memfds.eraseIdx i).flatMap MemfdState.frames ++ s.others)) := by
      rw [← append_assoc]
      exact h.owns.perm ((frames_perm hm).append_right _)
    have hserve := hf m _ (h.wf m hmem) (Nat.pos_of_ne_zero hl) hown
    cases hr : f s.pmm m with
    | error t =>
      rw [hr] at hserve
      exact hserve
    | ok r =>
      obtain ⟨pmm, m'⟩ := r
      rw [hr] at hserve
      obtain ⟨hok, hown', hw', hframes⟩ := hserve
      rw [← append_assoc] at hown'
      refine ⟨⟨hok, hown'.perm ((frames_set_perm hm m').append_right _).symm, ?_, h.device⟩, ?_⟩
      · intro w hw
        rcases mem_or_eq_of_mem_set hw with hw | rfl
        · exact h.wf w hw
        · exact hw'
      intro hu hb p hp
      refine (frames_set_perm hm m').mem_iff.mpr (mem_append.mpr ?_)
      rcases mem_append.mp ((frames_perm hm).mem_iff.mp (hb p hp)) with hmine | hrest
      · rcases hframes with e | hgive
        · exact .inl (e ▸ hmine)
        · exact absurd hp (hu s i m rfl hm (Nat.pos_of_ne_zero hl) hgive p hmine)
      · exact .inr hrest

/-- A change to one process. -/
theorem MemfdOk.setProc (h : MemfdOk s) {proc : Nat} {p : Process} (hv : AllDevice p.vmas)
    (hpt : ∀ k f, p.pt k = some f → (s.procs proc).pt k = some f ∨ f ∈ s.frames) :
    MemfdStep s e (.ok { s with procs := update s.procs proc p }) := by
  refine ⟨⟨h.pmm, h.owns, h.wf, fun q => ?_⟩, fun _ hb f hf => ?_⟩
  · by_cases hq : q = proc
    · subst hq
      simp only [update_self]
      exact hv
    · simp only [update_of_ne hq]
      exact h.device q
  obtain ⟨q, k, hk⟩ := hf
  by_cases hq : q = proc
  · subst hq
    simp only [update_self] at hk
    rcases hpt k f hk with hk | hf
    · exact hb f ⟨q, k, hk⟩
    · exact hf
  · simp only [update_of_ne hq] at hk
    exact hb f ⟨q, k, hk⟩

theorem MemfdOk.otherAlloc (h : MemfdOk s) : MemfdStep s e (s.handle debug .otherAlloc) := by
  obtain ⟨pmm, r, hr, hok, hnone, hsome⟩ := allocPage_spec h.pmm
  unfold Memfds.handle
  simp only [hr, ok_bind]
  cases r with
  | none =>
    obtain ⟨-, hrefs, htotal⟩ := hnone rfl
    refine ⟨⟨hok, ⟨h.owns.nodup, fun p hp => ?_⟩, h.wf, h.device⟩, fun _ hb => hb⟩
    show p < pmm.totalPages ∧ owners pmm.refcounts p = 1
    rw [htotal, hrefs]
    exact h.owns.held p hp
  | some a =>
    obtain ⟨p, rfl, -, htake⟩ := hsome a rfl
    refine ⟨⟨hok, ?_, h.wf, h.device⟩, fun _ hb => hb⟩
    show Owns pmm (s.frames ++ (p * PAGE_SIZE / PAGE_SIZE :: s.others))
    rw [Nat.mul_div_cancel p (by decide)]
    have hperm : ([p] ++ (s.frames ++ s.others)).Perm (s.frames ++ p :: s.others) := by
      rw [singleton_append]
      exact perm_middle.symm
    exact (h.owns.take htake (nodup_singleton p)).perm hperm

theorem MemfdOk.otherFree (h : MemfdOk s) (frame : Nat) :
    MemfdStep s e (s.handle debug (.otherFree frame)) := by
  unfold Memfds.handle
  by_cases hf : frame ∈ s.others
  · have hperm : (s.frames ++ s.others).Perm (frame :: (s.frames ++ s.others.erase frame)) :=
      ((perm_cons_erase hf).append_left s.frames).trans perm_middle
    obtain ⟨pmm, hpmm, hok, -, hown, -⟩ := (h.owns.perm hperm).free debug h.pmm
    simp only [if_pos hf, hpmm, ok_bind]
    exact ⟨⟨hok, hown, h.wf, h.device⟩, fun _ hb => hb⟩
  · simp only [if_neg hf]
    exact h.stay

/-- **One step** keeps the books, and an undisturbed one keeps every mapped frame in a buffer. -/
theorem MemfdOk.handle (h : MemfdOk s) (e : MemfdEvent) : MemfdStep s e (s.handle debug e) := by
  cases e with
  | create =>
    have hframes : (s.memfds ++ [({} : MemfdState)]).flatMap MemfdState.frames = s.frames := by
      rw [flatMap_append]
      exact append_nil _
    refine ⟨⟨h.pmm, ?_, ?_, h.device⟩, fun _ hb p hp => ?_⟩
    · show Owns s.pmm ((s.memfds ++ [({} : MemfdState)]).flatMap MemfdState.frames ++ s.others)
      rw [hframes]
      exact h.owns
    · intro m hm
      rcases mem_append.mp hm with hm | hm
      · exact h.wf m hm
      · rw [mem_singleton.mp hm]
        exact ⟨rfl, rfl, fun _ => ⟨rfl, rfl⟩⟩
    · show p ∈ (s.memfds ++ [({} : MemfdState)]).flatMap MemfdState.frames
      rw [hframes]
      exact hb p hp
  | seek i pos =>
    rw [Memfds.handle]
    refine h.onMemfd fun m l hw hl ho => ?_
    have e : ({ m with position := pos } : MemfdState).frames = m.frames :=
      frames_congr hl hl rfl rfl
    exact ⟨h.pmm, by rw [e]; exact ho, ⟨hw.physAddr, hw.capacity, hw.empty⟩, .inl e⟩
  | write i len =>
    rw [Memfds.handle]
    refine h.onMemfd fun m l hw hl ho => ?_
    rw [GivesBack, eq_self_iff_true, true_and]
    exact memfdWrite_spec h.pmm hw hl ho len
  | truncate i length =>
    rw [Memfds.handle]
    refine h.onMemfd fun m l hw hl ho => ?_
    rw [GivesBack, eq_self_iff_true, true_and]
    exact memfdTruncate_spec h.pmm hw hl ho length
  | close i =>
    rw [Memfds.handle]
    refine h.onMemfd fun m l hw hl ho => ?_
    rw [GivesBack, eq_self_iff_true, true_and]
    exact unref_spec h.pmm hw hl ho
  | mmap env i proc len prot =>
    rw [Memfds.handle, Memfds.mmap]
    cases hm : s.memfds[i]? with
    | none => exact h.stay
    | some m =>
      by_cases hl : m.refCount = 0
      · simp only [if_pos hl]
        exact h.stay
      simp only [if_neg hl]
      have hmem := mem_of_getElem? hm
      obtain ⟨hv, hpt⟩ :=
        sysMmap_spec (h.wf m hmem) (Nat.pos_of_ne_zero hl) (h.device proc) env len prot
      exact h.setProc hv fun k f hk =>
        (hpt k f hk).imp_right fun hf => mem_flatMap.mpr ⟨m, hmem, hf⟩
  | munmap oom proc addr len =>
    obtain ⟨p, hp, hsub, hv⟩ := munmap_spec debug oom s.pmm (h.device proc) addr len
    rw [Memfds.handle]
    simp only [hp, ok_bind]
    exact h.setProc hv fun k f hk => .inl (hsub k f hk)
  | otherAlloc => exact h.otherAlloc
  | otherFree frame => exact h.otherFree frame

end Steps

theorem memfdOk_start {debug : Bool} {s : Memfds} (h : (memfdMachine debug).start (.ok s)) :
    MemfdOk s ∧ Backed s := by
  obtain ⟨memmap, pmm, limit, hmap, hinit, e⟩ := h
  cases e
  refine ⟨⟨init_spec hmap hinit, ⟨nodup_nil, fun p hp => (nomatch hp)⟩,
    fun m hm => (nomatch hm), fun proc v hv => (nomatch hv)⟩, fun p hp => ?_⟩
  obtain ⟨proc, v, hv⟩ := hp
  cases hv

def MemfdRun : Except Trap Memfds → Prop
  | .error t => t = .integerOverflow
  | .ok s => MemfdOk s

/-- **In every run** the allocator's books and the owners agree, and no step traps but on the
    size of a file at the end of the address space. -/
theorem memfdBooks {debug : Bool} {r : Except Trap Memfds} (h : (memfdMachine debug).Reachable r) :
    MemfdRun r := by
  refine h.invariant (fun r hr => ?_) (fun r e _ hr _ => ?_)
  · obtain ⟨memmap, pmm, limit, -, -, rfl⟩ := id hr
    exact (memfdOk_start hr).1
  cases r with
  | error t => exact hr
  | ok s =>
    have hstep : MemfdStep s e (s.handle debug e) := MemfdOk.handle hr e
    show MemfdRun (s.handle debug e)
    cases hs : s.handle debug e with
    | error t =>
      rw [hs] at hstep
      exact hstep
    | ok s' =>
      rw [hs] at hstep
      exact hstep.1

/-- **No frame is freed while it is mapped**, in any run in which a memfd replaces or frees its
    buffer only while no process maps it: every mapped frame has a count, and nothing else owns
    it. -/
theorem memfdSafety {debug : Bool} {s : Memfds}
    (h : (memfdMachine debug).Reach Undisturbed (.ok s)) {p : Nat} (hp : s.Mapped p) :
    0 < s.pmm.refs p ∧ p ∉ s.others := by
  have hok : MemfdOk s := memfdBooks h.reachable
  have hbacked : ∀ t, (.ok s : Except Trap Memfds) = .ok t → Backed t := by
    refine h.invariant (I := fun r => ∀ t, r = .ok t → Backed t) (fun r hr t e => ?_)
      (fun r e hreach hr hu t ht => ?_)
    · subst e
      exact (memfdOk_start hr).2
    cases r with
    | error _ => cases ht
    | ok s₀ =>
      have hstep : MemfdStep s₀ e (s₀.handle debug e) :=
        MemfdOk.handle (memfdBooks hreach.reachable) e
      change s₀.handle debug e = .ok t at ht
      rw [ht] at hstep
      exact hstep.2 hu (hr s₀ rfl)
  have hmem := hbacked s rfl p hp
  have hcount := (hok.owns.held p (mem_append_left _ hmem)).2
  refine ⟨by omega, fun hother => ?_⟩
  exact (nodup_append.mp hok.owns.nodup).2.2 p hmem p hother rfl

/-! ## 5. Runs on a small machine -/

/-- The machine of `smallMemmap`, with a limit for the processes. -/
def smallStart : Except Trap Memfds :=
  .ok { pmm := smallPmm, procs := fun _ => { rlimitAs := 2 ^ 30 } }

theorem smallStart_start (debug : Bool) : (memfdMachine debug).start smallStart :=
  ⟨smallMemmap, smallPmm, fun _ => 2 ^ 30, smallMemmap_ok, smallMemmap_init, rfl⟩

/-- One page is written and mapped. -/
def mapOne : List MemfdEvent := [.create, .write 0 10, .mmap ⟨some 0x10000, none, true⟩ 0 7 1 3]

/-- The count of the frame that process 7 has at page 16. -/
def countAt16 (r : Except Trap Memfds) : Option (Nat × Nat) :=
  match r with
  | .ok s => ((s.procs 7).pt 16).map fun p => (p, s.pmm.refs p)
  | .error _ => none

theorem mapped_of_countAt16 {r : Except Trap Memfds} {p n : Nat} (h : countAt16 r = some (p, n)) :
    ∃ s, r = .ok s ∧ s.Mapped p ∧ s.pmm.refs p = n := by
  unfold countAt16 at h
  cases r with
  | error t => cases h
  | ok s =>
    obtain ⟨q, hq, e⟩ := Option.map_eq_some_iff.mp h
    obtain ⟨rfl, rfl⟩ := Prod.mk.inj e
    exact ⟨s, rfl, ⟨7, 16, hq⟩, rfl⟩

theorem freed_of_countAt16 {l : List MemfdEvent}
    (h : countAt16 ((memfdMachine true).exec smallStart l) = some (1, 0)) :
    ∃ s p, (memfdMachine true).Reachable (.ok s) ∧ s.Mapped p ∧ s.pmm.refs p = 0 := by
  obtain ⟨s, hs, hmapped, hcount⟩ := mapped_of_countAt16 h
  refine ⟨s, 1, ?_, hmapped, hcount⟩
  rw [← hs]
  exact Machine.Reachable.exec (.start (smallStart_start true)) _

/-- **Closing the descriptor frees the frame under the mapping.** -/
theorem memfdSafety_refuted :
    ∃ s p, (memfdMachine true).Reachable (.ok s) ∧ s.Mapped p ∧ s.pmm.refs p = 0 :=
  freed_of_countAt16 (l := mapOne ++ [.close 0]) (by decide +kernel)

theorem memfdSafety_mapOne : ∃ s : Memfds, s.Mapped 1 ∧ 0 < s.pmm.refs 1 ∧ 1 ∉ s.others := by
  have hrun : countAt16 ((memfdMachine true).exec smallStart mapOne) = some (1, 1) := by
    decide +kernel
  obtain ⟨s, hs, hmapped, -⟩ := mapped_of_countAt16 hrun
  have halong : (memfdMachine true).Along Undisturbed smallStart mapOne := by
    refine ⟨fun _ _ _ _ _ _ h => h.elim, ?_, fun _ _ _ _ _ _ h => h.elim, trivial⟩
    -- the memfd that is written has no buffer yet
    rintro _ i m ⟨⟩ hm - ⟨rfl, -⟩ p hp
    cases hm
    cases hp
  have hreach := Machine.Reach.exec (.start (smallStart_start true)) halong
  rw [hs] at hreach
  exact ⟨s, hmapped, memfdSafety hreach hmapped⟩

end Zigk.Mm
