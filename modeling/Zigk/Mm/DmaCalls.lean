/-
  Subject:   EVERY DMA FRAME IS RETURNED ONCE, AND NO DEVICE REACHES IT THEN.

  * `sound_alloc_dma`, `sound_alloc_iommu_dma`, `sound_free_dma`, `sound_free_iommu_dma`,
    `sound_munmap` -- the calls, one by one;
  * `dmaOwned` -- **in runs of such calls the frames and the accounts are right**;
    `dmaOwned_refuted`.
-/
import Zigk.Mm.DmaInvariant

namespace Zigk.Mm.Dma

open Areas List Option DeviceBdf

variable {s t : DmaProcess} {v w : Area} {a n virt phys : Nat}

variable {r : Except Errno Unit} {debug granted : Bool}

namespace DmaProcess

/-! ## 1. The calls that allocate -/

/-- **Where the buffer is placed, the result has to be written**: the handler of that failure
    returns the frames, and so does the `errdefer`. -/
theorem sound_alloc_dma {ans : Answers} (h : Sound s)
    (hk : ans.access = true → n ≠ 0 → n ≤ MAX_DMA_PAGES_PER_ALLOC →
      s.dma_allocated_pages + n ≤ s.getDmaCapabilityLimit →
      ∀ virt phys, s.Places n ans virt phys → ans.copied = true)
    (hm : s.sys_alloc_dma n ans = .ok (t, r)) : Sound t := by
  unfold sys_alloc_dma at hm
  split at hm
  · cases hm
    exact h
  split at hm
  · cases hm
    exact h
  split at hm
  · cases hm
    exact h
  rename_i hmax hzero haccess
  dsimp only at hm
  split at hm
  · cases hm
  split at hm
  · cases hm
    exact h
  rename_i hwrap hlimit
  have hcore := h.core.counted (s.dma_allocated_pages + n) s.iommu_allocated_bytes
  cases hp : { s with dma_allocated_pages := s.dma_allocated_pages + n }.placeBuffer n .dma ans with
  | mk t₁ r₁ =>
    rw [hp] at hm
    rcases placeBuffer_cases hcore hp with ⟨e, fs, rfl, hg, ha⟩ | ⟨virt, phys, rfl, hpl, rfl⟩
    · cases hm
      exact h.unreserved_pages (Nat.lt_of_not_le hwrap) hg ha
    have hcopied := hk (by simpa using haccess) hzero (Nat.le_of_not_lt hmax)
      (Nat.le_of_not_lt hlimit) virt phys hpl.counted
    dsimp only at hm
    rw [if_pos hcopied] at hm
    cases hm
    refine ⟨hcore.placed hpl hzero rfl, ?_, ?_, ?_, h.accounts.bytesLimit, ?_⟩
    · change (s.dma_allocated_pages + n) * PAGE_SIZE = madeBytes .dma (insertVma _ s.vmas)
      rw [bytes_own, ← h.accounts.pages, Nat.add_mul, Nat.add_comm]
    · change s.iommu_allocated_bytes = madeBytes .iommu (insertVma _ s.vmas)
      rw [bytes_other (by decide), h.accounts.bytes]
    · exact Nat.le_of_not_lt hlimit
    · exact ⟨Nat.lt_of_not_le hwrap, h.accounts.narrow.2⟩

/-- What has to hold of a call that gets as far as the IOMMU: if it goes on, the result has to be
    written; if it cannot, nothing may be mapped. -/
def Finishes (s : DmaProcess) (page_count : Nat) (cap : IommuDmaCapability) (ans : Answers) : Prop :=
  if s.grants page_count ans = true ∨ cap.iommu_required = false then ans.copied = true
  else s.isAvailable = true → ans.iova.isSome = true → ans.mappable = 0

theorem sound_alloc_iommu_dma {device_bdf : Nat} {ans : Answers} (h : Sound s)
    (hk : ans.access = true → n ≠ 0 → n ≤ MAX_DMA_PAGES_PER_ALLOC →
      ∀ cap, s.getIommuDmaCapability (fromRaw device_bdf) = some cap →
      s.iommu_allocated_bytes + n * PAGE_SIZE ≤ cap.max_size →
      ∀ virt phys, s.Places n ans virt phys → s.Finishes n cap ans)
    (hm : s.sys_alloc_iommu_dma n device_bdf ans = .ok (t, r)) : Sound t := by
  unfold sys_alloc_iommu_dma at hm
  dsimp only at hm
  split at hm
  · cases hm
    exact h
  split at hm
  · cases hm
    exact h
  split at hm
  · cases hm
    exact h
  rename_i hmax hzero haccess
  cases hc : s.getIommuDmaCapability (fromRaw device_bdf) with
  | none =>
    rw [hc] at hm
    cases hm
    exact h
  | some cap =>
    rw [hc] at hm
    dsimp only at hm
    split at hm
    · cases hm
    split at hm
    · cases hm
      exact h
    rename_i hwrap hlimit
    have hcore := h.core.counted s.dma_allocated_pages (s.iommu_allocated_bytes + n * PAGE_SIZE)
    cases hp : { s with
        iommu_allocated_bytes := s.iommu_allocated_bytes + n * PAGE_SIZE }.placeBuffer n
        .iommu ans with
    | mk t₁ r₁ =>
      rw [hp] at hm
      rcases placeBuffer_cases hcore hp with
        ⟨e, fs, rfl, hg, ha⟩ | ⟨virt, phys, rfl, hpl, rfl⟩
      · cases hm
        exact h.unreserved_bytes (Nat.lt_of_not_le hwrap) hg ha
      have hfin := hk (by simpa using haccess) hzero (Nat.le_of_not_lt hmax) cap hc
        (Nat.le_of_not_lt hlimit) virt phys hpl.counted
      have hsome := deviceAddr_isSome (s.reserved n virt phys)
        (fromRaw device_bdf) phys n ans
      change (if (((s.reserved n virt phys).deviceAddr _ phys n ans).2.isNone &&
        cap.iommu_required) = true then pure (((((s.reserved n virt phys).deviceAddr _
          phys n ans).1.withdraw virt (n * PAGE_SIZE) .iommu).freePages phys n).subBytes
            (n * PAGE_SIZE), _)
        else if ans.copied = true then
          pure (((s.reserved n virt phys).deviceAddr _ phys n ans).1, _) else _) = _ at hm
      unfold Finishes at hfin
      split at hm
      · rename_i hrequired
        rw [Bool.and_eq_true, isNone_iff_eq_none] at hrequired
        rw [hrequired.1] at hsome
        have hnot : ¬ (s.grants n ans = true ∨ cap.iommu_required = false) := by
          rintro (hg | hr)
          · exact Bool.false_ne_true (hsome.trans hg)
          · rw [hrequired.2] at hr
            cases hr
        rw [if_neg hnot] at hfin
        cases hm
        exact h.unbuffered (Nat.lt_of_not_le hwrap) hpl.counted hfin
      rename_i hgo
      have hgoes : s.grants n ans = true ∨ cap.iommu_required = false := by
        by_contra hnot
        rw [not_or, Bool.not_eq_true, Bool.not_eq_false] at hnot
        refine hgo ?_
        rw [hnot.2, Bool.and_true, isNone_iff_eq_none, ← not_isSome_iff_eq_none, hsome]
        exact fun hg => Bool.false_ne_true (hnot.1.symm.trans hg)
      rw [if_pos hgoes] at hfin
      rw [if_pos hfin] at hm
      cases hm
      exact h.buffered hzero (findSome?_cap hc) (Nat.lt_of_not_le hwrap)
        (Nat.le_of_not_lt hlimit) hpl.counted

/-! ## 2. The calls that free -/

theorem sound_free_dma {size : Nat} (h : Sound s)
    (hk : ∀ v, s.findDmaVma virt size = some v → v.made = .dma)
    (hm : s.sys_free_dma debug virt size granted = .ok (t, r)) : Sound t := by
  unfold sys_free_dma at hm
  dsimp only at hm
  split at hm
  · cases hm
    exact h
  split at hm
  · cases hm
  split at hm
  · cases hm
    exact h
  rename_i hsome
  obtain ⟨v, hf⟩ := ne_none_iff_exists'.1 (by simpa using hsome)
  have hmade := hk v hf
  have hdma : isDma v = true := by
    unfold isDma
    rw [hmade]
    rfl
  obtain ⟨⟨t₁, r₁⟩, hcall, hm⟩ := (Except.bind_ok_iff _ _).1 hm
  obtain ⟨hfind, -, hstart, hstop⟩ := findDmaVma_some hf
  rcases munmapLocked_exact h.core hf hdma hcall with ⟨rfl, e, rfl⟩ | ⟨rfl, rfl⟩
  · cases hm
    exact h
  dsimp only at hm
  split at hm
  · cases hm
  have hsize : size = v.size := by
    unfold Area.size
    omega
  rw [← hstop, ← hstart] at hfind
  have ht : (s.freed v).subPages ((size + PAGE_SIZE - 1) / PAGE_SIZE) = t :=
    congrArg Prod.fst (Except.ok.inj hm)
  rw [← ht, hsize]
  exact h.freed_pages hfind hmade

/-- What has to hold of a call that frees: it is of an IOMMU buffer, and it ends every mapping of its
    frames. -/
def Releases (s : DmaProcess) (virt_addr size device_bdf dma_addr : Nat) (invalidated : Bool) :
    Prop :=
  ∀ v, s.findDmaVma virt_addr size = some v → v.made = .iommu ∧
    ∀ m ∈ s.mapped ++ s.stale, m.frame ∈ s.frames v →
      s.isAvailable = true ∧ invalidated = true ∧ m.bdf = fromRaw device_bdf ∧
        (m ∈ s.mapped → m.within (fromRaw device_bdf) dma_addr
          ((size + PAGE_SIZE - 1) / PAGE_SIZE) = true)

instance Releases.decidable {virt_addr size device_bdf dma_addr : Nat} {invalidated : Bool} :
    Decidable (s.Releases virt_addr size device_bdf dma_addr invalidated) :=
  inferInstanceAs (Decidable (∀ v ∈ s.findDmaVma virt_addr size, v.made = .iommu ∧
    ∀ m ∈ s.mapped ++ s.stale, m.frame ∈ s.frames v →
      s.isAvailable = true ∧ invalidated = true ∧ m.bdf = fromRaw device_bdf ∧
        (m ∈ s.mapped → m.within (fromRaw device_bdf) dma_addr
          ((size + PAGE_SIZE - 1) / PAGE_SIZE) = true)))

/-- What the call does to the mappings. -/
def unmapDevice (s : DmaProcess) (bdf : DeviceBdf) (dma_addr count : Nat) (invalidated : Bool) :
    DmaProcess :=
  if s.isAvailable then s.freeDmaBuffer bdf dma_addr count invalidated else s

theorem unmapDevice_maps (s : DmaProcess) (bdf : DeviceBdf) (dma_addr count : Nat)
    (invalidated : Bool) : OnlyMaps s (s.unmapDevice bdf dma_addr count invalidated) := by
  unfold unmapDevice freeDmaBuffer
  split
  · dsimp only
    split
    · exact ⟨rfl, rfl, rfl, rfl, rfl, rfl, rfl, rfl⟩
    · exact ⟨rfl, rfl, rfl, rfl, rfl, rfl, rfl, rfl⟩
  · exact ⟨rfl, rfl, rfl, rfl, rfl, rfl, rfl, rfl⟩

theorem mem_unmapDevice {bdf : DeviceBdf} {dma_addr count : Nat} {invalidated : Bool} {k : Mapping}
    (h : k ∈ (s.unmapDevice bdf dma_addr count invalidated).mapped ++
      (s.unmapDevice bdf dma_addr count invalidated).stale) :
    k ∈ s.mapped ++ s.stale ∧ ¬ (s.isAvailable = true ∧ invalidated = true ∧ k.bdf = bdf ∧
      (k ∈ s.mapped → k.within bdf dma_addr count = true)) := by
  unfold unmapDevice freeDmaBuffer at h
  split at h
  · dsimp only at h
    split at h
    · refine ⟨mem_unmapIova (mem_invalidateIotlb h), fun ⟨_, _, hbdf, hin⟩ => ?_⟩
      unfold invalidateIotlb unmapIova at h
      simp only [mem_append, mem_filter, Bool.not_eq_true', decide_eq_true_eq] at h
      rcases h with ⟨hk, hout⟩ | ⟨_, hother⟩
      · rw [hin hk] at hout
        cases hout
      · exact hother hbdf
    · rename_i hinv
      exact ⟨mem_unmapIova h, fun ⟨_, hyes, _⟩ => hinv hyes⟩
  · rename_i havail
    exact ⟨h, fun ⟨hyes, _⟩ => havail hyes⟩

theorem sound_free_iommu_dma {invalidated : Bool} {size device_bdf dma_addr : Nat} (h : Sound s)
    (hk : (s.getIommuDmaCapability (fromRaw device_bdf)).isSome = true →
      s.Releases virt size device_bdf dma_addr invalidated)
    (hm : s.sys_free_iommu_dma debug virt size device_bdf dma_addr granted invalidated =
      .ok (t, r)) : Sound t := by
  unfold sys_free_iommu_dma at hm
  dsimp only at hm
  split at hm
  · cases hm
    exact h
  split at hm
  · cases hm
    exact h
  rename_i hcap
  replace hk := hk (isSome_iff_ne_none.2 (by simpa using hcap))
  split at hm
  · cases hm
  split at hm
  · cases hm
    exact h
  rename_i hsome
  obtain ⟨v, hf⟩ := ne_none_iff_exists'.1 (by simpa using hsome)
  obtain ⟨hmade, hends⟩ := hk v hf
  have hdma : isDma v = true := by
    unfold isDma
    rw [hmade]
    rfl
  obtain ⟨hfind, -, hstart, hstop⟩ := findDmaVma_some hf
  split at hm
  · cases hm
  obtain ⟨⟨t₁, r₁⟩, hcall, hm⟩ := (Except.bind_ok_iff _ _).1 hm
  change (s.unmapDevice _ dma_addr ((size + PAGE_SIZE - 1) / PAGE_SIZE)
    invalidated).munmapLocked virt size granted = _ at hcall
  have hmaps := unmapDevice_maps s (fromRaw device_bdf) dma_addr
    ((size + PAGE_SIZE - 1) / PAGE_SIZE) invalidated
  have hmem := fun k (hk : k ∈ (s.unmapDevice (fromRaw device_bdf) dma_addr
    ((size + PAGE_SIZE - 1) / PAGE_SIZE) invalidated).mapped ++ _) => mem_unmapDevice hk
  generalize s.unmapDevice (fromRaw device_bdf) dma_addr
    ((size + PAGE_SIZE - 1) / PAGE_SIZE) invalidated = u at hcall hmaps hmem
  have hu : Sound u := ⟨h.core.remapped hmaps fun k hk => .inl (hmem k hk).1,
    h.accounts.same (by rw [hmaps.vmas]) hmaps.accounts⟩
  have hfu : u.findDmaVma virt size = some v := by
    unfold findDmaVma at hf ⊢
    rw [hmaps.vmas]
    exact hf
  rcases munmapLocked_exact hu.core hfu hdma hcall with ⟨rfl, e, rfl⟩ | ⟨rfl, rfl⟩
  · cases hm
    exact hu
  dsimp only at hm
  split at hm
  · cases hm
  have hsize : size = v.size := by
    unfold Area.size
    omega
  rw [← hstop, ← hstart, ← hmaps.vmas] at hfind
  have ht : (u.freed v).subBytes size = t := congrArg Prod.fst (Except.ok.inj hm)
  rw [← ht, hsize]
  refine hu.freed_bytes hfind hmade fun k hk hframe => ?_
  obtain ⟨hold, hnot⟩ := hmem k hk
  have hframes : u.frames v = s.frames v := frames_congr fun _ _ => by
    rw [hmaps.translate]
  exact hnot (hends k hold (hframes ▸ hframe))

/-! ## 3. `munmap` -/

/-- What is unmapped lies in the range, and is of a VMA that meets it. -/
theorem mem_unmapped {b : Nat} {l : List Area} {p : Area × Bool} (h : p ∈ unmapped granted a b l) :
    (∃ v ∈ l, v.overlaps a b = true ∧ p.1.made = v.made) ∧
      ∀ x, p.1.contains x = true → a ≤ x ∧ x < b := by
  induction l with
  | nil => cases h
  | cons v l ih =>
    have hrest : p ∈ unmapped granted a b l →
        (∃ w ∈ v :: l, w.overlaps a b = true ∧ p.1.made = w.made) ∧
          ∀ x, p.1.contains x = true → a ≤ x ∧ x < b := fun hp =>
      let ⟨⟨w, hw, hover⟩, hin⟩ := ih hp
      ⟨⟨w, mem_cons_of_mem _ hw, hover⟩, hin⟩
    unfold unmapped at h
    split at h
    · rename_i hover
      split at h
      · rename_i hwhole
        rcases mem_cons.1 h with rfl | h
        · refine ⟨⟨v, mem_cons_self, hover, rfl⟩, fun x hx => ?_⟩
          simp only [Area.contains, Bool.and_eq_true, decide_eq_true_eq] at hx
          omega
        · exact hrest h
      split at h
      · rcases mem_cons.1 h with rfl | h
        · refine ⟨⟨v, mem_cons_self, hover, rfl⟩, fun x hx => ?_⟩
          simp only [Area.contains, Bool.and_eq_true, decide_eq_true_eq] at hx
          omega
        · exact hrest h
      · cases h
    · exact hrest h

/-- A hole that is refused unmaps nothing. -/
theorem unmapped_split {b : Nat} {l : List Area} (h : Ordered l) (hab : a < b) (hv : v ∈ l)
    (hlt : v.start < a) (hgt : b < v.stop) : unmapped false a b l = [] := by
  induction l with
  | nil => rfl
  | cons c l ih =>
    unfold unmapped
    rcases mem_cons.1 hv with rfl | hv
    · have ho : v.overlaps a b = true := by
        simp only [Area.overlaps, Bool.and_eq_true, decide_eq_true_eq]
        omega
      have hno : ¬ (a ≤ v.start ∨ b ≥ v.stop ∨ false = true) := by
        rw [not_or, not_or]
        exact ⟨by omega, by omega, Bool.false_ne_true⟩
      rw [if_pos ho, if_neg (by omega), if_neg hno]
    · have hc := h.head hv
      have ho : ¬ c.overlaps a b = true := by
        simp only [Area.overlaps, Bool.and_eq_true, decide_eq_true_eq]
        omega
      rw [if_neg ho]
      exact ih h.tail hv

/-- **A range that meets no buffer**, or is refused. -/
def Spares (s : DmaProcess) (addr len : Nat) (granted : Bool) : Prop :=
  (granted = false ∧ ∃ v ∈ s.vmas, v.start < addr ∧ addr + len < v.stop) ∨
    ∀ v ∈ s.vmas, isDma v = true → v.overlaps addr (addr + len) = false

theorem gaveUp_munmap {len : Nat} (h : Core s) (hpos : 0 < len) (hs : s.Spares a len granted) :
    GaveUp s { (s.clear (unmapped granted a (a + len) s.vmas)).giveBack
        (s.released (unmapped granted a (a + len) s.vmas)) with
      vmas := (unmapVmas granted a (a + len) s.vmas).1 } [] := by
  have hab : a < a + len := Nat.lt_add_of_pos_right hpos
  obtain ⟨hordered, -⟩ := unmapVmas_ordered granted h.ordered hab
  have hgone : s.released (unmapped granted a (a + len) s.vmas) = [] ∧
      (unmapVmas granted a (a + len) s.vmas).1.filter isDma = s.vmas.filter isDma ∧
      ∀ v ∈ s.vmas, isDma v = true → ∀ x ∈ pagesOf v,
        ¬ ((unmapped granted a (a + len) s.vmas).any fun p => p.1.contains x) = true := by
    rcases hs with ⟨rfl, v, hv, hlt, hgt⟩ | hs
    · have hsame := (unmapVmas_refused false h.ordered (unmapVmas_split h.ordered hab hv hlt hgt)).1
      rw [unmapped_split h.ordered hab hv hlt hgt, hsame]
      exact ⟨rfl, rfl, fun _ _ _ _ _ => Bool.false_ne_true⟩
    refine ⟨?_, unmapVmas_filter hs, fun v hv hdma x hx hany => ?_⟩
    · unfold released
      have hnone : ((unmapped granted a (a + len) s.vmas).filter fun p =>
          p.2 && p.1.flags &&& MAP_DEVICE = 0 && isDma p.1) = [] := by
        refine filter_eq_nil_iff.2 fun p hp hq => ?_
        obtain ⟨⟨v, hv, hover, hmade⟩, -⟩ := mem_unmapped hp
        have hdma : isDma p.1 = true := (Bool.and_eq_true ..).mp hq |>.2
        unfold isDma at hdma
        rw [hmade] at hdma
        rw [hs v hv hdma] at hover
        cases hover
      rw [hnone, flatMap_nil]
    · obtain ⟨p, hp, hcontains⟩ := any_eq_true.1 hany
      have hin := (mem_unmapped hp).2 x hcontains
      have hpage := mem_pagesOf hx
      have hover := hs v hv hdma
      simp only [Area.overlaps, Bool.and_eq_false_iff, decide_eq_false_iff_not] at hover
      omega
  obtain ⟨hreleased, hfilter, hpages⟩ := hgone
  rw [hreleased]
  exact ⟨hordered, hfilter, fun v hv hdma x hx => if_neg (hpages v hv hdma x hx),
    (append_nil _).symm, rfl, append_nil _, fun _ hk => hk⟩

theorem sound_munmap {len : Nat} (h : Sound s)
    (hk : isPageAligned a = true → len ≠ 0 → a ≤ maxInt - roundUp len →
      s.Spares a (roundUp len) granted)
    (hm : s.sys_munmap a len granted = .ok (t, r)) : Sound t := by
  unfold sys_munmap at hm
  obtain ⟨⟨t₁, r₁⟩, hcall, hm⟩ := (Except.bind_ok_iff _ _).1 hm
  have hsame : t₁ = t := by
    cases r₁ with
    | ok u =>
      cases hm
      rfl
    | error e =>
      cases hm
      rfl
  rw [← hsame]
  unfold munmapLocked at hcall
  split at hcall
  · cases hcall
    exact h
  rename_i haligned
  split at hcall
  · cases hcall
    exact h
  rename_i hlen
  replace hcall := alignForward_bind hcall
  split at hcall
  · cases hcall
    exact h
  rename_i hroom
  have hspares := hk (by simpa using haligned) hlen (Nat.le_of_not_lt hroom)
  cases hcall
  exact h.gaveUp (gaveUp_munmap h.core (roundUp_pos hlen) hspares) ⟨rfl, rfl, rfl⟩

/-! ## 4. Runs -/

/-- **What a call must be like.** -/
def Keeps (s : DmaProcess) : DmaCall → Prop
  | .allocDma page_count ans => ans.access = true → page_count ≠ 0 →
    page_count ≤ MAX_DMA_PAGES_PER_ALLOC →
    s.dma_allocated_pages + page_count ≤ s.getDmaCapabilityLimit →
    ∀ virt phys, s.Places page_count ans virt phys → ans.copied = true
  | .freeDma virt_addr size _ => ∀ v, s.findDmaVma virt_addr size = some v → v.made = .dma
  | .allocIommuDma page_count device_bdf ans => ans.access = true → page_count ≠ 0 →
    page_count ≤ MAX_DMA_PAGES_PER_ALLOC →
    ∀ cap, s.getIommuDmaCapability (fromRaw device_bdf) = some cap →
    s.iommu_allocated_bytes + page_count * PAGE_SIZE ≤ cap.max_size →
    ∀ virt phys, s.Places page_count ans virt phys → s.Finishes page_count cap ans
  | .freeIommuDma virt_addr size device_bdf dma_addr _ invalidated =>
    (s.getIommuDmaCapability (fromRaw device_bdf)).isSome = true →
    s.Releases virt_addr size device_bdf dma_addr invalidated
  | .munmap addr len granted => isPageAligned addr = true → len ≠ 0 →
    addr ≤ maxInt - roundUp len → s.Spares addr (roundUp len) granted

/-- **Every such call keeps the frames and the accounts.** -/
theorem sound_call {c : DmaCall} (h : Sound s)
    (hk : s.Keeps c) (hm : s.call debug c = .ok (t, r)) : Sound t := by
  cases c with
  | allocDma page_count ans => exact sound_alloc_dma h hk hm
  | freeDma virt_addr size granted => exact sound_free_dma h hk hm
  | allocIommuDma page_count device_bdf ans => exact sound_alloc_iommu_dma h hk hm
  | freeIommuDma virt_addr size device_bdf dma_addr granted invalidated =>
    exact sound_free_iommu_dma h hk hm
  | munmap addr len granted => exact sound_munmap h hk hm

theorem Fresh.sound (h : Fresh s) : Sound s := by
  have hfilter : s.vmas.filter isDma = [] :=
    filter_eq_nil_iff.2 fun v hv => Bool.eq_false_iff.1 (h.none v hv)
  have hframes : s.framesOf ofDma = [] := by
    change (s.vmas.filter isDma).flatMap s.frames = []
    rw [hfilter, flatMap_nil]
  have hbytes : ∀ m, ofDma m = true → madeBytes m s.vmas = 0 := fun m hm => by
    have hin : ∀ v : Area, v.made = m → isDma v = true := fun v hv => by
      unfold isDma
      rw [hv, hm]
    rw [← madeBytes_filter hin, hfilter]
    rfl
  refine ⟨⟨h.ordered, ?_, ?_, h.early, fun v hv hdma => ?_, fun m hm => ?_⟩,
    ⟨?_, ?_, ?_, .inl h.bytes, ?_⟩⟩
  · rw [hframes, h.returned, h.taken]
    exact .refl _
  · rw [hframes]
    exact nodup_nil
  · rw [h.none v hv] at hdma
    cases hdma
  · rw [h.mapped, h.stale] at hm
    cases hm
  · rw [h.pages, Nat.zero_mul, hbytes .dma rfl]
  · rw [h.bytes, hbytes .iommu rfl]
  · rw [h.pages]
    exact Nat.zero_le _
  · rw [h.pages, h.bytes]
    decide

/-- **Every frame that was obtained is returned once, or still behind a buffer; none was returned
    while a device reached it; and the accounts are what the buffers of each kind have, within the
    limits of the process.** -/
structure Owned (s : DmaProcess) : Prop where
  once : (s.returned ++ s.framesOf ofDma).Perm s.taken
  single : (s.framesOf ofDma).Nodup
  unreached : s.early = []
  pages : s.dma_allocated_pages * PAGE_SIZE = madeBytes .dma s.vmas
  bytes : s.iommu_allocated_bytes = madeBytes .iommu s.vmas
  pagesLimit : s.dma_allocated_pages ≤ s.getDmaCapabilityLimit
  bytesLimit : s.iommu_allocated_bytes = 0 ∨
    ∃ cap, .IommuDma cap ∈ s.capabilities ∧ s.iommu_allocated_bytes ≤ cap.max_size

theorem Sound.owned (h : Sound s) : Owned s :=
  ⟨h.core.once, h.core.single, h.core.unreached, h.accounts.pages, h.accounts.bytes,
    h.accounts.pagesLimit, h.accounts.bytesLimit⟩

end DmaProcess

/-- **DMA buffers of a process.** In every run whose calls are such. -/
theorem dmaOwned {debug : Bool} {r : Except Trap DmaProcess}
    (h : (dmaCalls debug).Reach (fun r c => ∀ s, r = .ok s → s.Keeps c) r) :
    ∀ s, r = .ok s → s.Owned := by
  suffices hsound : ∀ s, r = .ok s → s.Sound from fun s hs => (hsound s hs).owned
  refine h.invariant (I := fun r => ∀ s, r = .ok s → s.Sound) ?_ ?_
  · intro r ⟨s, hr, hfresh⟩ s' hs'
    cases hr.symm.trans hs'
    exact hfresh.sound
  intro r c _ hr hk s' hs'
  cases r with
  | error e => cases hs'
  | ok s =>
    change Prod.fst <$> s.call debug c = .ok s' at hs'
    cases hc : s.call debug c with
    | error e =>
      rw [hc] at hs'
      cases hs'
    | ok x =>
      rw [hc] at hs'
      cases hs'
      exact DmaProcess.sound_call (hr s rfl) (hk s rfl) hc

/-- What holds of the state, if there is one, by evaluation. -/
theorem holds_of_all {r : Except Trap DmaProcess} {P : DmaProcess → Prop} [DecidablePred P]
    (h : (r.toOption.all fun s => decide (P s)) = true) : ∀ s, r = .ok s → P s := by
  intro s hs
  rw [hs] at h
  exact of_decide_eq_true h

/-- A driver for the device 0:3.0. -/
def smallDriver : DmaProcess where
  vmas := []
  mmap_base := USER_MMAP_START
  translate := fun _ => none
  capabilities := [.DmaMemory 16, .IommuDma ⟨⟨0, 3, 0⟩, 16 * PAGE_SIZE, true⟩]
  isAvailable := true

theorem smallDriver_start (debug : Bool) : (dmaCalls debug).start (.ok smallDriver) :=
  ⟨smallDriver, rfl, ⟨.nil, nofun⟩, nofun, rfl, rfl, rfl, rfl, rfl, rfl, rfl⟩

/-- Everything goes well, with the frame at `phys`. -/
def allWell (phys : Nat) : Answers :=
  ⟨true, some phys, true, true, true, some 0x1_0000_0000, 1, true, true⟩

/-- A plain buffer and one behind the IOMMU; both are freed again. -/
def driverCalls : List DmaCall :=
  [.allocDma 1 (allWell 0x100000), .allocIommuDma 1 24 (allWell 0x200000),
    .freeIommuDma (USER_MMAP_START + PAGE_SIZE) PAGE_SIZE 24 0x1_0000_0000 true true,
    .freeDma USER_MMAP_START PAGE_SIZE true]

theorem dmaOwned_driver : ((dmaCalls true).exec (.ok smallDriver) driverCalls).toOption.map
      (fun s => (s.taken, s.returned)) = some ([0x100000, 0x200000], [0x200000, 0x100000]) ∧
    ∀ s, (dmaCalls true).exec (.ok smallDriver) driverCalls = .ok s → s.Owned := by
  refine ⟨by decide +kernel, dmaOwned (Machine.Reach.exec (.start (smallDriver_start true))
    ⟨fun _ _ _ _ _ _ _ _ _ => rfl, fun s hs _ _ _ cap _ _ _ _ _ => ?_, fun s hs _ => ?_,
      fun s hs v hv => ?_, trivial⟩)⟩
  · have hgrants := holds_of_all (P := fun s => s.grants 1 (allWell 0x200000) = true)
      (by decide +kernel) s hs
    exact (if_pos (.inl hgrants)).mpr rfl
  · exact holds_of_all (P := fun s => s.Releases (USER_MMAP_START + PAGE_SIZE) PAGE_SIZE 24
      0x1_0000_0000 true) (by decide +kernel) s hs
  · exact holds_of_all (P := fun s => ∀ v ∈ s.findDmaVma USER_MMAP_START PAGE_SIZE, v.made = .dma)
      (by decide +kernel) s hs v hv

/-- The pages are there, but the result cannot be written. -/
def uncopied : Answers := { allWell 0x100000 with copied := false }

/-- **Any process** -- no: the frame is returned twice. -/
theorem dmaOwned_refuted :
    ¬ ∀ r, (dmaCalls false).Reachable r → ∀ s, r = .ok s → s.Owned := by
  intro h
  have hrun := h _ (Machine.Reachable.exec (.start (smallDriver_start false)) [.allocDma 1 uncopied])
  have htwice : ((dmaCalls false).exec (.ok smallDriver) [.allocDma 1 uncopied]).toOption.map
      (fun s => (s.taken.length, s.returned.length)) = some (1, 2) := by decide +kernel
  cases he : (dmaCalls false).exec (.ok smallDriver) [.allocDma 1 uncopied] with
  | error e =>
    rw [he] at htwice
    cases htwice
  | ok s =>
    have hlength := (hrun s he).once.length_eq
    rw [he] at htwice
    obtain ⟨htaken, hreturned⟩ := Prod.mk.inj (Option.some.inj htwice)
    rw [length_append, htaken, hreturned] at hlength
    omega

end Zigk.Mm.Dma
