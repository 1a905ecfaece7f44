/-
  Subject:   HOW DMA BUFFERS COME AND GO: frames, device addresses and accounts.

  * `placeBuffer_cases`, `deviceAddr_maps`, `munmapLocked_exact` -- what the parts of the calls do;
  * `Sound.buffered`, `Sound.unbuffered`, `Sound.freed_pages`, `Sound.freed_bytes` -- how a buffer
    comes and goes.
-/
import Zigk.Mm.AddressSpaceInvariant
import Zigk.Mm.Dma

namespace Zigk.Mm.Areas

open List

variable {l : List Area} {v w : Area} {a b n : Nat} {granted : Bool}

/-! ## 1. The list, up to order -/

theorem insertVma_perm : (insertVma v l).Perm (v :: l) := by
  induction l with
  | nil => exact .refl _
  | cons c l ih =>
    unfold insertVma
    split
    · exact .refl _
    · exact (ih.cons c).trans (.swap v c l)

variable {p : Area → Bool}

theorem replaceFirst_perm (h : l.find? p = some v) :
    l.Perm (v :: replaceFirst p (fun _ => []) l) := by
  induction l with
  | nil => cases h
  | cons c l ih =>
    unfold replaceFirst
    by_cases hp : p c
    · rw [find?_cons_of_pos hp] at h
      cases h
      rw [if_pos hp]
      exact .refl _
    · rw [find?_cons_of_neg hp] at h
      rw [if_neg hp]
      exact ((ih h).cons c).trans (.swap v c _)

theorem insertVma_erase (h : v ∉ l) : (insertVma v l).erase v = l := by
  induction l with
  | nil =>
    unfold insertVma
    rw [erase_cons_head]
  | cons c l ih =>
    have hc : c ≠ v := fun e => h (e ▸ mem_cons_self)
    unfold insertVma
    split
    · rw [erase_cons_head]
    · rw [erase_cons_tail (by simpa using hc), ih fun hm => h (mem_cons_of_mem _ hm)]

/-- **The range of one VMA** takes that VMA away. -/
theorem unmapVmas_exact (h : Ordered l) (hf : findOverlappingVma a b l = some v)
    (hstart : v.start = a) (hstop : v.stop = b) :
    unmapVmas granted a b l = (replaceFirst (fun v => v.overlaps a b) (fun _ => []) l, true) := by
  induction l with
  | nil => cases hf
  | cons c l ih =>
    unfold unmapVmas replaceFirst
    unfold findOverlappingVma at hf
    by_cases ho : c.overlaps a b
    · rw [find?_cons_of_pos (p := fun v : Area => v.overlaps a b) ho] at hf
      cases hf
      -- the others lie behind it
      have hrest : ∀ w ∈ l, ¬ w.overlaps a b = true := fun w hw => by
        have := h.head hw
        simp only [Area.overlaps, Bool.and_eq_true, decide_eq_true_eq]
        omega
      have hsame : ∀ l : List Area, (∀ w ∈ l, ¬ w.overlaps a b = true) →
          unmapVmas granted a b l = (l, true) := fun l => by
        induction l with
        | nil => exact fun _ => rfl
        | cons u l ihl =>
          intro hno
          unfold unmapVmas
          rw [if_neg (hno u mem_cons_self),
            ihl fun w hw => hno w (mem_cons_of_mem _ hw)]
      rw [if_pos ho, if_pos ho, if_pos ⟨hstart.ge, hstop.le⟩, hsame l hrest]
      rfl
    · rw [find?_cons_of_neg (p := fun v : Area => v.overlaps a b) ho] at hf
      rw [if_neg ho, if_neg ho, ih h.tail hf]

/-- VMAs of some kind that are not in the range stay, if a piece of another is not of that kind. -/
theorem insertVma_filter (hv : p v = false) :
    (insertVma v l).filter p = l.filter p := by
  induction l with
  | nil =>
    unfold insertVma
    rw [filter_cons_of_neg (by simp [hv])]
  | cons c l ih =>
    unfold insertVma
    split
    · rw [filter_cons_of_neg (by simp [hv])]
    · rw [filter_cons, ih, filter_cons]

theorem unmapVmas_filter {q : Maker → Bool}
    (h : ∀ v ∈ l, q v.made = true → v.overlaps a b = false) :
    (unmapVmas granted a b l).1.filter (fun v => q v.made) = l.filter fun v => q v.made := by
  induction l with
  | nil => rfl
  | cons v l ih =>
    have hrest := ih fun w hw => h w (mem_cons_of_mem _ hw)
    unfold unmapVmas
    split
    · rename_i ho
      have hq : q v.made = false := by
        by_contra hne
        have := h v mem_cons_self (by simpa using hne)
        rw [ho] at this
        cases this
      have hdrop : ∀ (w : Area) (l' : List Area), w.made = v.made →
          (w :: l').filter (fun v => q v.made) = l'.filter fun v => q v.made := fun w l' hw =>
        filter_cons_of_neg (by simp [hw, hq])
      rw [hdrop v l rfl]
      split
      · exact hrest
      split
      · exact (hdrop { v with start := min b v.stop } _ rfl).trans hrest
      split
      · exact (hdrop { v with stop := max a v.start } _ rfl).trans hrest
      · split
        · exact (insertVma_filter hq).trans ((hdrop { v with stop := a } _ rfl).trans hrest)
        · exact hdrop v l rfl
    · dsimp only
      rw [filter_cons, hrest, filter_cons]

theorem madeBytes_filter {m : Maker} (hp : ∀ v : Area, v.made = m → p v = true) :
    madeBytes m (l.filter p) = madeBytes m l := by
  induction l with
  | nil => rfl
  | cons v l ih =>
    rw [madeBytes_cons, ← ih, filter_cons]
    split
    · exact madeBytes_cons
    · rename_i hv
      have hno : v.made ≠ m := fun hm => hv (hp v hm)
      rw [Area.bytes, if_neg hno, Nat.zero_add]

end Zigk.Mm.Areas

namespace Zigk.Mm.Dma

open Areas List

variable {s t : DmaProcess} {v w : Area} {a n virt phys : Nat} {m : Maker} {q : Maker → Bool}

/-! ## 2. Frames -/

theorem mem_pagesFrom : a ∈ pagesFrom virt n ↔ ∃ i < n, a = virt + i * PAGE_SIZE := by
  unfold pagesFrom
  rw [mem_map]
  constructor
  · intro ⟨i, hi, ha⟩
    exact ⟨i, mem_range.1 hi, ha.symm⟩
  · intro ⟨i, hi, ha⟩
    exact ⟨i, mem_range.2 hi, ha.symm⟩

/-- The pages of a VMA lie in it. -/
theorem mem_pagesOf (h : a ∈ pagesOf v) : v.start ≤ a ∧ a < v.stop := by
  obtain ⟨i, hi, rfl⟩ := mem_pagesFrom.1 h
  unfold Area.size PAGE_SIZE at *
  omega

theorem pagesFrom_nodup : (pagesFrom virt n).Nodup :=
  nodup_range.map fun i j h => by
    unfold PAGE_SIZE at h
    omega

variable {l : List Area} {fs : List Nat} {ans : Answers} {bdf : DeviceBdf} {k : Mapping}
  {cap : IommuDmaCapability} {size : Nat}

namespace DmaProcess

theorem frames_congr (h : ∀ a ∈ pagesOf v, t.translate a = s.translate a) :
    t.frames v = s.frames v :=
  filterMap_congr h

/-- The frames do not depend on the rest of the state. -/
theorem framesOf_congr (hv : (t.vmas.filter fun v => q v.made) = s.vmas.filter fun v => q v.made)
    (ht : ∀ v ∈ s.vmas, q v.made = true → ∀ a ∈ pagesOf v, t.translate a = s.translate a) :
    t.framesOf q = s.framesOf q := by
  unfold framesOf
  rw [hv]
  refine flatMap_congr fun v hv => frames_congr (ht v ?_ ?_)
  · exact (mem_filter.1 hv).1
  · exact (mem_filter.1 hv).2

theorem mem_framesOf : a ∈ s.framesOf q ↔ ∃ v ∈ s.vmas, q v.made = true ∧ a ∈ s.frames v := by
  unfold framesOf
  rw [mem_flatMap]
  constructor
  · intro ⟨v, hv, ha⟩
    exact ⟨v, (mem_filter.1 hv).1, (mem_filter.1 hv).2, ha⟩
  · intro ⟨v, hv, hq, ha⟩
    exact ⟨v, mem_filter.2 ⟨hv, hq⟩, ha⟩

/-- **One VMA more.** -/
theorem framesOf_cons (hv : s.vmas.Perm (v :: l)) (hq : q v.made = true) :
    (s.framesOf q).Perm (s.frames v ++ { s with vmas := l }.framesOf q) := by
  have hperm := (hv.filter fun v => q v.made).flatMap_right s.frames
  rw [filter_cons, if_pos hq, flatMap_cons] at hperm
  exact hperm

theorem framesOf_skip (hv : s.vmas.Perm (v :: l)) (hq : q v.made = false) :
    (s.framesOf q).Perm ({ s with vmas := l }.framesOf q) := by
  have hperm := (hv.filter fun v => q v.made).flatMap_right s.frames
  rw [filter_cons, if_neg (by simp [hq])] at hperm
  exact hperm

/-! ## 3. What holds of the frames -/

/-- **The frames that were obtained are the ones that were returned and the ones behind the VMAs of
    the DMA calls, each once; and none was returned while a device reached it.** -/
structure Core (s : DmaProcess) : Prop where
  ordered : Ordered s.vmas
  once : (s.returned ++ s.framesOf ofDma).Perm s.taken
  single : (s.framesOf ofDma).Nodup
  unreached : s.early = []
  whole : ∀ v ∈ s.vmas, isDma v = true → PAGE_SIZE ∣ v.size
  /-- Devices reach only frames of IOMMU buffers. -/
  reached : ∀ m ∈ s.mapped ++ s.stale, m.frame ∈ s.framesOf (· = .iommu)

/-- A step that obtains some frames and returns them, and changes nothing for the other buffers. -/
structure GaveUp (s t : DmaProcess) (fs : List Nat) : Prop where
  ordered : Ordered t.vmas
  vmas : t.vmas.filter isDma = s.vmas.filter isDma
  pages : ∀ v ∈ s.vmas, isDma v = true → ∀ a ∈ pagesOf v, t.translate a = s.translate a
  taken : t.taken = s.taken ++ fs
  returned : t.returned = s.returned ++ fs
  early : t.early = s.early
  mapped : ∀ m ∈ t.mapped ++ t.stale, m ∈ s.mapped ++ s.stale

theorem GaveUp.framesOf (h : GaveUp s t fs) (hq : ∀ m, q m = true → ofDma m = true) :
    t.framesOf q = s.framesOf q := by
  have hfilter : ∀ l : List Area, (l.filter fun v => q v.made) =
      (l.filter isDma).filter fun v => q v.made := fun l => by
    rw [filter_filter]
    refine filter_congr fun v _ => ?_
    cases hv : q v.made with
    | true => exact (Bool.true_and _).symm ▸ (hq _ hv).symm
    | false => rfl
  refine framesOf_congr ?_ fun v hv hqv => h.pages v hv (hq _ hqv)
  rw [hfilter, h.vmas, ← hfilter]

theorem Core.gaveUp (h : Core s) (hg : GaveUp s t fs) : Core t := by
  have hdma := hg.framesOf (q := ofDma) fun _ hm => hm
  have hiommu := hg.framesOf (q := (· = .iommu)) fun m hm => by
    simp only [decide_eq_true_eq] at hm
    rw [hm]
    rfl
  refine ⟨hg.ordered, ?_, hdma ▸ h.single, hg.early.trans h.unreached, fun v hv hdma => ?_,
    fun m hm => hiommu ▸ h.reached m (hg.mapped m hm)⟩
  · rw [hg.returned, hg.taken, hdma, append_assoc]
    exact (perm_append_comm.append_left _).trans (append_assoc .. ▸ h.once.append_right fs)
  · have hmem := mem_filter.2 ⟨hv, hdma⟩
    rw [hg.vmas] at hmem
    exact h.whole v (mem_filter.1 hmem).1 hdma

theorem Core.unheld (h : Core s) (ha : s.taken.count a ≤ s.returned.count a) :
    a ∉ s.framesOf ofDma := by
  have hcount := h.once.count_eq a
  rw [count_append] at hcount
  exact count_eq_zero.1 (by omega)

theorem iommu_subset (h : a ∈ s.framesOf (· = .iommu)) : a ∈ s.framesOf ofDma := by
  obtain ⟨v, hv, hm, ha⟩ := mem_framesOf.1 h
  refine mem_framesOf.2 ⟨v, hv, ?_, ha⟩
  simp only [decide_eq_true_eq] at hm
  rw [hm]
  rfl

/-- No device reaches frames that are no buffer's. -/
theorem Core.unreachable (h : Core s) (hfs : ∀ f ∈ fs, f ∉ s.framesOf ofDma) :
    fs.filter s.reaches = [] := by
  refine filter_eq_nil_iff.2 fun f hf hr => ?_
  obtain ⟨m, hm, heq⟩ := any_eq_true.1 hr
  rw [decide_eq_true_eq] at heq
  exact hfs f hf (heq ▸ iommu_subset (h.reached m hm))

/-- The accounts of `t` are the ones of `s`. -/
structure SameAccounts (s t : DmaProcess) : Prop where
  pages : t.dma_allocated_pages = s.dma_allocated_pages
  bytes : t.iommu_allocated_bytes = s.iommu_allocated_bytes
  capabilities : t.capabilities = s.capabilities

/-! ## 4. A buffer is placed -/

/-- That `placeBuffer` goes through. -/
structure Places (s : DmaProcess) (page_count : Nat) (ans : Answers) (virt phys : Nat) : Prop where
  answer : ans.phys = some phys
  aligned : isPageAligned phys = true
  unheld : ∀ f ∈ pagesFrom phys page_count, s.taken.count f ≤ s.returned.count f
  range : s.findFreeRange (page_count * PAGE_SIZE) = some virt
  map : s.canMap virt page_count ans.pages = true
  vma : ans.vma = true

/-- The state with the new buffer. -/
def placed (s : DmaProcess) (page_count : Nat) (made : Maker) (virt phys : Nat) : DmaProcess :=
  { s.mapRange virt phys (page_count * PAGE_SIZE) with
    taken := s.taken ++ pagesFrom phys page_count
    vmas := insertVma (bufferVma virt (page_count * PAGE_SIZE) made) s.vmas }

/-- Pages of other VMAs are not in a free range. -/
theorem outside (hf : Free virt (virt + n) s.vmas) (hv : v ∈ s.vmas) (ha : a ∈ pagesOf v) :
    ¬ (virt ≤ a ∧ a < virt + n) := by
  have := hf v hv
  have := mem_pagesOf ha
  omega

theorem gaveUp_fresh (h : Core s) (hu : ∀ f ∈ pagesFrom phys n, s.taken.count f ≤ s.returned.count f)
    {tr : Nat → Option Nat}
    (htr : ∀ v ∈ s.vmas, isDma v = true → ∀ a ∈ pagesOf v, tr a = s.translate a) :
    GaveUp s ({ s with taken := s.taken ++ pagesFrom phys n, translate := tr }.freePages phys n)
      (pagesFrom phys n) where
  ordered := h.ordered
  vmas := rfl
  pages := htr
  taken := rfl
  returned := rfl
  early := by
    have hnone := h.unreachable fun f hf => h.unheld (hu f hf)
    change s.early ++ (pagesFrom phys n).filter s.reaches = s.early
    rw [hnone, append_nil]
  mapped := fun _ hm => hm

theorem placeBuffer_cases {r : Except Errno (Nat × Nat)} (h : Core s)
    (hp : s.placeBuffer n m ans = (t, r)) :
    (∃ e fs, r = .error e ∧ GaveUp s t fs ∧ SameAccounts s t) ∨
      ∃ virt phys, r = .ok (virt, phys) ∧ s.Places n ans virt phys ∧ t = s.placed n m virt phys := by
  have hstay : GaveUp s s [] :=
    ⟨h.ordered, rfl, fun _ _ _ _ _ => rfl, (append_nil _).symm, (append_nil _).symm, rfl,
      fun _ hm => hm⟩
  unfold placeBuffer at hp
  cases hph : ans.phys with
  | none =>
    rw [hph] at hp
    cases hp
    exact .inl ⟨_, _, rfl, hstay, rfl, rfl, rfl⟩
  | some phys =>
    rw [hph] at hp
    unfold allocZeroedPages at hp
    dsimp only at hp
    by_cases hfree : (isPageAligned phys && (pagesFrom phys n).all fun f =>
        s.taken.count f ≤ s.returned.count f) = true
    · rw [if_pos hfree] at hp
      simp only [Bool.and_eq_true, all_eq_true, decide_eq_true_eq] at hfree
      obtain ⟨haligned, hunheld⟩ := hfree
      dsimp only at hp
      cases hv : s.findFreeRange (n * PAGE_SIZE) with
      | none =>
        have hv' : { s with taken := s.taken ++ pagesFrom phys n }.findFreeRange (n * PAGE_SIZE) =
          none := hv
        rw [hv'] at hp
        cases hp
        exact .inl ⟨_, _, rfl, gaveUp_fresh h hunheld fun _ _ _ _ _ => rfl, rfl, rfl, rfl⟩
      | some virt =>
        have hv' : { s with taken := s.taken ++ pagesFrom phys n }.findFreeRange (n * PAGE_SIZE) =
          some virt := hv
        rw [hv'] at hp
        change (if !s.canMap virt n ans.pages then _ else _) = _ at hp
        split at hp
        · cases hp
          exact .inl ⟨_, _, rfl, gaveUp_fresh h hunheld fun _ _ _ _ _ => rfl, rfl, rfl, rfl⟩
        rename_i hmap
        split at hp
        · cases hp
          refine .inl ⟨_, _, rfl, gaveUp_fresh h hunheld fun v hv _ a ha => ?_, rfl, rfl, rfl⟩
          have hout := outside (freeFrom_free h.ordered hv') hv ha
          exact (if_neg hout).trans (if_neg hout)
        rename_i hvma
        cases hp
        exact .inr ⟨virt, phys, rfl,
          ⟨hph, haligned, hunheld, hv, by simpa using hmap, by simpa using hvma⟩, rfl⟩
    · rw [if_neg hfree] at hp
      cases hp
      exact .inl ⟨_, _, rfl, hstay, rfl, rfl, rfl⟩

theorem pagesOf_buffer : pagesOf (bufferVma virt (n * PAGE_SIZE) m) = pagesFrom virt n := by
  have hsize : (bufferVma virt (n * PAGE_SIZE) m).size / PAGE_SIZE = n := by
    unfold bufferVma Area.size PAGE_SIZE
    dsimp only
    omega
  unfold pagesOf
  rw [hsize]
  rfl

/-- **Behind a new buffer are its frames.** -/
theorem placed_frames : (s.placed n m virt phys).frames (bufferVma virt (n * PAGE_SIZE) m) =
    pagesFrom phys n := by
  unfold frames
  rw [pagesOf_buffer]
  unfold pagesFrom
  rw [filterMap_map, ← filterMap_eq_map]
  refine filterMap_congr fun i hi => ?_
  have hin : virt ≤ virt + i * PAGE_SIZE ∧ virt + i * PAGE_SIZE < virt + n * PAGE_SIZE := by
    have := mem_range.1 hi
    unfold PAGE_SIZE
    omega
  refine (if_pos hin).trans ?_
  rw [Nat.add_sub_cancel_left]
  rfl

/-- The frames of the other buffers are what they were. -/
theorem placed_others (h : Core s) (hp : s.Places n ans virt phys) (q : Maker → Bool) :
    { s.placed n m virt phys with vmas := s.vmas }.framesOf q = s.framesOf q := by
  refine framesOf_congr rfl fun v hv _ a ha => ?_
  exact if_neg (outside (freeFrom_free h.ordered hp.range) hv ha)

theorem Core.placed (h : Core s) (hp : s.Places n ans virt phys) (hn : n ≠ 0)
    (hm : ofDma m = true) : Core (s.placed n m virt phys) := by
  have hfree := freeFrom_free h.ordered hp.range
  have hpos : 0 < n * PAGE_SIZE := Nat.mul_pos (Nat.pos_of_ne_zero hn) (by decide)
  have hdma : ((s.placed n m virt phys).framesOf ofDma).Perm
      (pagesFrom phys n ++ s.framesOf ofDma) := by
    have hcons := framesOf_cons (s := s.placed n m virt phys) (q := ofDma) insertVma_perm hm
    rw [placed_frames, placed_others h hp] at hcons
    exact hcons
  refine ⟨h.ordered.insertVma (Nat.lt_add_of_pos_right hpos) hfree, ?_, ?_, h.unreached, ?_, ?_⟩
  · have hswap : (s.returned ++ (pagesFrom phys n ++ s.framesOf ofDma)).Perm
        (s.returned ++ s.framesOf ofDma ++ pagesFrom phys n) := by
      rw [append_assoc]
      exact perm_append_comm.append_left _
    exact ((hdma.append_left _).trans hswap).trans (h.once.append_right _)
  · refine hdma.nodup_iff.2 (nodup_append.2 ⟨pagesFrom_nodup, h.single, ?_⟩)
    intro f hf g hg heq
    exact h.unheld (hp.unheld f hf) (heq ▸ hg)
  · intro v hv hdma
    rcases mem_insertVma.1 hv with rfl | hv
    · exact ⟨n, by rw [Nat.mul_comm]; exact Nat.add_sub_cancel_left ..⟩
    · exact h.whole v hv hdma
  · intro k hk
    obtain ⟨v, hv, hq, hf⟩ := mem_framesOf.1 (placed_others (m := m) h hp _ ▸ h.reached k hk)
    exact mem_framesOf.2 ⟨v, mem_insertVma.2 (.inr hv), hq, hf⟩

/-- **A buffer that is withdrawn again**, with what the IOMMU maps as before. -/
theorem gaveUp_withdraw (h : Core s) (hp : s.Places n ans virt phys)
    (ht : t.vmas = (s.placed n m virt phys).vmas)
    (htr : t.translate = (s.placed n m virt phys).translate)
    (htaken : t.taken = (s.placed n m virt phys).taken) (hreturned : t.returned = s.returned)
    (hearly : t.early = s.early) (hmapped : ∀ k ∈ t.mapped ++ t.stale, k ∈ s.mapped ++ s.stale) :
    GaveUp s ((t.withdraw virt (n * PAGE_SIZE) m).freePages phys n) (pagesFrom phys n) := by
  have hfree := freeFrom_free h.ordered hp.range
  have hnew : bufferVma virt (n * PAGE_SIZE) m ∉ s.vmas := fun hmem => by
    have := hfree _ hmem
    have := h.ordered.solid _ hmem
    unfold bufferVma at *
    dsimp only at *
    omega
  have hvmas : ((t.withdraw virt (n * PAGE_SIZE) m).freePages phys n).vmas = s.vmas := by
    change t.vmas.erase _ = _
    rw [ht]
    exact insertVma_erase hnew
  refine ⟨hvmas ▸ h.ordered, hvmas ▸ rfl, fun v hv _ a ha => ?_, htaken, ?_, ?_, hmapped⟩
  · have hout := outside hfree hv ha
    refine (if_neg hout).trans ?_
    rw [htr]
    exact if_neg hout
  · change t.returned ++ _ = _
    rw [hreturned]
  have hnone : (pagesFrom phys n).filter t.reaches = [] := by
    refine filter_eq_nil_iff.2 fun f hf hr => ?_
    obtain ⟨k, hk, heq⟩ := any_eq_true.1 hr
    rw [decide_eq_true_eq] at heq
    exact h.unheld (hp.unheld f hf) (heq ▸ iommu_subset (h.reached k (hmapped k hk)))
  change t.early ++ (pagesFrom phys n).filter t.reaches = _
  rw [hnone, append_nil, hearly]

/-! ## 5. Accounts -/

/-- **The accounts are what the buffers of each kind have**, within the limits. -/
structure Accounts (s : DmaProcess) : Prop where
  pages : s.dma_allocated_pages * PAGE_SIZE = madeBytes .dma s.vmas
  bytes : s.iommu_allocated_bytes = madeBytes .iommu s.vmas
  pagesLimit : s.dma_allocated_pages ≤ s.getDmaCapabilityLimit
  bytesLimit : s.iommu_allocated_bytes = 0 ∨
    ∃ cap, .IommuDma cap ∈ s.capabilities ∧ s.iommu_allocated_bytes ≤ cap.max_size
  narrow : s.dma_allocated_pages < 2 ^ 32 ∧ s.iommu_allocated_bytes < 2 ^ 64

structure Sound (s : DmaProcess) : Prop where
  core : Core s
  accounts : Accounts s

theorem Accounts.same (h : Accounts s) (hv : t.vmas.filter isDma = s.vmas.filter isDma)
    (ha : SameAccounts s t) : Accounts t := by
  have hbytes : ∀ m, ofDma m = true → madeBytes m t.vmas = madeBytes m s.vmas := fun m hm => by
    have hin : ∀ v : Area, v.made = m → isDma v = true := fun v hv => by
      unfold isDma
      rw [hv, hm]
    rw [← madeBytes_filter hin, hv, madeBytes_filter hin]
  have hlimit : t.getDmaCapabilityLimit = s.getDmaCapabilityLimit := by
    unfold getDmaCapabilityLimit
    rw [ha.capabilities]
  refine ⟨?_, ?_, ?_, ?_, ?_⟩
  · rw [ha.pages, hbytes .dma rfl, h.pages]
  · rw [ha.bytes, hbytes .iommu rfl, h.bytes]
  · rw [ha.pages, hlimit]
    exact h.pagesLimit
  · rw [ha.bytes, ha.capabilities]
    exact h.bytesLimit
  · rw [ha.pages, ha.bytes]
    exact h.narrow

theorem Sound.gaveUp (h : Sound s) (hg : GaveUp s t fs) (ha : SameAccounts s t) : Sound t :=
  ⟨h.core.gaveUp hg, h.accounts.same hg.vmas ha⟩

theorem bytes_own :
    madeBytes m (insertVma (bufferVma virt n m) l) = n + madeBytes m l := by
  have hmade : (bufferVma virt n m).made = m := rfl
  rw [madeBytes_insertVma, Area.bytes, if_pos hmade]
  exact congrArg (· + _) (Nat.add_sub_cancel_left ..)

theorem bytes_other {k : Maker} (h : m ≠ k) :
    madeBytes k (insertVma (bufferVma virt n m) l) = madeBytes k l := by
  have hmade : (bufferVma virt n m).made ≠ k := h
  rw [madeBytes_insertVma, Area.bytes, if_neg hmade, Nat.zero_add]

/-- The counters are no part of `Core`, nor of what a step gives up. -/
theorem Core.counted (h : Core s) (pages bytes : Nat) :
    Core { s with dma_allocated_pages := pages, iommu_allocated_bytes := bytes } :=
  ⟨h.ordered, h.once, h.single, h.unreached, h.whole, h.reached⟩

theorem GaveUp.counted {pages bytes : Nat} (pages' bytes' : Nat)
    (h : GaveUp { s with dma_allocated_pages := pages, iommu_allocated_bytes := bytes } t fs) :
    GaveUp s { t with dma_allocated_pages := pages', iommu_allocated_bytes := bytes' } fs :=
  ⟨h.ordered, h.vmas, h.pages, h.taken, h.returned, h.early, h.mapped⟩

theorem Places.counted {pages bytes : Nat}
    (h : { s with dma_allocated_pages := pages, iommu_allocated_bytes := bytes }.Places n ans
      virt phys) : s.Places n ans virt phys :=
  ⟨h.answer, h.aligned, h.unheld, h.range, h.map, h.vma⟩

/-- **A call that fails takes its reservation back.** -/
theorem Sound.unreserved_pages (h : Sound s) (hwrap : s.dma_allocated_pages + n < 2 ^ 32)
    (hg : GaveUp { s with dma_allocated_pages := s.dma_allocated_pages + n } t fs)
    (ha : SameAccounts { s with dma_allocated_pages := s.dma_allocated_pages + n } t) :
    Sound (t.subPages n) := by
  have hpages : (t.dma_allocated_pages + 2 ^ 32 - n) % 2 ^ 32 = s.dma_allocated_pages := by
    rw [ha.pages]
    dsimp only
    omega
  unfold subPages
  exact h.gaveUp (hg.counted _ _) ⟨hpages, ha.bytes, ha.capabilities⟩

theorem Sound.unreserved_bytes (h : Sound s) (hwrap : s.iommu_allocated_bytes + n < 2 ^ 64)
    (hg : GaveUp { s with iommu_allocated_bytes := s.iommu_allocated_bytes + n } t fs)
    (ha : SameAccounts { s with iommu_allocated_bytes := s.iommu_allocated_bytes + n } t) :
    Sound (t.subBytes n) := by
  have hbytes : (t.iommu_allocated_bytes + 2 ^ 64 - n) % 2 ^ 64 = s.iommu_allocated_bytes := by
    rw [ha.bytes]
    dsimp only
    omega
  unfold subBytes
  exact h.gaveUp (hg.counted _ _) ⟨ha.pages, hbytes, ha.capabilities⟩

/-! ## 6. The IOMMU -/

/-- Only what the IOMMU maps has changed. -/
structure OnlyMaps (s t : DmaProcess) : Prop where
  vmas : t.vmas = s.vmas
  translate : t.translate = s.translate
  taken : t.taken = s.taken
  returned : t.returned = s.returned
  early : t.early = s.early
  accounts : SameAccounts s t

theorem OnlyMaps.framesOf (h : OnlyMaps s t) : t.framesOf q = s.framesOf q :=
  framesOf_congr (by rw [h.vmas]) fun _ _ _ _ _ => by rw [h.translate]

theorem Core.remapped (h : Core s) (ho : OnlyMaps s t)
    (hm : ∀ k ∈ t.mapped ++ t.stale, k ∈ s.mapped ++ s.stale ∨ k.frame ∈ s.framesOf (· = .iommu)) :
    Core t := by
  refine ⟨ho.vmas ▸ h.ordered, ?_, ho.framesOf ▸ h.single, ho.early.trans h.unreached, ?_, ?_⟩
  · rw [ho.returned, ho.taken, ho.framesOf]
    exact h.once
  · rw [ho.vmas]
    exact h.whole
  intro k hk
  rw [ho.framesOf]
  rcases hm k hk with hk | hk
  · exact h.reached k hk
  · exact hk

/-- The entries that go away may still be in the IOTLB; there are no new ones. -/
theorem mem_unmapIova {iova count : Nat}
    (h : k ∈ (s.unmapIova bdf iova count).mapped ++ (s.unmapIova bdf iova count).stale) :
    k ∈ s.mapped ++ s.stale := by
  unfold unmapIova at h
  simp only [mem_append, mem_filter] at h ⊢
  rcases h with h | h | h
  · exact .inl h.1
  · exact .inl h.1
  · exact .inr h

theorem mem_mapIova {iova count : Nat}
    (h : k ∈ (s.mapIova bdf iova phys count).mapped ++ (s.mapIova bdf iova phys count).stale) :
    k ∈ s.mapped ++ s.stale ∨ k.frame ∈ pagesFrom phys count := by
  change k ∈ ((List.range count).map _ ++ (s.unmapIova bdf iova count).mapped) ++
    (s.unmapIova bdf iova count).stale at h
  rw [append_assoc, mem_append] at h
  rcases h with h | h
  · obtain ⟨i, hi, rfl⟩ := mem_map.1 h
    exact .inr (mem_pagesFrom.2 ⟨i, mem_range.1 hi, rfl⟩)
  · exact .inl (mem_unmapIova h)

theorem mem_invalidateIotlb
    (h : k ∈ (s.invalidateIotlb bdf).mapped ++ (s.invalidateIotlb bdf).stale) :
    k ∈ s.mapped ++ s.stale := by
  unfold invalidateIotlb at h
  simp only [mem_append, mem_filter] at h ⊢
  exact h.imp_right And.left

/-- Whether the device gets an address of its own. -/
def grants (s : DmaProcess) (page_count : Nat) (ans : Answers) : Bool :=
  s.isAvailable && ans.iova.isSome && page_count ≤ ans.mappable && ans.invalidated

/-- The device address, as `sys_alloc_iommu_dma` asks for it. -/
def deviceAddr (s : DmaProcess) (bdf : DeviceBdf) (phys page_count : Nat) (ans : Answers) :
    DmaProcess × Option Nat :=
  if s.isAvailable then s.allocDmaBuffer bdf phys page_count ans else (s, none)

theorem deviceAddr_maps (s : DmaProcess) (bdf : DeviceBdf) (phys n : Nat) (ans : Answers) :
    OnlyMaps s (s.deviceAddr bdf phys n ans).1 := by
  unfold deviceAddr allocDmaBuffer
  split
  · split
    · exact ⟨rfl, rfl, rfl, rfl, rfl, rfl, rfl, rfl⟩
    split
    · exact ⟨rfl, rfl, rfl, rfl, rfl, rfl, rfl, rfl⟩
    · split
      · exact ⟨rfl, rfl, rfl, rfl, rfl, rfl, rfl, rfl⟩
      · exact ⟨rfl, rfl, rfl, rfl, rfl, rfl, rfl, rfl⟩
  · exact ⟨rfl, rfl, rfl, rfl, rfl, rfl, rfl, rfl⟩

/-- **What a device can reach after it**, whether or not it went well. -/
theorem mem_deviceAddr
    (h : k ∈ (s.deviceAddr bdf phys n ans).1.mapped ++ (s.deviceAddr bdf phys n ans).1.stale) :
    k ∈ s.mapped ++ s.stale ∨ k.frame ∈ pagesFrom phys (min ans.mappable n) ∧ s.isAvailable = true ∧
        ans.iova.isSome = true := by
  unfold deviceAddr at h
  split at h
  · rename_i havail
    unfold allocDmaBuffer at h
    cases hi : ans.iova with
    | none =>
      rw [hi] at h
      exact .inl h
    | some iova =>
      rw [hi] at h
      have hmap : ∀ {k : Mapping}, k ∈ (s.mapIova bdf iova phys (min ans.mappable n)).mapped ++
            (s.mapIova bdf iova phys (min ans.mappable n)).stale →
          k ∈ s.mapped ++ s.stale ∨ k.frame ∈ pagesFrom phys (min ans.mappable n) ∧
            s.isAvailable = true ∧ (some iova).isSome = true := fun hk =>
        (mem_mapIova hk).imp_right fun hk => ⟨hk, havail, rfl⟩
      dsimp only at h
      split at h
      · exact hmap h
      · split at h
        · exact hmap (mem_invalidateIotlb h)
        · exact hmap (mem_unmapIova h)
  · exact .inl h

theorem deviceAddr_isSome (s : DmaProcess) (bdf : DeviceBdf) (phys n : Nat) (ans : Answers) :
    (s.deviceAddr bdf phys n ans).2.isSome = s.grants n ans := by
  unfold deviceAddr grants
  cases s.isAvailable with
  | false => rfl
  | true =>
    rw [if_pos rfl, Bool.true_and]
    unfold allocDmaBuffer
    cases ans.iova with
    | none => rfl
    | some iova =>
      dsimp only
      split
      · rename_i hlt
        rw [decide_eq_false (Nat.not_le.2 hlt)]
        rfl
      rename_i hle
      rw [decide_eq_true (Nat.le_of_not_lt hle)]
      cases ans.invalidated with
      | true => rfl
      | false => rfl

theorem findSome?_cap
    (h : s.getIommuDmaCapability bdf = some cap) : .IommuDma cap ∈ s.capabilities := by
  obtain ⟨c, hc, hsome⟩ := exists_of_findSome?_eq_some h
  cases c with
  | IommuDma cap' =>
    dsimp only at hsome
    split at hsome
    · cases hsome
      exact hc
    · cases hsome
  | DmaMemory max_pages => cases hsome
  | other => cases hsome

/-- The state with the new buffer and its reservation. -/
def reserved (s : DmaProcess) (page_count virt phys : Nat) : DmaProcess :=
  { s with iommu_allocated_bytes := s.iommu_allocated_bytes + page_count * PAGE_SIZE }.placed
    page_count .iommu virt phys

/-- **The buffer stays**, with or without a device address. -/
theorem Sound.buffered (h : Sound s) (hn : n ≠ 0) (hc : .IommuDma cap ∈ s.capabilities)
    (hwrap : s.iommu_allocated_bytes + n * PAGE_SIZE < 2 ^ 64)
    (hlimit : s.iommu_allocated_bytes + n * PAGE_SIZE ≤ cap.max_size)
    (hp : s.Places n ans virt phys) :
    Sound ((s.reserved n virt phys).deviceAddr bdf phys n ans).1 := by
  have hcore : Core (s.reserved n virt phys) := (h.core.counted _ _).placed
      ⟨hp.answer, hp.aligned, hp.unheld, hp.range, hp.map, hp.vma⟩ hn rfl
  have haccounts : Accounts (s.reserved n virt phys) := by
    refine ⟨?_, ?_, h.accounts.pagesLimit, .inr ⟨cap, hc, hlimit⟩, h.accounts.narrow.1, hwrap⟩
    · change s.dma_allocated_pages * PAGE_SIZE = madeBytes .dma (insertVma _ s.vmas)
      rw [bytes_other (by decide), h.accounts.pages]
    · change s.iommu_allocated_bytes + n * PAGE_SIZE = madeBytes .iommu (insertVma _ s.vmas)
      rw [bytes_own, ← h.accounts.bytes, Nat.add_comm]
  have hmaps := deviceAddr_maps (s.reserved n virt phys) bdf phys n ans
  refine ⟨hcore.remapped hmaps fun k hk => (mem_deviceAddr hk).imp_right fun ⟨hk, _, _⟩ => ?_,
    haccounts.same (by rw [hmaps.vmas]) hmaps.accounts⟩
  refine mem_framesOf.2 ⟨_, mem_insertVma.2 (.inl rfl), rfl, ?_⟩
  obtain ⟨i, hi, heq⟩ := mem_pagesFrom.1 hk
  rw [reserved, placed_frames]
  exact mem_pagesFrom.2 ⟨i, hi.trans_le (Nat.min_le_right ..), heq⟩

/-- **The buffer is withdrawn**, when nothing of it was mapped. -/
theorem Sound.unbuffered (h : Sound s)
    (hwrap : s.iommu_allocated_bytes + n * PAGE_SIZE < 2 ^ 64) (hp : s.Places n ans virt phys)
    (hnone : s.isAvailable = true → ans.iova.isSome = true → ans.mappable = 0) :
    Sound (((((s.reserved n virt phys).deviceAddr bdf phys n ans).1.withdraw virt (n * PAGE_SIZE)
      .iommu).freePages phys n).subBytes (n * PAGE_SIZE)) := by
  have hmaps := deviceAddr_maps (s.reserved n virt phys) bdf phys n ans
  have hcore := h.core.counted s.dma_allocated_pages (s.iommu_allocated_bytes + n * PAGE_SIZE)
  refine h.unreserved_bytes hwrap (gaveUp_withdraw hcore
    ⟨hp.answer, hp.aligned, hp.unheld, hp.range, hp.map, hp.vma⟩ hmaps.vmas hmaps.translate
    hmaps.taken hmaps.returned hmaps.early fun k hk => ?_)
    ⟨hmaps.accounts.pages, hmaps.accounts.bytes, hmaps.accounts.capabilities⟩
  rcases mem_deviceAddr hk with hk | ⟨hk, havail, hiova⟩
  · exact hk
  · rw [hnone havail hiova, Nat.zero_min] at hk
    cases hk

/-! ## 7. A buffer is freed -/

/-- The state without the buffer. -/
def freed (s : DmaProcess) (v : Area) : DmaProcess :=
  { (s.clear [(v, true)]).giveBack (s.frames v) with
    vmas := replaceFirst (fun w => w.overlaps v.start v.stop) (fun _ => []) s.vmas }

theorem unmapped_exact {granted : Bool} (h : Ordered l)
    (hf : findOverlappingVma v.start v.stop l = some v) :
    unmapped granted v.start v.stop l = [(v, true)] := by
  induction l with
  | nil => cases hf
  | cons c l ih =>
    unfold unmapped
    unfold findOverlappingVma at hf
    by_cases ho : c.overlaps v.start v.stop
    · rw [find?_cons_of_pos (p := fun w : Area => w.overlaps v.start v.stop) ho] at hf
      cases hf
      have hnone : ∀ l : List Area, (∀ w ∈ l, v.stop ≤ w.start) →
          unmapped granted v.start v.stop l = [] := fun l => by
        induction l with
        | nil => exact fun _ => rfl
        | cons u l ihl =>
          intro hl
          have hu := hl u mem_cons_self
          have hno : ¬ u.overlaps v.start v.stop = true := by
            simp only [Area.overlaps, Bool.and_eq_true, decide_eq_true_eq]
            omega
          unfold unmapped
          rw [if_neg hno, ihl fun w hw => hl w (mem_cons_of_mem _ hw)]
      rw [if_pos ho, if_pos ⟨le_rfl, le_rfl⟩, hnone l fun w hw => h.head hw]
    · rw [find?_cons_of_neg (p := fun w : Area => w.overlaps v.start v.stop) ho] at hf
      rw [if_neg ho, ih h.tail hf]

theorem findDmaVma_some (h : s.findDmaVma virt size = some v) :
    findOverlappingVma virt (virt + size) s.vmas = some v ∧ v.flags &&& MAP_DEVICE = 0 ∧
      v.start = virt ∧ v.stop = virt + size := by
  unfold findDmaVma at h
  cases hf : findOverlappingVma virt (virt + size) s.vmas with
  | none =>
    rw [hf] at h
    cases h
  | some w =>
    rw [hf] at h
    dsimp only at h
    split at h
    · cases h
    split at h
    · cases h
    split at h
    · cases h
    split at h
    · cases h
    rename_i _ hdevice _ hbounds
    cases h
    rw [not_not] at hdevice
    rw [not_or, not_not, not_not] at hbounds
    exact ⟨rfl, hdevice, hbounds⟩

theorem roundUp_of_dvd (h : PAGE_SIZE ∣ n) : roundUp n = n := by
  obtain ⟨k, rfl⟩ := h
  unfold roundUp pageAlignDown PAGE_SIZE
  omega

/-- **What the unmapping of a whole buffer does**, if it does anything. -/
theorem munmapLocked_exact {granted : Bool} {r : Except Errno Unit} (h : Core s)
    (hf : s.findDmaVma virt size = some v) (hv : isDma v = true)
    (hm : s.munmapLocked virt size granted = .ok (t, r)) :
    (t = s ∧ ∃ e, r = .error e) ∨ (t = s.freed v ∧ r = .ok ()) := by
  obtain ⟨hfind, hdevice, rfl, hstop⟩ := findDmaVma_some hf
  have hmem := mem_of_find?_eq_some hfind
  have hround : roundUp size = size := by
    refine roundUp_of_dvd ?_
    have hdvd := h.whole v hmem hv
    unfold Area.size at hdvd
    rwa [hstop, Nat.add_sub_cancel_left] at hdvd
  unfold munmapLocked at hm
  split at hm
  · cases hm
    exact .inl ⟨rfl, _, rfl⟩
  split at hm
  · cases hm
    exact .inl ⟨rfl, _, rfl⟩
  replace hm := alignForward_bind hm
  rw [hround] at hm
  split at hm
  · cases hm
    exact .inl ⟨rfl, _, rfl⟩
  rw [← hstop] at hm hfind
  dsimp only at hm
  rw [unmapped_exact h.ordered hfind, unmapVmas_exact h.ordered hfind rfl rfl] at hm
  have hreleased : s.released [(v, true)] = s.frames v := by
    unfold released
    rw [filter_cons_of_pos (by simp [hdevice, hv]), filter_nil, flatMap_singleton]
  rw [hreleased] at hm
  cases hm
  exact .inr ⟨rfl, rfl⟩

/-- **The frames of a buffer go back once**, and no device reaches them. -/
theorem Core.freed (h : Core s) (hfind : findOverlappingVma v.start v.stop s.vmas = some v)
    (hv : isDma v = true) (hno : ∀ k ∈ s.mapped ++ s.stale, k.frame ∉ s.frames v) :
    Core (s.freed v) := by
  have hperm := replaceFirst_perm hfind
  have hordered : Ordered (s.freed v).vmas := h.ordered.replaceFirst fun _ _ => .inl rfl
  have hmem : ∀ w ∈ (s.freed v).vmas, w ∈ s.vmas ∧ ¬ (w.start < v.stop ∧ v.start < w.stop) := by
    intro w hw
    refine ⟨hperm.mem_iff.2 (mem_cons_of_mem _ hw), fun hover => ?_⟩
    have hpair : s.vmas.Pairwise fun v w => v.stop ≤ w.start ∨ w.stop ≤ v.start :=
      h.ordered.apart.imp Or.inl
    have hsym : ∀ {x y : Area}, x.stop ≤ y.start ∨ y.stop ≤ x.start →
        y.stop ≤ x.start ∨ x.stop ≤ y.start := fun hxy => hxy.symm
    have hhead := (pairwise_cons.1 (hpair.perm hperm hsym)).1 w hw
    omega
  -- the pages of the others are where they were
  have hothers : ∀ q : Maker → Bool,
      { s with vmas := (s.freed v).vmas }.framesOf q = (s.freed v).framesOf q := by
    refine fun q => Eq.symm (framesOf_congr (t := s.freed v)
      (s := { s with vmas := (s.freed v).vmas }) rfl fun w hw _ a ha => ?_)
    have hout := (hmem w hw).2
    have hin := mem_pagesOf ha
    have hclear : ¬ ([(v, true)].any fun p => p.1.contains a) = true := by
      simp only [any_cons, any_nil, Bool.or_false, Area.contains, Bool.and_eq_true,
        decide_eq_true_eq]
      omega
    exact if_neg hclear
  have hdma : (s.framesOf ofDma).Perm (s.frames v ++ (s.freed v).framesOf ofDma) :=
    hothers ofDma ▸ framesOf_cons hperm hv
  have hunreached : (s.frames v).filter (s.clear [(v, true)]).reaches = [] := by
    refine filter_eq_nil_iff.2 fun f hf hr => ?_
    obtain ⟨k, hk, heq⟩ := any_eq_true.1 hr
    rw [decide_eq_true_eq] at heq
    exact hno k hk (heq ▸ hf)
  refine ⟨hordered, ?_, ?_, ?_, fun w hw => h.whole w (hmem w hw).1, fun k hk => ?_⟩
  · change ((s.returned ++ s.frames v) ++ (s.freed v).framesOf ofDma).Perm s.taken
    rw [append_assoc]
    exact (hdma.symm.append_left _).trans h.once
  · exact (nodup_append.1 (hdma.nodup_iff.1 h.single)).2.1
  · change s.early ++ (s.frames v).filter (s.clear [(v, true)]).reaches = []
    rw [hunreached, append_nil, h.unreached]
  have hk' := h.reached k hk
  by_cases hiommu : v.made = .iommu
  · have hcons := framesOf_cons (s := s) (q := (· = .iommu)) hperm (decide_eq_true hiommu)
    rcases mem_append.1 (hcons.mem_iff.1 hk') with hf | hf
    · exact absurd hf (hno k hk)
    · exact hothers (· = .iommu) ▸ hf
  · have hskip := framesOf_skip (s := s) (q := (· = .iommu)) hperm (decide_eq_false hiommu)
    exact hothers (· = .iommu) ▸ hskip.mem_iff.1 hk'

/-- The frames of a buffer without IOMMU are out of reach. -/
theorem Core.plain (h : Core s) (hfind : findOverlappingVma v.start v.stop s.vmas = some v)
    (hv : v.made = .dma) (hk : k ∈ s.mapped ++ s.stale) : k.frame ∉ s.frames v := by
  intro hf
  have hperm := replaceFirst_perm hfind
  have hne : v.made ≠ .iommu := by
    rw [hv]
    decide
  have hskip := framesOf_skip (s := s) (q := (· = .iommu)) hperm (decide_eq_false hne)
  have hcons := framesOf_cons (s := s) (q := ofDma) hperm (hv ▸ rfl)
  have hrest := iommu_subset (hskip.mem_iff.1 (h.reached k hk))
  exact (nodup_append.1 (hcons.nodup_iff.1 h.single)).2.2 _ hf _ hrest rfl

theorem madeBytes_freed (hfind : findOverlappingVma v.start v.stop s.vmas = some v) (m : Maker) :
    madeBytes m (s.freed v).vmas + v.bytes m = madeBytes m s.vmas :=
  madeBytes_replaceFirst (m := m) (f := fun _ => []) hfind

/-- The pages of a buffer, as the calls round them. -/
theorem pageCount_mul (h : PAGE_SIZE ∣ size) :
    (size + PAGE_SIZE - 1) / PAGE_SIZE * PAGE_SIZE = size := by
  obtain ⟨k, rfl⟩ := h
  unfold PAGE_SIZE
  omega

/-- **A plain buffer goes, and its pages go out of the account.** -/
theorem Sound.freed_pages (h : Sound s) (hfind : findOverlappingVma v.start v.stop s.vmas = some v)
    (hv : v.made = .dma) :
    Sound ((s.freed v).subPages ((v.size + PAGE_SIZE - 1) / PAGE_SIZE)) := by
  have hdma : isDma v = true := by
    unfold isDma
    rw [hv]
    rfl
  have hcore := h.core.freed hfind hdma fun k hk => h.core.plain hfind hv hk
  have hwhole := pageCount_mul (h.core.whole v (mem_of_find?_eq_some hfind) hdma)
  have hpages := madeBytes_freed hfind .dma
  have hbytes := madeBytes_freed hfind .iommu
  rw [Area.bytes, if_pos hv, ← h.accounts.pages] at hpages
  rw [Area.bytes, if_neg (by rw [hv]; decide)] at hbytes
  have holdLimit := h.accounts.pagesLimit
  have hnarrow := h.accounts.narrow
  generalize (v.size + PAGE_SIZE - 1) / PAGE_SIZE = c at *
  have hle : c ≤ s.dma_allocated_pages := by
    unfold PAGE_SIZE at *
    omega
  have hsub : (s.dma_allocated_pages + 2 ^ 32 - c) % 2 ^ 32 = s.dma_allocated_pages - c := by
    omega
  have hcount : ((s.freed v).subPages c).dma_allocated_pages = s.dma_allocated_pages - c := hsub
  refine ⟨hcore.counted _ _, ?_, ?_, ?_, h.accounts.bytesLimit, ?_⟩
  · rw [← hwhole] at hpages
    rw [hcount, Nat.sub_mul]
    exact Nat.sub_eq_of_eq_add hpages.symm
  · exact h.accounts.bytes.trans hbytes.symm
  · rw [hcount]
    exact (Nat.sub_le ..).trans holdLimit
  · rw [hcount]
    exact ⟨by omega, hnarrow.2⟩

theorem Sound.freed_bytes (h : Sound s) (hfind : findOverlappingVma v.start v.stop s.vmas = some v)
    (hv : v.made = .iommu) (hno : ∀ k ∈ s.mapped ++ s.stale, k.frame ∉ s.frames v) :
    Sound ((s.freed v).subBytes v.size) := by
  have hdma : isDma v = true := by
    unfold isDma
    rw [hv]
    rfl
  have hcore := h.core.freed hfind hdma hno
  have hpages := madeBytes_freed hfind .dma
  have hbytes := madeBytes_freed hfind .iommu
  rw [Area.bytes, if_neg (by rw [hv]; decide)] at hpages
  rw [Area.bytes, if_pos hv, ← h.accounts.bytes] at hbytes
  have hnarrow := h.accounts.narrow
  have hsub : (s.iommu_allocated_bytes + 2 ^ 64 - v.size) % 2 ^ 64 =
      s.iommu_allocated_bytes - v.size := by
    omega
  have hcount : ((s.freed v).subBytes v.size).iommu_allocated_bytes =
      s.iommu_allocated_bytes - v.size := hsub
  refine ⟨hcore.counted _ _, ?_, ?_, h.accounts.pagesLimit, ?_, ?_⟩
  · exact h.accounts.pages.trans hpages.symm
  · rw [hcount]
    exact Nat.sub_eq_of_eq_add hbytes.symm
  · rw [hcount]
    rcases h.accounts.bytesLimit with hz | ⟨cap, hc, hle⟩
    · exact .inl (by omega)
    · exact .inr ⟨cap, hc, (Nat.sub_le ..).trans hle⟩
  · rw [hcount]
    exact ⟨hnarrow.1, by omega⟩

end DmaProcess

end Zigk.Mm.Dma
