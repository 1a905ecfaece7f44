/-
  Subject:   HOW LONG A SEGMENT LIVES: its count, its attachments and its frames.

  * `ShmOk` -- every attachment shows frames of a segment in use, one after the other, and the
    count of a segment is that of its attachments, up to the calls that are on their way;
  * **`shmLifetime`** -- in the runs of such steps count, frames and mappings agree.
-/
import Mathlib.Algebra.Order.BigOperators.Group.Finset
import Zigk.Ipc.Shm
import Zigk.Mm.MemfdSafety

namespace Zigk.Ipc

open Function List Shm Call
open Mm (Pmm PmmOk Owns Takes Vma AllDevice PAGE_SIZE MAP_SHARED MAP_DEVICE isPageAligned
  pageAlignDown pageAlignLen mapRange unmapRange insertVma freeFrames freeVmaPages munmapVmas)

/-! ## 1. Unmapping attachments -/

/-- What is left of a VMA after munmap of `[a, e)`, where it is not split. -/
def cut (a e : Nat) (v : Vma) : Option Vma :=
  if v.overlaps a e then
    if a ≤ v.start ∧ e ≥ v.stop then none
    else if a ≤ v.start then some { v with start := e }
    else some { v with stop := a }
  else some v

/-- The page lies in the VMA. -/
def InVma (v : Vma) (page : Nat) : Prop := v.start / PAGE_SIZE ≤ page ∧ page < v.stop / PAGE_SIZE

section Cut

variable {pmm : Pmm} {pt : Nat → Option Nat} {a e : Nat} {v : Vma} {vmas : List Vma}

theorem overlaps_iff : v.overlaps a e = true ↔ v.start < e ∧ a < v.stop := by
  simp [Vma.overlaps]

theorem freeVmaPages_device (debug : Bool) (pmm : Pmm) (pt : Nat → Option Nat)
    (hv : v.flags &&& MAP_DEVICE ≠ 0) :
    freeVmaPages debug pmm pt v = .ok (pmm, unmapRange pt v.start (v.stop - v.start)) := by
  have hloop : ∀ (f : Pmm × (Nat → Option Nat) → Nat → Except Trap (Pmm × (Nat → Option Nat))),
      (∀ s i, f s i = .ok (s.1, update s.2 (v.start / PAGE_SIZE + i) none)) → ∀ n,
      (List.range n).foldlM f (pmm, pt) = .ok (pmm, fun page =>
        if v.start / PAGE_SIZE ≤ page ∧ page < v.start / PAGE_SIZE + n then none else pt page) := by
    intro f hf n
    induction n with
    | zero =>
      have hpt : (fun page => if v.start / PAGE_SIZE ≤ page ∧ page < v.start / PAGE_SIZE + 0 then none
          else pt page) = pt := by
        funext page
        rw [if_neg (by omega)]
      rw [hpt]
      rfl
    | succ n ih =>
      rw [range_succ, foldlM_append, ih, Except.ok_bind, foldlM_cons, hf]
      refine congrArg (fun g => Except.ok (pmm, g)) (funext fun page => ?_)
      by_cases hp : page = v.start / PAGE_SIZE + n
      · rw [hp, update_self, if_pos (by omega)]
      · rw [update_of_ne hp]
        exact if_congr (by omega) rfl rfl
  refine hloop _ (fun s i => ?_) v.pageCount
  dsimp only
  cases hp : s.2 (v.start / PAGE_SIZE + i) with
  | none =>
    rw [update_eq_self_iff.2 hp.symm]
    rfl
  | some frame => exact if_neg hv

/-- The range cuts the VMA at one end, covers it or misses it. -/
def Unsplit (a e : Nat) (v : Vma) : Prop := ¬(v.start < a ∧ e < v.stop)

structure Pages (v : Vma) : Prop where
  start : v.start % PAGE_SIZE = 0
  stop : v.stop % PAGE_SIZE = 0
  lt : v.start < v.stop

theorem mem_unmapRange {start len page f : Nat} : unmapRange pt start len page = some f ↔
      pt page = some f ∧
        ¬(start / PAGE_SIZE ≤ page ∧ page < start / PAGE_SIZE + len / PAGE_SIZE) := by
  unfold unmapRange
  split_ifs with h
  · simp [h]
  · simp [h]

theorem add_sub_div {x y : Nat} (hx : x % PAGE_SIZE = 0) (hy : y % PAGE_SIZE = 0) (h : x ≤ y) :
    x / PAGE_SIZE + (y - x) / PAGE_SIZE = y / PAGE_SIZE := by
  simp only [PAGE_SIZE] at *
  omega

theorem div_mono {x y : Nat} (h : x ≤ y) : x / PAGE_SIZE ≤ y / PAGE_SIZE := Nat.div_le_div_right h

/-- A page that leaves is one of the first VMA or of the others. -/
theorem unmapped_cons {page f : Nat} {A : Prop}
    (hA : A ↔ a / PAGE_SIZE ≤ page ∧ page < e / PAGE_SIZE ∧ InVma v page) :
    ((pt page = some f ∧ ¬ A) ∧
        ¬(a / PAGE_SIZE ≤ page ∧ page < e / PAGE_SIZE ∧ ∃ w ∈ vmas, InVma w page)) ↔
      pt page = some f ∧
        ¬(a / PAGE_SIZE ≤ page ∧ page < e / PAGE_SIZE ∧ ∃ w ∈ v :: vmas, InVma w page) := by
  rw [hA, exists_mem_cons_iff]
  constructor
  · intro ⟨⟨h1, h2⟩, h3⟩
    exact ⟨h1, fun ⟨h4, h5, h6⟩ => h6.elim (fun h => h2 ⟨h4, h5, h⟩) fun h => h3 ⟨h4, h5, h⟩⟩
  · intro ⟨h1, h2⟩
    exact ⟨⟨h1, fun h => h2 ⟨h.1, h.2.1, .inl h.2.2⟩⟩, fun h => h2 ⟨h.1, h.2.1, .inr h.2.2⟩⟩

/-- The pages that leave are those of the range that lie in a VMA. -/
theorem munmapVmas_cut (debug oom : Bool) (pmm : Pmm) (pt : Nat → Option Nat)
    (hv : AllDevice vmas) (hal : ∀ v ∈ vmas, Pages v) (hun : ∀ v ∈ vmas, Unsplit a e v)
    (ha : a % PAGE_SIZE = 0) (he : e % PAGE_SIZE = 0) :
    ∃ pt', munmapVmas debug oom a e pmm pt vmas = .ok (pmm, pt', vmas.filterMap (cut a e), true) ∧
      ∀ page f, pt' page = some f ↔ pt page = some f ∧
        ¬(a / PAGE_SIZE ≤ page ∧ page < e / PAGE_SIZE ∧ ∃ v ∈ vmas, InVma v page) := by
  induction vmas generalizing pt with
  | nil => exact ⟨pt, rfl, by simp⟩
  | cons v vmas ih =>
    have hdev := hv v mem_cons_self
    obtain ⟨hst, hsp, hlt⟩ := hal v mem_cons_self
    have hu := hun v mem_cons_self
    have hrest := fun pt => ih pt (fun w hw => hv w (mem_cons_of_mem v hw))
      (fun w hw => hal w (mem_cons_of_mem v hw))
      (fun w hw => hun w (mem_cons_of_mem v hw))
    rw [munmapVmas, filterMap_cons]
    unfold cut
    by_cases hover : v.overlaps a e = true
    · rw [if_pos hover, if_pos hover]
      have ho := overlaps_iff.mp hover
      by_cases hall : a ≤ v.start ∧ e ≥ v.stop
      · obtain ⟨pt', heq, hpt⟩ := hrest (unmapRange pt v.start (v.stop - v.start))
        rw [if_pos hall, if_pos hall, freeVmaPages_device debug pmm pt hdev]
        refine ⟨pt', heq, fun page f => ?_⟩
        rw [hpt, mem_unmapRange, add_sub_div hst hsp hlt.le]
        have hlo := div_mono hall.1
        have hhi := div_mono hall.2
        exact unmapped_cons (by unfold InVma; omega)
      rw [if_neg hall, if_neg hall]
      by_cases hleft : a ≤ v.start
      · have hmin : min e v.stop = e := by omega
        rw [if_pos hleft, if_pos hleft, hmin]
        obtain ⟨pt', heq, hpt⟩ := hrest (unmapRange pt v.start (e - v.start))
        simp only [heq, Except.ok_bind]
        refine ⟨pt', rfl, fun page f => ?_⟩
        rw [hpt, mem_unmapRange, add_sub_div hst he (by omega)]
        have hlo := div_mono hleft
        have hhi : e / PAGE_SIZE ≤ v.stop / PAGE_SIZE := div_mono (by omega)
        exact unmapped_cons (by unfold InVma; omega)
      rw [if_neg hleft, if_neg hleft]
      have hright : e ≥ v.stop := by
        unfold Unsplit at hu
        omega
      have hmax : max a v.start = a := by omega
      rw [if_pos hright, hmax]
      obtain ⟨pt', heq, hpt⟩ := hrest (unmapRange pt a (v.stop - a))
      simp only [heq, Except.ok_bind]
      refine ⟨pt', rfl, fun page f => ?_⟩
      rw [hpt, mem_unmapRange, add_sub_div ha hsp (by omega)]
      have hlo : v.start / PAGE_SIZE ≤ a / PAGE_SIZE := div_mono (by omega)
      have hhi := div_mono hright
      exact unmapped_cons (by unfold InVma; omega)
    · obtain ⟨pt', heq, hpt⟩ := hrest pt
      rw [if_neg hover, if_neg hover, heq]
      refine ⟨pt', rfl, fun page f => ?_⟩
      have ho : ¬(v.start < e ∧ a < v.stop) := fun h => hover (overlaps_iff.mpr h)
      have hmiss : ¬(a / PAGE_SIZE ≤ page ∧ page < e / PAGE_SIZE ∧ InVma v page) := by
        simp only [InVma, PAGE_SIZE] at *
        omega
      rw [hpt, ← unmapped_cons (iff_of_false id hmiss), not_false_iff, and_true]

end Cut

/-! ## 2. What is counted -/

/-- The frames of a segment in use. -/
def ShmSegment.frames (seg : ShmSegment) : List Nat :=
  if seg.in_use then List.range' (seg.phys_pages / PAGE_SIZE) seg.num_pages else []

/-- The first page of the VMA has one of the frames. -/
def Space.shows (sp : Space) (l : List Nat) (v : Vma) : Bool :=
  (sp.pt (v.start / PAGE_SIZE)).any fun f => decide (f ∈ l)

/-- The address of an attachment that a call is at, with its process. -/
def Call.target : Call → Option (Nat × Nat)
  | .attached p _ _ _ virt _ => some (p, virt)
  | .detaching p _ _ virt _ => some (p, virt)
  | _ => none

/-- The attachment at `virt` of process `p` is not counted yet. -/
def Call.attaches (p virt : Nat) : Call → Bool
  | .attached q _ _ _ virt' _ => q = p && virt' = virt
  | _ => false

/-- The call has unmapped an attachment of segment `i` that is still counted. -/
def Call.uncounts (i : Nat) : Call → Bool
  | .detached _ _ j => j = i
  | _ => false

/-- A shmat of the segment `i` is on its way. -/
def Call.attachesTo (i : Nat) : Call → Bool
  | .attaching _ _ j _ _ _ _ _ => j = i
  | .attached _ _ j _ _ _ => j = i
  | _ => false

namespace Shm

def frames (s : Shm) : List Nat := s.segments.flatMap ShmSegment.frames

def framesOf (s : Shm) (i : Nat) : List Nat := ((s.segments[i]?).map ShmSegment.frames).getD []

def inFlight (s : Shm) (p virt : Nat) : Bool := s.calls.any (·.attaches p virt)

/-- The VMAs of process `p` with a property. -/
def countIn (s : Shm) (f : Nat → Space → Vma → Bool) (p : Nat) : Nat :=
  match s.space? p with
  | none => 0
  | some sp => sp.vmas.countP (f p sp)

/-- The VMAs of all processes with a property. -/
def count (s : Shm) (f : Nat → Space → Vma → Bool) : Nat :=
  ∑ p ∈ Finset.range s.procs.length, s.countIn f p

/-- The attachments of the segment `i`. -/
def attachments (s : Shm) (i : Nat) : Nat := s.count fun _ sp v => sp.shows (s.framesOf i) v

/-- Those whose `shmat` has counted them. -/
def settled (s : Shm) (i : Nat) : Nat :=
  s.count fun p sp v => sp.shows (s.framesOf i) v && !s.inFlight p v.start

/-- The attachments that are gone and still counted. -/
def uncounted (s : Shm) (i : Nat) : Nat := s.calls.countP (·.uncounts i)

end Shm

section Counting

variable {s s' : Shm} {p k : Nat} {sp sp' : Space} {f f' : Nat → Space → Vma → Bool}

theorem space?_lt (h : s.space? p = some sp) : p < s.procs.length := by
  rcases Nat.lt_or_ge p s.procs.length with hlt | hge
  · exact hlt
  · rw [space?, getElem?_eq_none hge] at h
    cases h

@[simp] theorem space?_setSpace (h : s.space? p = some sp) (q : Nat) :
    (s.setSpace p sp').space? q = if q = p then some sp' else s.space? q := by
  have hlt := space?_lt h
  unfold space? setSpace
  rw [getElem?_set]
  by_cases e : p = q
  · rw [if_pos e, if_pos e.symm, if_pos (e ▸ hlt)]
    rfl
  · rw [if_neg e, if_neg (Ne.symm e)]

theorem setSpace_self (h : s.space? p = some sp) : s.setSpace p sp = s := by
  have hp : s.procs[p]? = some (some sp) := by
    unfold space? at h
    cases hq : s.procs[p]? with
    | none => rw [hq] at h; cases h
    | some o =>
      rw [hq] at h
      exact congrArg some h
  have hset : s.procs.set p (some sp) = s.procs := by
    obtain ⟨hlt, hget⟩ := List.getElem?_eq_some_iff.mp hp
    rw [← hget, set_getElem_self]
  unfold setSpace
  rw [hset]

/-- Where only process `p` counts differently. -/
theorem count_change (hlen : s'.procs.length = s.procs.length) (hp : p < s.procs.length)
    (h : ∀ q, q ≠ p → s'.countIn f' q = s.countIn f q) :
    s'.count f' + s.countIn f p = s.count f + s'.countIn f' p := by
  have hmem : p ∈ Finset.range s.procs.length := Finset.mem_range.mpr hp
  have hrest : ∑ q ∈ (Finset.range s.procs.length).erase p, s'.countIn f' q =
      ∑ q ∈ (Finset.range s.procs.length).erase p, s.countIn f q :=
    Finset.sum_congr rfl fun q hq => h q (Finset.ne_of_mem_erase hq)
  have h1 := Finset.add_sum_erase (Finset.range s.procs.length) (s'.countIn f') hmem
  have h2 := Finset.add_sum_erase (Finset.range s.procs.length) (s.countIn f) hmem
  unfold Shm.count
  rw [hlen]
  omega

theorem count_congr (hlen : s'.procs.length = s.procs.length)
    (h : ∀ q, s'.countIn f' q = s.countIn f q) : s'.count f' = s.count f := by
  unfold Shm.count
  rw [hlen]
  exact Finset.sum_congr rfl fun q _ => h q

theorem countIn_congr (hsp : s'.space? p = s.space? p)
    (h : ∀ sp, s.space? p = some sp → ∀ v ∈ sp.vmas, f' p sp v = f p sp v) :
    s'.countIn f' p = s.countIn f p := by
  unfold countIn
  rw [hsp]
  cases hq : s.space? p with
  | none => rfl
  | some sp => exact countP_congr fun v hv => by rw [h sp hq v hv]

theorem countIn_some (h : s.space? p = some sp) : s.countIn f p = sp.vmas.countP (f p sp) := by
  unfold countIn
  rw [h]

/-- A VMA that is counted is a reason for a positive count. -/
theorem count_pos (h : s.space? p = some sp) {v : Vma} (hv : v ∈ sp.vmas) (hf : f p sp v = true) :
    0 < s.count f := by
  have hle : s.countIn f p ≤ s.count f :=
    Finset.single_le_sum (fun _ _ => Nat.zero_le _) (Finset.mem_range.mpr (space?_lt h))
  rw [countIn_some h] at hle
  exact Nat.lt_of_lt_of_le (countP_pos_iff.mpr ⟨v, hv, hf⟩) hle

/-- One element of a list without repetition is counted in addition, or none. -/
theorem countP_add_if {α : Type} {l : List α} {a : α} {q q' : α → Bool} {b : Prop}
    [DecidableEq α] [Decidable b] (hl : l.Nodup) (ha : a ∈ l) (hq : q a = false)
    (hq' : q' a = decide b) (h : ∀ x ∈ l, x ≠ a → q' x = q x) :
    l.countP q' = l.countP q + if b then 1 else 0 := by
  have hp := perm_cons_erase ha
  have hrest : (l.erase a).countP q' = (l.erase a).countP q :=
    countP_congr fun x hx => by
      rw [h x (mem_of_mem_erase hx) (List.Nodup.mem_erase_iff hl |>.mp hx).1]
  rw [hp.countP_eq, hp.countP_eq, countP_cons, countP_cons, hrest, hq, hq']
  simp

end Counting

/-! ## 3. The invariant -/

/-- The pages of the VMA have frames of the segment, one after the other, from the `k`-th on. -/
structure Maps (pt : Nat → Option Nat) (seg : ShmSegment) (v : Vma) (k : Nat) : Prop where
  le : k + v.pageCount ≤ seg.num_pages
  frame : ∀ j, j < v.pageCount →
    pt (v.start / PAGE_SIZE + j) = some (seg.phys_pages / PAGE_SIZE + k + j)

structure VmaOk (segments : List ShmSegment) (sp : Space) (v : Vma) : Prop extends Pages v where
  top : v.stop < 2 ^ 64
  device : v.flags &&& MAP_DEVICE ≠ 0
  maps : ∃ (i : Nat) (seg : ShmSegment) (k : Nat),
    segments[i]? = some seg ∧ seg.in_use = true ∧ Maps sp.pt seg v k

structure SpaceOk (segments : List ShmSegment) (sp : Space) : Prop where
  sorted : sp.vmas.Pairwise fun v w => v.stop ≤ w.start
  vma : ∀ v ∈ sp.vmas, VmaOk segments sp v
  covered : ∀ page f, sp.pt page = some f → ∃ v ∈ sp.vmas, InVma v page

structure SegOk (seg : ShmSegment) : Prop where
  aligned : seg.phys_pages % PAGE_SIZE = 0
  pages : 0 < seg.num_pages
  marked : seg.marked_for_deletion = true → 0 < seg.attach_count

/-- The segment `i` is in use, with a sequence number of its own. -/
structure Live (s : Shm) (i : Nat) (seg : ShmSegment) : Prop where
  get : s.segments[i]? = some seg
  in_use : seg.in_use = true

def CallOk (s : Shm) : Call → Prop
  | .finished => True
  | .attaching p _ i seq _ _ phys_addr num_pages =>
    (∃ sp, s.space? p = some sp) ∧
      ∃ seg, Live s i seg ∧ seg.perm.seq = seq ∧ seg.phys_pages = phys_addr ∧
        seg.num_pages = num_pages
  | .attached p _ i seq virt _ =>
    ∃ sp v seg, s.space? p = some sp ∧ v ∈ sp.vmas ∧ v.start = virt ∧ Live s i seg ∧
      sp.shows seg.frames v = true ∧ seg.perm.seq = seq
  | .detaching p _ i virt size =>
    ∃ sp v seg, s.space? p = some sp ∧ v ∈ sp.vmas ∧ v.start = virt ∧ Live s i seg ∧
      sp.shows seg.frames v = true ∧ v.stop = virt + size
  | .detached _ _ i => ∃ seg, Live s i seg

/-- The frames of `l` are owned, and all others are as they were in `pmm₀`. -/
structure Books (pmm₀ pmm : Pmm) (l : List Nat) : Prop extends Owns pmm l where
  refs : ∀ f, pmm.refs f = pmm₀.refs f + l.count f

structure ShmOk (pmm₀ : Pmm) (s : Shm) : Prop where
  pmm : PmmOk s.pmm
  books : Books pmm₀ s.pmm (s.frames ++ s.others)
  segs : ∀ i seg, Live s i seg → SegOk seg
  spaces : ∀ p sp, s.space? p = some sp → SpaceOk s.segments sp
  calls : ∀ c ∈ s.calls, CallOk s c
  /-- No two calls are at the same attachment. -/
  targets : ∀ (k k' : Nat) (c c' : Call) (t : Nat × Nat), s.calls[k]? = some c → s.calls[k']? = some c' → c.target = some t →
    c'.target = some t → k = k'
  counts : ∀ i seg, Live s i seg → seg.attach_count = s.settled i + s.uncounted i

/-! ## 4. What the invariant says -/

section Facts

variable {pmm₀ : Pmm} {s : Shm} {p i j : Nat} {sp : Space} {v w : Vma} {seg seg' : ShmSegment}

theorem Live.frames (h : Live s i seg) :
    seg.frames = List.range' (seg.phys_pages / PAGE_SIZE) seg.num_pages := if_pos h.in_use

theorem Live.framesOf (h : Live s i seg) : s.framesOf i = seg.frames := by
  unfold Shm.framesOf
  rw [h.get]
  rfl

theorem Live.unique (h : Live s i seg) (h' : Live s i seg') : seg = seg' :=
  Option.some.inj (h.get.symm.trans h'.get)

/-- A frame is in the list of a segment only if that is in use. -/
theorem live_of_mem_framesOf {f : Nat} (h : f ∈ s.framesOf i) :
    ∃ seg, Live s i seg ∧ f ∈ seg.frames := by
  unfold Shm.framesOf at h
  cases hg : s.segments[i]? with
  | none => simp [hg] at h
  | some seg =>
    simp only [hg, Option.map_some, Option.getD_some] at h
    cases hu : seg.in_use with
    | false => simp [ShmSegment.frames, hu] at h
    | true => exact ⟨seg, ⟨hg, hu⟩, h⟩

theorem Live.mem_frames (h : Live s i seg) {f : Nat} (hf : f ∈ seg.frames) : f ∈ s.frames :=
  mem_flatMap.mpr ⟨seg, mem_of_getElem? h.get, hf⟩

/-- A frame belongs to one segment. -/
theorem Owns.segment_unique (h : Owns s.pmm (s.frames ++ s.others)) (hi : Live s i seg)
    (hj : Live s j seg') {f : Nat} (hf : f ∈ seg.frames) (hf' : f ∈ seg'.frames) : i = j := by
  have hnd := (nodup_flatMap.mp (nodup_append.mp h.nodup).1).2
  by_contra hne
  obtain ⟨hilt, rfl⟩ := List.getElem?_eq_some_iff.mp hi.get
  obtain ⟨hjlt, rfl⟩ := List.getElem?_eq_some_iff.mp hj.get
  rcases Nat.lt_or_gt_of_ne hne with hlt | hgt
  · exact pairwise_iff_getElem.mp hnd i j hilt hjlt hlt hf hf'
  · exact pairwise_iff_getElem.mp hnd j i hjlt hilt hgt hf' hf

theorem Pages.pageCount_pos (h : Pages v) : 0 < v.pageCount := by
  obtain ⟨h1, h2, h3⟩ := h
  simp only [Vma.pageCount, PAGE_SIZE] at *
  omega

/-- A page of the VMA is its first one and a number below the count of pages. -/
theorem Pages.inVma_iff (h : Pages v) {page : Nat} :
    InVma v page ↔ ∃ j, j < v.pageCount ∧ page = v.start / PAGE_SIZE + j := by
  have hsum := add_sub_div h.start h.stop h.lt.le
  constructor
  · intro hp
    exact ⟨page - v.start / PAGE_SIZE, by unfold InVma at hp; unfold Vma.pageCount; omega,
      by unfold InVma at hp; omega⟩
  · rintro ⟨j, hj, rfl⟩
    unfold Vma.pageCount at hj
    exact ⟨by omega, by omega⟩

theorem Maps.first {k : Nat} (h : Maps sp.pt seg v k) (hp : Pages v) :
    sp.pt (v.start / PAGE_SIZE) = some (seg.phys_pages / PAGE_SIZE + k) :=
  h.frame 0 hp.pageCount_pos

theorem Maps.shows {k : Nat} (h : Maps sp.pt seg v k) (hp : Pages v) (l : List Nat) :
    sp.shows l v = decide (seg.phys_pages / PAGE_SIZE + k ∈ l) := by
  unfold Space.shows
  rw [h.first hp]
  rfl

theorem Maps.mem_frames {k n : Nat} (h : Maps sp.pt seg v k) (hu : seg.in_use = true)
    (hn : n < v.pageCount) : seg.phys_pages / PAGE_SIZE + k + n ∈ seg.frames := by
  have := h.le
  rw [ShmSegment.frames, if_pos hu, mem_range'_1]
  omega

/-- **The segment of an attachment is the one whose frame its first page has.** -/
theorem Maps.shows_framesOf {k : Nat} (hb : Owns s.pmm (s.frames ++ s.others)) (hl : Live s j seg)
    (hm : Maps sp.pt seg v k) (hp : Pages v) (i : Nat) :
    sp.shows (s.framesOf i) v = decide (i = j) := by
  have hself := hm.mem_frames hl.in_use hp.pageCount_pos
  rw [Nat.add_zero] at hself
  rw [hm.shows hp]
  refine decide_eq_decide.mpr ⟨fun hf => ?_, fun e => ?_⟩
  · obtain ⟨seg', hl', hf'⟩ := live_of_mem_framesOf hf
    exact Owns.segment_unique hb hl' hl hf' hself
  · rw [e, hl.framesOf]
    exact hself

theorem VmaOk.shows_unique (hb : Owns s.pmm (s.frames ++ s.others)) (hv : VmaOk s.segments sp v)
    (hs : sp.shows (s.framesOf i) v = true) :
    ∃ seg k, Live s i seg ∧ Maps sp.pt seg v k ∧
      ∀ j, sp.shows (s.framesOf j) v = decide (j = i) := by
  obtain ⟨j, seg, k, hg, hu, hm⟩ := hv.maps
  have hl : Live s j seg := ⟨hg, hu⟩
  have hshows := hm.shows_framesOf hb hl hv.toPages
  rw [hshows, decide_eq_true_eq] at hs
  rw [hs]
  exact ⟨seg, k, hl, hm, hshows⟩

/-- A page of an attachment is mapped to a frame of its segment. -/
theorem VmaOk.page (hv : VmaOk s.segments sp v) {page : Nat} (hp : InVma v page) :
    ∃ i seg f, Live s i seg ∧ sp.pt page = some f ∧ f ∈ seg.frames := by
  obtain ⟨i, seg, k, hg, hu, hm⟩ := hv.maps
  obtain ⟨n, hn, rfl⟩ := hv.toPages.inVma_iff.mp hp
  exact ⟨i, seg, _, ⟨hg, hu⟩, hm.frame n hn, hm.mem_frames hu hn⟩

/-- **What is mapped belongs to a segment in use.** -/
theorem SpaceOk.backed (h : SpaceOk s.segments sp) {page f : Nat} (hp : sp.pt page = some f) :
    f ∈ s.frames := by
  obtain ⟨v, hv, hin⟩ := h.covered page f hp
  obtain ⟨i, seg, f', hl, hpt, hf⟩ := (h.vma v hv).page hin
  rw [hp] at hpt
  cases hpt
  exact hl.mem_frames hf

/-- Two VMAs are apart. -/
theorem SpaceOk.apart (h : SpaceOk s.segments sp) (hv : v ∈ sp.vmas) (hw : w ∈ sp.vmas)
    (hne : v ≠ w) : v.stop ≤ w.start ∨ w.stop ≤ v.start := by
  have hp : sp.vmas.Pairwise fun v w => v.stop ≤ w.start ∨ w.stop ≤ v.start :=
    h.sorted.imp fun h => .inl h
  have hsymm : Std.Symm fun v w : Vma => v.stop ≤ w.start ∨ w.stop ≤ v.start :=
    ⟨fun _ _ h => h.symm⟩
  exact hp.forall hv hw hne

theorem SpaceOk.eq_of_start (h : SpaceOk s.segments sp) (hv : v ∈ sp.vmas) (hw : w ∈ sp.vmas)
    (e : v.start = w.start) : v = w := by
  by_contra hne
  have h1 := (h.vma v hv).lt
  have h2 := (h.vma w hw).lt
  rcases h.apart hv hw hne with h | h
  · omega
  · omega

theorem SpaceOk.nodup (h : SpaceOk s.segments sp) : sp.vmas.Nodup := by
  refine (List.Pairwise.and_mem.mp h.sorted).imp ?_
  rintro v w ⟨hv, -, hle⟩ rfl
  have := (h.vma v hv).lt
  omega

theorem inFlight_iff {virt : Nat} :
    s.inFlight p virt = true ↔ ∃ c ∈ s.calls, c.attaches p virt = true := by
  simp only [inFlight, any_eq_true]

theorem attaches_target {c : Call} {virt : Nat} (h : c.attaches p virt = true) :
    c.target = some (p, virt) := by
  cases c with
  | attached q _ _ _ virt' _ =>
    simp only [attaches, Bool.and_eq_true, decide_eq_true_eq] at h
    rw [← h.1, ← h.2]
    rfl
  | finished => cases h
  | attaching => cases h
  | detaching => cases h
  | detached => cases h

/-- An attachment at which no call is has been counted. -/
theorem not_inFlight {virt : Nat} (h : ∀ c ∈ s.calls, c.target ≠ some (p, virt)) :
    s.inFlight p virt = false := by
  by_contra hf
  rw [Bool.not_eq_false, inFlight_iff] at hf
  obtain ⟨c, hc, ha⟩ := hf
  exact h c hc (attaches_target ha)

end Facts

/-! ## 5. Attaching -/

section Attach

variable {sp : Space} {v : Vma} {vmas : List Vma}

theorem insertVma_perm (v : Vma) (vmas : List Vma) : (insertVma v vmas).Perm (v :: vmas) := by
  induction vmas with
  | nil => exact .refl _
  | cons u vmas ih =>
    rw [insertVma]
    by_cases hlt : v.start < u.start
    · rw [if_pos hlt]
    · rw [if_neg hlt]
      exact (ih.cons u).trans (.swap v u vmas)

theorem insertVma_sorted (hs : vmas.Pairwise fun v w => v.stop ≤ w.start) (hv : v.start < v.stop)
    (hlt : ∀ w ∈ vmas, w.start < w.stop)
    (hap : ∀ w ∈ vmas, v.stop ≤ w.start ∨ w.stop ≤ v.start) :
    (insertVma v vmas).Pairwise fun v w => v.stop ≤ w.start := by
  induction vmas with
  | nil => exact pairwise_singleton _ _
  | cons u vmas ih =>
    obtain ⟨hu, hs'⟩ := pairwise_cons.mp hs
    have hul := hlt u mem_cons_self
    have hua := hap u mem_cons_self
    rw [insertVma]
    by_cases h : v.start < u.start
    · rw [if_pos h]
      refine pairwise_cons.mpr ⟨?_, hs⟩
      intro w hw
      rcases mem_cons.mp hw with rfl | hw
      · omega
      · have := hu w hw
        omega
    rw [if_neg h]
    refine pairwise_cons.mpr ⟨?_, ih hs' (fun w hw => hlt w (mem_cons_of_mem u hw))
      fun w hw => hap w (mem_cons_of_mem u hw)⟩
    intro w hw
    rcases mem_cons.mp ((insertVma_perm v vmas).mem_iff.mp hw) with rfl | hw
    · omega
    · exact hu w hw

theorem mul_div_page (n : Nat) : n * PAGE_SIZE / PAGE_SIZE = n := Nat.mul_div_cancel n (by decide)

/-- A range mapped over pages that were not mapped, and unmapped again. -/
theorem unmapRange_mapRange {pt : Nat → Option Nat} {virt phys n : Nat}
    (h : ∀ k, k < n → pt (virt / PAGE_SIZE + k) = none) :
    unmapRange (mapRange pt virt phys (n * PAGE_SIZE)) virt (n * PAGE_SIZE) = pt := by
  funext page
  unfold unmapRange mapRange
  rw [mul_div_page]
  by_cases hp : virt / PAGE_SIZE ≤ page ∧ page < virt / PAGE_SIZE + n
  · have hnone := h (page - virt / PAGE_SIZE) (by omega)
    rw [if_pos hp, ← hnone]
    congr 1
    omega
  · rw [if_neg hp, if_neg hp]

/-- The VMA and the space that `shmat` makes. -/
def attachVma (virt n prot : Nat) : Vma :=
  ⟨virt, virt + n * PAGE_SIZE, prot, MAP_SHARED ||| MAP_DEVICE⟩

def Space.attach (sp : Space) (virt phys n prot : Nat) : Space :=
  ⟨insertVma (attachVma virt n prot) sp.vmas, mapRange sp.pt virt phys (n * PAGE_SIZE)⟩

/-- The `n` pages from `virt` on are there and not mapped. -/
structure Room (sp : Space) (virt n : Nat) : Prop where
  aligned : virt % PAGE_SIZE = 0
  top : virt + n * PAGE_SIZE < 2 ^ 64
  unmapped : ∀ k, k < n → sp.pt (virt / PAGE_SIZE + k) = none

/-- **What the work of `shmat` comes to**: the space is as it was, or has one attachment more. -/
theorem shmatMap_outcome (env : AttachEnv) (sp : Space) (shmaddr : Nat) (shmflg : BitVec 32)
    (phys n : Nat) :
    shmatMap env sp shmaddr shmflg phys n = .error .integerOverflow ∨
    (∃ e, shmatMap env sp shmaddr shmflg phys n = .ok (sp, .error e)) ∨
    ∃ virt prot, Room sp virt n ∧
      shmatMap env sp shmaddr shmflg phys n = .ok (sp.attach virt phys n prot, .ok virt) := by
  unfold shmatMap
  cases shmatAddr env shmaddr shmflg with
  | error e => exact .inr (.inl ⟨e, rfl⟩)
  | ok virt =>
    simp only
    by_cases hfail : (!isPageAligned virt || !env.tables || sp.taken virt n) = true
    · rw [if_pos hfail]
      exact .inr (.inl ⟨_, rfl⟩)
    rw [if_neg hfail]
    by_cases htop : virt + n * PAGE_SIZE ≥ 2 ^ 64
    · rw [if_pos htop]
      exact .inl rfl
    rw [if_neg htop]
    simp only [Bool.or_eq_true, Bool.not_eq_true', not_or, Bool.not_eq_false, Bool.not_eq_true]
      at hfail
    obtain ⟨⟨hal, -⟩, htaken⟩ := hfail
    have hun : ∀ k, k < n → sp.pt (virt / PAGE_SIZE + k) = none := by
      intro k hk
      have h := any_eq_false.mp htaken k (mem_range.mpr hk)
      simpa using h
    cases hvma : env.vma with
    | true =>
      exact .inr (.inr ⟨virt, _, ⟨by simpa [isPageAligned] using hal, Nat.lt_of_not_le htop, hun⟩,
        rfl⟩)
    | false =>
      simp only [Bool.false_eq_true, if_false, unmapRange_mapRange hun]
      exact .inr (.inl ⟨_, rfl⟩)

variable {segments : List ShmSegment} {seg : ShmSegment} {i virt n : Nat} (prot : Nat)

theorem Room.pages (h : Room sp virt n) (hn : 0 < n) : Pages (attachVma virt n prot) := by
  have h1 := h.aligned
  refine ⟨h1, ?_, ?_⟩
  · simp only [attachVma, PAGE_SIZE] at *
    omega
  · simp only [attachVma, PAGE_SIZE] at *
    omega

theorem pageCount_attachVma (virt n prot : Nat) : (attachVma virt n prot).pageCount = n := by
  simp only [Vma.pageCount, attachVma, Nat.add_sub_cancel_left, mul_div_page]

/-- The pages of an old attachment are as they were. -/
theorem Room.old_page (h : Room sp virt n) {phys page f : Nat} (hp : sp.pt page = some f) :
    mapRange sp.pt virt phys (n * PAGE_SIZE) page = some f := by
  unfold mapRange
  rw [mul_div_page, if_neg, hp]
  rintro ⟨h1, h2⟩
  have := h.unmapped (page - virt / PAGE_SIZE) (by omega)
  rw [show virt / PAGE_SIZE + (page - virt / PAGE_SIZE) = page by omega, hp] at this
  cases this

theorem Maps.attach {k : Nat} (hm : Maps sp.pt seg v k) (h : Room sp virt n) (phys : Nat) :
    Maps (sp.attach virt phys n prot).pt seg v k :=
  ⟨hm.le, fun j hj => h.old_page (hm.frame j hj)⟩

/-- The new attachment is apart from every old one, whose pages are all mapped. -/
theorem SpaceOk.room_apart (h : SpaceOk segments sp) (hr : Room sp virt n) (hn : 0 < n)
    {w : Vma} (hw : w ∈ sp.vmas) :
    (attachVma virt n prot).stop ≤ w.start ∨ w.stop ≤ (attachVma virt n prot).start := by
  obtain ⟨i, seg, k, -, -, hm⟩ := (h.vma w hw).maps
  have hwp := (h.vma w hw).toPages
  by_contra hno
  -- the first page of the later of the two is a page of both
  have hboth : ∃ j, j < n ∧ InVma w (virt / PAGE_SIZE + j) := by
    obtain ⟨h1, h2, h3⟩ := hwp
    have h4 := hr.aligned
    simp only [attachVma, InVma, PAGE_SIZE] at *
    by_cases hlt : virt ≤ w.start
    · exact ⟨w.start / 4096 - virt / 4096, by omega, by omega, by omega⟩
    · exact ⟨0, hn, by omega, by omega⟩
  obtain ⟨j, hj, hin⟩ := hboth
  obtain ⟨m, hm', e⟩ := hwp.inVma_iff.mp hin
  have hnone := hr.unmapped j hj
  rw [e, hm.frame m hm'] at hnone
  cases hnone

/-- **Attaching keeps the shape of the space.** -/
theorem SpaceOk.attach (h : SpaceOk segments sp) (hr : Room sp virt n)
    (hi : segments[i]? = some seg) (hu : seg.in_use = true) (hn : seg.num_pages = n) (h0 : 0 < n) :
    SpaceOk segments (sp.attach virt seg.phys_pages n prot) := by
  have hnew : Maps (sp.attach virt seg.phys_pages n prot).pt seg (attachVma virt n prot) 0 := by
    refine ⟨by rw [pageCount_attachVma, hn, Nat.zero_add], fun j hj => ?_⟩
    rw [pageCount_attachVma] at hj
    show mapRange sp.pt virt seg.phys_pages (n * PAGE_SIZE) (virt / PAGE_SIZE + j) = _
    unfold mapRange
    rw [mul_div_page, if_pos (by omega)]
    congr 1
    omega
  refine ⟨?_, ?_, ?_⟩
  · exact insertVma_sorted h.sorted (hr.pages prot h0).lt (fun w hw => (h.vma w hw).lt)
      fun w hw => h.room_apart prot hr h0 hw
  · intro w hw
    rcases mem_cons.mp ((insertVma_perm _ _).mem_iff.mp hw) with rfl | hw
    · refine ⟨hr.pages prot h0, hr.top, ?_, i, seg, 0, hi, hu, hnew⟩
      show (MAP_SHARED ||| MAP_DEVICE) &&& MAP_DEVICE ≠ 0
      decide
    · obtain ⟨j, seg', k, hj, hu', hm⟩ := (h.vma w hw).maps
      exact ⟨(h.vma w hw).toPages, (h.vma w hw).top, (h.vma w hw).device, j, seg', k, hj, hu',
        hm.attach prot hr _⟩
  intro page f hp
  by_cases hin : InVma (attachVma virt n prot) page
  · exact ⟨_, (insertVma_perm _ _).mem_iff.mpr mem_cons_self, hin⟩
  have hold : sp.pt page = some f := by
    have hp' : mapRange sp.pt virt seg.phys_pages (n * PAGE_SIZE) page = some f := hp
    unfold mapRange at hp'
    rw [mul_div_page] at hp'
    rwa [if_neg] at hp'
    rintro ⟨h1, h2⟩
    refine hin ((hr.pages prot h0).inVma_iff.mpr ⟨page - virt / PAGE_SIZE, ?_, ?_⟩)
    · rw [pageCount_attachVma]
      omega
    · show page = virt / PAGE_SIZE + (page - virt / PAGE_SIZE)
      omega
  obtain ⟨w, hw, hwin⟩ := h.covered page f hold
  exact ⟨w, (insertVma_perm _ _).mem_iff.mpr (mem_cons_of_mem _ hw), hwin⟩

/-- What an old attachment shows. -/
theorem SpaceOk.attach_shows (h : SpaceOk segments sp) (hr : Room sp virt n) (phys : Nat)
    {w : Vma} (hw : w ∈ sp.vmas) (l : List Nat) :
    (sp.attach virt phys n prot).shows l w = sp.shows l w := by
  obtain ⟨i, seg, k, -, -, hm⟩ := (h.vma w hw).maps
  have hp := (h.vma w hw).toPages
  rw [hm.shows hp, (hm.attach prot hr phys).shows hp]

end Attach

/-! ## 6. Cutting -/

section Cutting

variable {sp : Space} {segments : List ShmSegment} {a e : Nat} {v w : Vma}

theorem cut_outcome (hun : Unsplit a e v) :
    (¬ v.overlaps a e = true ∧ cut a e v = some v) ∨ (a ≤ v.start ∧ v.stop ≤ e ∧ cut a e v = none) ∨
    (a ≤ v.start ∧ v.start < e ∧ e < v.stop ∧ cut a e v = some { v with start := e }) ∨
    (v.start < a ∧ a < v.stop ∧ v.stop ≤ e ∧ cut a e v = some { v with stop := a }) := by
  unfold cut
  by_cases ho : v.overlaps a e = true
  · have hov := overlaps_iff.mp ho
    rw [if_pos ho]
    by_cases hall : a ≤ v.start ∧ e ≥ v.stop
    · exact .inr (.inl ⟨hall.1, hall.2, if_pos hall⟩)
    rw [if_neg hall]
    by_cases hl : a ≤ v.start
    · exact .inr (.inr (.inl ⟨hl, hov.1, by omega, if_pos hl⟩))
    · unfold Unsplit at hun
      exact .inr (.inr (.inr ⟨by omega, hov.2, by omega, if_neg hl⟩))
  · exact .inl ⟨ho, if_neg ho⟩

/-- What is left lies where it was. -/
theorem cut_within (hv : Pages v) (ha : a % PAGE_SIZE = 0) (he : e % PAGE_SIZE = 0)
    (hun : Unsplit a e v) (h : cut a e v = some w) :
    Pages w ∧ v.start ≤ w.start ∧ w.stop ≤ v.stop ∧ w.flags = v.flags ∧
      ∀ page, InVma w page ↔ InVma v page ∧ ¬(a / PAGE_SIZE ≤ page ∧ page < e / PAGE_SIZE) := by
  obtain ⟨h1, h2, h3⟩ := hv
  rcases cut_outcome hun with ⟨ho, hc⟩ | ⟨-, -, hc⟩ | ⟨hl, hlt, hgt, hc⟩ | ⟨hl, hlt, hgt, hc⟩
  · rw [hc] at h
    cases h
    refine ⟨⟨h1, h2, h3⟩, le_refl _, le_refl _, rfl, fun page => ?_⟩
    rw [overlaps_iff] at ho
    simp only [InVma, PAGE_SIZE] at *
    omega
  · rw [hc] at h
    cases h
  · rw [hc] at h
    cases h
    refine ⟨⟨he, h2, hgt⟩, hlt.le, le_refl _, rfl, fun page => ?_⟩
    simp only [InVma, PAGE_SIZE] at *
    omega
  · rw [hc] at h
    cases h
    refine ⟨⟨h1, ha, hl⟩, le_refl _, hlt.le, rfl, fun page => ?_⟩
    simp only [InVma, PAGE_SIZE] at *
    omega

/-- The space after munmap of `[a, e)`, where no attachment is split. -/
structure CutSpace (sp sp' : Space) (a e : Nat) : Prop where
  vmas : sp'.vmas = sp.vmas.filterMap (cut a e)
  pt : ∀ page f, sp'.pt page = some f ↔ sp.pt page = some f ∧
    ¬(a / PAGE_SIZE ≤ page ∧ page < e / PAGE_SIZE ∧ ∃ v ∈ sp.vmas, InVma v page)

variable {sp' : Space}

/-- Of an attachment that is cut the pages that are left have the frames they had. -/
theorem CutSpace.maps (h : CutSpace sp sp' a e) {k : Nat} {seg : ShmSegment} (hv : Pages v)
    (ha : a % PAGE_SIZE = 0) (he : e % PAGE_SIZE = 0) (hun : Unsplit a e v)
    (hc : cut a e v = some w) (hm : Maps sp.pt seg v k) : ∃ k', Maps sp'.pt seg w k' := by
  obtain ⟨hw, hlo, hhi, -, hpages⟩ := cut_within hv ha he hun hc
  have hshift : w.start / PAGE_SIZE = v.start / PAGE_SIZE + (w.start / PAGE_SIZE - v.start / PAGE_SIZE)
    := by
    have := div_mono hlo
    omega
  refine ⟨k + (w.start / PAGE_SIZE - v.start / PAGE_SIZE), ⟨?_, fun j hj => ?_⟩⟩
  · have h1 := add_sub_div hv.start hv.stop hv.lt.le
    have h2 := add_sub_div hw.start hw.stop hw.lt.le
    have h3 := div_mono hhi
    have h4 := hm.le
    unfold Vma.pageCount at *
    omega
  have hin := hw.inVma_iff.mpr ⟨j, hj, rfl⟩
  obtain ⟨hinv, hout⟩ := (hpages _).mp hin
  obtain ⟨m, hm', em⟩ := hv.inVma_iff.mp hinv
  refine (h.pt _ _).mpr ⟨?_, fun hr => hout ⟨hr.1, hr.2.1⟩⟩
  rw [em, hm.frame m hm']
  congr 1
  omega

/-- **Cutting keeps the shape of the space.** -/
theorem SpaceOk.cut (hok : SpaceOk segments sp) (h : CutSpace sp sp' a e)
    (ha : a % PAGE_SIZE = 0) (he : e % PAGE_SIZE = 0) (hun : ∀ v ∈ sp.vmas, Unsplit a e v) :
    SpaceOk segments sp' := by
  refine ⟨?_, ?_, ?_⟩
  · rw [h.vmas, pairwise_filterMap]
    refine (List.Pairwise.and_mem.mp hok.sorted).imp ?_
    rintro v w ⟨hv, hw, hle⟩ v' hv' w' hw'
    obtain ⟨-, -, h1, -⟩ := cut_within (hok.vma v hv).toPages ha he (hun v hv) hv'
    obtain ⟨-, h2, -⟩ := cut_within (hok.vma w hw).toPages ha he (hun w hw) hw'
    omega
  · intro w hw
    rw [h.vmas] at hw
    obtain ⟨v, hv, hc⟩ := mem_filterMap.mp hw
    obtain ⟨hpw, -, htop, hflags, -⟩ := cut_within (hok.vma v hv).toPages ha he (hun v hv) hc
    obtain ⟨i, seg, k, hi, hu, hm⟩ := (hok.vma v hv).maps
    obtain ⟨k', hm'⟩ := h.maps (hok.vma v hv).toPages ha he (hun v hv) hc hm
    refine ⟨hpw, lt_of_le_of_lt htop (hok.vma v hv).top, ?_, i, seg, k', hi, hu, hm'⟩
    rw [hflags]
    exact (hok.vma v hv).device
  intro page f hp
  obtain ⟨hpt, hout⟩ := (h.pt page f).mp hp
  obtain ⟨v, hv, hin⟩ := hok.covered page f hpt
  have hrange : ¬(a / PAGE_SIZE ≤ page ∧ page < e / PAGE_SIZE) :=
    fun hr => hout ⟨hr.1, hr.2, v, hv, hin⟩
  cases hc : Ipc.cut a e v with
  | some w =>
    refine ⟨w, h.vmas ▸ mem_filterMap.mpr ⟨v, hv, hc⟩, ?_⟩
    exact ((cut_within (hok.vma v hv).toPages ha he (hun v hv) hc).2.2.2.2 page).mpr ⟨hin, hrange⟩
  | none =>
    rcases cut_outcome (hun v hv) with ⟨-, hc'⟩ | ⟨h1, h2, -⟩ | ⟨-, -, -, hc'⟩ | ⟨-, -, -, hc'⟩
    · rw [hc] at hc'
      cases hc'
    · have h3 := div_mono h1
      have h4 := div_mono h2
      unfold InVma at hin
      omega
    · rw [hc] at hc'
      cases hc'
    · rw [hc] at hc'
      cases hc'

end Cutting

/-! ## 7. Munmap -/

/-- munmap looks at the VMAs. -/
structure Effective (addr len : Nat) : Prop where
  aligned : isPageAligned addr = true
  nonempty : len ≠ 0
  top : addr ≤ 2 ^ 64 - 1 - pageAlignLen len

/-- The range lies inside the VMA. -/
def Splits (a e : Nat) (v : Vma) : Prop := v.start < a ∧ e < v.stop

/-- The range takes a part of the VMA at one end. -/
def Trims (a e : Nat) (v : Vma) : Prop := a ≤ v.start ∧ e < v.stop ∨ v.start < a ∧ v.stop ≤ e

section Munmap

variable {segments : List ShmSegment} {sp : Space} {vmas : List Vma} {v : Vma} {a e : Nat}

/-- Without memory for the second half nothing happens. -/
theorem munmapVmas_oom (debug : Bool) (pmm : Pmm) (pt : Nat → Option Nat)
    (hs : vmas.Pairwise fun v w => v.stop ≤ w.start) (hv : v ∈ vmas) (h : Splits a e v)
    (hae : a ≤ e) : munmapVmas debug true a e pmm pt vmas = .ok (pmm, pt, vmas, false) := by
  obtain ⟨h1, h2⟩ := h
  induction vmas with
  | nil => cases hv
  | cons u vmas ih =>
    obtain ⟨hu, hs'⟩ := pairwise_cons.mp hs
    rw [munmapVmas]
    rcases mem_cons.mp hv with rfl | hv
    · have ho : v.overlaps a e = true := overlaps_iff.mpr ⟨by omega, by omega⟩
      rw [if_pos ho, if_neg (by omega), if_neg (by omega), if_neg (by omega), if_pos rfl]
      rfl
    have hle := hu v hv
    have ho : ¬ u.overlaps a e = true := by
      rw [overlaps_iff]
      omega
    rw [if_neg ho, ih hs' hv]
    rfl

theorem pageAlignLen_dvd (len : Nat) : pageAlignLen len % PAGE_SIZE = 0 := by
  simp only [pageAlignLen, pageAlignDown, PAGE_SIZE]
  omega

theorem Effective.start_mod {addr len : Nat} (h : Effective addr len) : addr % PAGE_SIZE = 0 := by
  simpa [isPageAligned] using h.aligned

theorem Effective.end_mod {addr len : Nat} (h : Effective addr len) :
    (addr + pageAlignLen len) % PAGE_SIZE = 0 := by
  have h1 := h.start_mod
  have h2 := pageAlignLen_dvd len
  simp only [PAGE_SIZE] at *
  omega

theorem munmap_idle (debug oom : Bool) (pmm : Pmm) (sp : Space) {addr len : Nat}
    (h : ¬ Effective addr len) : sp.munmap debug oom pmm addr len = .ok (pmm, sp, false) := by
  unfold Space.munmap
  by_cases hal : isPageAligned addr = true
  · by_cases hlen : len = 0
    · simp only [hal, hlen, Bool.not_true, Bool.false_eq_true, if_false, if_true]
      rfl
    · have htop : ¬ addr ≤ 2 ^ 64 - 1 - pageAlignLen len := fun ht => h ⟨hal, hlen, ht⟩
      simp only [hal, hlen, not_le.mp htop, Bool.not_true, Bool.false_eq_true, if_false, if_true]
      rfl
  · simp only [hal]
    rfl

theorem munmap_effective (debug oom : Bool) (pmm : Pmm) (sp : Space) {addr len : Nat}
    (h : Effective addr len) :
    sp.munmap debug oom pmm addr len = (munmapVmas debug oom addr (addr + pageAlignLen len) pmm sp.pt
      sp.vmas >>= fun r => .ok (r.1, ⟨r.2.2.1, r.2.1⟩, r.2.2.2)) := by
  unfold Space.munmap
  have htop : ¬ 2 ^ 64 - 1 - pageAlignLen len < addr := not_lt.mpr h.top
  simp only [h.aligned, h.nonempty, Bool.not_true, Bool.false_eq_true, if_false, gt_iff_lt]
  rw [if_neg htop]
  rfl

/-- **What munmap comes to**, where an attachment is split only without memory for it. -/
theorem munmap_outcome (debug oom : Bool) (pmm : Pmm) (hok : SpaceOk segments sp) (addr len : Nat)
    (hsplit : Effective addr len → ∀ v ∈ sp.vmas, Splits addr (addr + pageAlignLen len) v →
      oom = true) :
    sp.munmap debug oom pmm addr len = .ok (pmm, sp, false) ∨
    Effective addr len ∧ (∀ v ∈ sp.vmas, Unsplit addr (addr + pageAlignLen len) v) ∧
      ∃ sp', sp.munmap debug oom pmm addr len = .ok (pmm, sp', true) ∧
        CutSpace sp sp' addr (addr + pageAlignLen len) := by
  by_cases heff : Effective addr len
  · rw [munmap_effective debug oom pmm sp heff]
    by_cases hun : ∀ v ∈ sp.vmas, Unsplit addr (addr + pageAlignLen len) v
    · obtain ⟨pt', heq, hpt⟩ := munmapVmas_cut debug oom pmm sp.pt
        (fun v hv => (hok.vma v hv).device) (fun v hv => (hok.vma v hv).toPages) hun heff.start_mod
        heff.end_mod
      rw [heq]
      exact .inr ⟨heff, hun, ⟨_, pt'⟩, rfl, rfl, hpt⟩
    push Not at hun
    obtain ⟨v, hv, hs⟩ := hun
    have hs' : Splits addr (addr + pageAlignLen len) v := not_not.mp hs
    obtain rfl := hsplit heff v hv hs'
    rw [munmapVmas_oom debug pmm sp.pt hok.sorted hv hs' (Nat.le_add_right _ _)]
    exact .inl rfl
  · exact .inl (munmap_idle debug oom pmm sp heff)

end Munmap

/-! ## 8. Steps on the calls and on one space -/

section Steps

variable {pmm₀ : Pmm} {s s' : Shm} {p k i : Nat} {sp sp' : Space} {c c' : Call} {seg : ShmSegment}

/-- The same segment, with other counts, rights or names. -/
structure Renewed (seg seg' : ShmSegment) : Prop where
  phys_pages : seg'.phys_pages = seg.phys_pages
  num_pages : seg'.num_pages = seg.num_pages
  in_use : seg'.in_use = seg.in_use
  seq : seg'.perm.seq = seg.perm.seq

theorem Renewed.refl (seg : ShmSegment) : Renewed seg seg := ⟨rfl, rfl, rfl, rfl⟩

theorem Renewed.frames {seg seg' : ShmSegment} (h : Renewed seg seg') :
    seg'.frames = seg.frames := by
  unfold ShmSegment.frames
  rw [h.in_use, h.phys_pages, h.num_pages]

theorem Renewed.maps {seg seg' : ShmSegment} {pt : Nat → Option Nat} {v : Vma} {k : Nat}
    (h : Renewed seg seg') (hm : Maps pt seg v k) : Maps pt seg' v k := by
  refine ⟨?_, ?_⟩
  · rw [h.num_pages]
    exact hm.le
  · rw [h.phys_pages]
    exact hm.frame

/-- The segment a call is about. -/
def Call.segment : Call → Option Nat
  | .finished => none
  | .attaching _ _ i _ _ _ _ _ => some i
  | .attached _ _ i _ _ _ => some i
  | .detaching _ _ i _ _ => some i
  | .detached _ _ i => some i

/-- **What a call needs** is its segment, renewed perhaps, and in the space of its process its
    attachment. -/
theorem callOk_keep (h : CallOk s c)
    (hseg : ∀ i, c.segment = some i → ∀ seg, Live s i seg → ∃ seg', Live s' i seg' ∧ Renewed seg seg')
    (hsp : ∀ q, c.of q = true → ∀ sq, s.space? q = some sq → ∃ sq', s'.space? q = some sq' ∧
      ∀ virt, c.target = some (q, virt) → ∀ v ∈ sq.vmas, v.start = virt →
        v ∈ sq'.vmas ∧ ∀ l, sq'.shows l v = sq.shows l v) : CallOk s' c := by
  have hof : ∀ q : Nat, decide (q = q) = true := fun q => decide_eq_true rfl
  cases c with
  | finished => trivial
  | attaching q proc i seq shmaddr shmflg phys n =>
    obtain ⟨⟨sq, h1⟩, seg, h2, h3, h4, h5⟩ := h
    obtain ⟨seg', hl, hr⟩ := hseg i rfl seg h2
    obtain ⟨sq', h1', -⟩ := hsp q (hof q) sq h1
    exact ⟨⟨sq', h1'⟩, seg', hl, hr.seq.trans h3, hr.phys_pages.trans h4, hr.num_pages.trans h5⟩
  | attached q proc i seq virt size =>
    obtain ⟨sq, v, seg, h1, h2, h3, h4, h5, h6⟩ := h
    obtain ⟨seg', hl, hr⟩ := hseg i rfl seg h4
    obtain ⟨sq', h1', hkeep⟩ := hsp q (hof q) sq h1
    obtain ⟨hv, hs⟩ := hkeep virt rfl v h2 h3
    exact ⟨sq', v, seg', h1', hv, h3, hl, hr.frames ▸ (hs _).trans h5, hr.seq.trans h6⟩
  | detaching q proc i virt size =>
    obtain ⟨sq, v, seg, h1, h2, h3, h4, h5, h6⟩ := h
    obtain ⟨seg', hl, hr⟩ := hseg i rfl seg h4
    obtain ⟨sq', h1', hkeep⟩ := hsp q (hof q) sq h1
    obtain ⟨hv, hs⟩ := hkeep virt rfl v h2 h3
    exact ⟨sq', v, seg', h1', hv, h3, hl, hr.frames ▸ (hs _).trans h5, h6⟩
  | detached q proc i =>
    obtain ⟨seg, h1⟩ := h
    obtain ⟨seg', hl, -⟩ := hseg i rfl seg h1
    exact ⟨seg', hl⟩

/-- A call survives a renewal of its segment. -/
theorem callOk_mono (hsp : ∀ q, s'.space? q = s.space? q)
    (hseg : ∀ i, c.segment = some i → ∀ seg, Live s i seg → ∃ seg', Live s' i seg' ∧ Renewed seg seg')
    (h : CallOk s c) : CallOk s' c :=
  callOk_keep h hseg fun q _ sq hq => ⟨sq, (hsp q).trans hq, fun _ _ _ hv _ => ⟨hv, fun _ => rfl⟩⟩

/-- A call survives a change of the spaces that leaves its attachment alone. -/
theorem callOk_spaces (h : CallOk s c) (hsegs : s'.segments = s.segments)
    (hsp : ∀ q, c.of q = true → ∀ sq, s.space? q = some sq → ∃ sq', s'.space? q = some sq' ∧
      ∀ virt, c.target = some (q, virt) → ∀ v ∈ sq.vmas, v.start = virt →
        v ∈ sq'.vmas ∧ ∀ l, sq'.shows l v = sq.shows l v) : CallOk s' c :=
  callOk_keep h (fun _ _ seg hl => ⟨seg, ⟨hsegs ▸ hl.get, hl.in_use⟩, .refl seg⟩) hsp

theorem callOk_congr (hsegs : s'.segments = s.segments) (hsp : ∀ q, s'.space? q = s.space? q)
    (h : CallOk s c) : CallOk s' c :=
  callOk_spaces h hsegs fun q _ sq hq => ⟨sq, (hsp q).trans hq, fun _ _ _ hv _ => ⟨hv, fun _ => rfl⟩⟩

/-- The same for a change of one space. -/
theorem callOk_setSpace (hsp : s.space? p = some sp) (h : CallOk s c)
    (hkeep : ∀ virt, c.target = some (p, virt) → ∀ v ∈ sp.vmas, v.start = virt →
      v ∈ sp'.vmas ∧ ∀ l, sp'.shows l v = sp.shows l v) : CallOk (s.setSpace p sp') c := by
  refine callOk_spaces h rfl fun q _ sq hq => ?_
  rw [space?_setSpace hsp]
  by_cases e : q = p
  · subst e
    obtain rfl := Option.some.inj (hsp.symm.trans hq)
    exact ⟨sp', if_pos rfl, hkeep⟩
  · exact ⟨sq, (if_neg e).trans hq, fun _ _ _ hv _ => ⟨hv, fun _ => rfl⟩⟩

/-- A call that is at an attachment. -/
theorem CallOk.target {virt : Nat} (h : CallOk s c) (ht : c.target = some (p, virt)) :
    ∃ sp v i seg, s.space? p = some sp ∧ v ∈ sp.vmas ∧ v.start = virt ∧ c.segment = some i ∧
      Live s i seg ∧ sp.shows seg.frames v = true := by
  cases c with
  | attached q _ i _ virt' _ =>
    cases ht
    obtain ⟨sp, v, seg, h1, h2, h3, h4, h5, -⟩ := h
    exact ⟨sp, v, i, seg, h1, h2, h3, rfl, h4, h5⟩
  | detaching q _ i virt' _ =>
    cases ht
    obtain ⟨sp, v, seg, h1, h2, h3, h4, h5, -⟩ := h
    exact ⟨sp, v, i, seg, h1, h2, h3, rfl, h4, h5⟩
  | finished => cases ht
  | attaching => cases ht
  | detached => cases ht

theorem mem_setCall (h : c ∈ (s.setCall k c').calls) : c = c' ∨ c ∈ s.calls :=
  (mem_or_eq_of_mem_set h).symm

/-- The calls and their attachments, where the call `k` comes to no attachment of another. -/
theorem targets_set (h : ShmOk pmm₀ s) (hc : ∀ t, c'.target = some t → ∀ (j : Nat) (d : Call),
      j ≠ k → s.calls[j]? = some d → d.target ≠ some t) :
    ∀ (j j' : Nat) (d d' : Call) (t : Nat × Nat), (s.setCall k c').calls[j]? = some d →
      (s.setCall k c').calls[j']? = some d' → d.target = some t → d'.target = some t → j = j' := by
  have hplace : ∀ (j : Nat) (d : Call), (s.setCall k c').calls[j]? = some d →
      j = k ∧ d = c' ∨ j ≠ k ∧ s.calls[j]? = some d := by
    intro j d hd
    have hd' : (s.calls.set k c')[j]? = some d := hd
    by_cases e : k = j
    · subst e
      rw [getElem?_set, if_pos rfl] at hd'
      split_ifs at hd'
      cases hd'
      exact .inl ⟨rfl, rfl⟩
    · rw [getElem?_set_ne e] at hd'
      exact .inr ⟨Ne.symm e, hd'⟩
  intro j j' d d' t hd hd' ht ht'
  rcases hplace j d hd with ⟨rfl, rfl⟩ | ⟨hne, hj⟩
  · rcases hplace j' d' hd' with ⟨rfl, -⟩ | ⟨hne', hj'⟩
    · rfl
    · exact absurd ht' (hc t ht j' d' hne' hj')
  · rcases hplace j' d' hd' with ⟨rfl, rfl⟩ | ⟨-, hj'⟩
    · exact absurd ht (hc t ht' j d hne hj)
    · exact h.targets j j' d d' t hj hj' ht ht'

theorem targets_setCall (h : ShmOk pmm₀ s) (hk : s.calls[k]? = some c)
    (hc : ∀ t, c'.target = some t → c.target = some t) :
    ∀ (j j' : Nat) (d d' : Call) (t : Nat × Nat), (s.setCall k c').calls[j]? = some d →
      (s.setCall k c').calls[j']? = some d' → d.target = some t → d'.target = some t → j = j' :=
  targets_set h fun t ht j d hne hj hd => hne (h.targets k j c d t hk hj (hc t ht) hd).symm

theorem attaches_of_target {q virt : Nat} (h : c.target ≠ some (q, virt)) :
    c.attaches q virt = false := by
  by_contra ha
  rw [Bool.not_eq_false] at ha
  exact h (attaches_target ha)

/-- Who is attached and not counted, after a call has moved on. -/
theorem inFlight_setCall (hk : s.calls[k]? = some c) {q virt : Nat}
    (hc : c.attaches q virt = false) (hc' : c'.attaches q virt = false) :
    (s.setCall k c').inFlight q virt = s.inFlight q virt := by
  rw [Bool.eq_iff_iff, inFlight_iff, inFlight_iff]
  constructor
  · rintro ⟨d, hd, ha⟩
    rcases mem_setCall hd with rfl | hd
    · rw [hc'] at ha
      cases ha
    · exact ⟨d, hd, ha⟩
  · rintro ⟨d, hd, ha⟩
    obtain ⟨j, hj⟩ := mem_iff_getElem?.mp hd
    refine ⟨d, ?_, ha⟩
    have hne : k ≠ j := by
      rintro rfl
      rw [hk] at hj
      cases hj
      rw [hc] at ha
      cases ha
    refine mem_iff_getElem?.mpr ⟨j, ?_⟩
    show (s.calls.set k c')[j]? = some d
    rw [getElem?_set_ne hne, hj]

/-- The attachment of a call that is not counted yet is counted by nobody else. -/
theorem inFlight_setCall_self (h : ShmOk pmm₀ s) (hk : s.calls[k]? = some c) {q virt : Nat}
    (hself : c.target = some (q, virt)) (hc' : c'.attaches q virt = false) :
    (s.setCall k c').inFlight q virt = false := by
  by_contra hf
  rw [Bool.not_eq_false, inFlight_iff] at hf
  obtain ⟨d, hd, ha⟩ := hf
  rcases mem_iff_getElem?.mp hd with ⟨j, hj⟩
  have hj' : (s.calls.set k c')[j]? = some d := hj
  rw [getElem?_set] at hj'
  by_cases e : k = j
  · rw [if_pos e] at hj'
    split_ifs at hj' with hlt
    cases hj'
    rw [hc'] at ha
    cases ha
  · rw [if_neg e] at hj'
    exact e (h.targets k j c d _ hk hj' hself (attaches_target ha))

theorem uncounted_setCall (hk : s.calls[k]? = some c) (c' : Call) (i : Nat) :
    (s.setCall k c').uncounted i + (if c.uncounts i then 1 else 0) =
      s.uncounted i + (if c'.uncounts i then 1 else 0) := by
  obtain ⟨hlt, hget⟩ := List.getElem?_eq_some_iff.mp hk
  have hset : (s.calls.set k c').countP (·.uncounts i) = _ := countP_set hlt
  have hpos : (if c.uncounts i then 1 else 0) ≤ s.calls.countP (·.uncounts i) := by
    split_ifs with hc
    · exact countP_pos_iff.mpr ⟨c, mem_of_getElem? hk, hc⟩
    · exact Nat.zero_le _
  unfold uncounted setCall
  simp only [hset, hget]
  omega

end Steps

/-! ## 9. The steps of a call -/

/-- What a step comes to. -/
def ShmStep (pmm₀ : Pmm) : Except Trap Shm → Prop
  | .error t => t = .integerOverflow
  | .ok s => ShmOk pmm₀ s

section CallSteps

variable {pmm₀ : Pmm} {s : Shm} {p k i : Nat} {sp sp' : Space} {c c' : Call} {seg : ShmSegment}

/-- A new call. -/
theorem ShmOk.start (h : ShmOk pmm₀ s) (hc : CallOk s c) (ha : ∀ q virt, c.attaches q virt = false)
    (hu : ∀ i, c.uncounts i = false)
    (ht : ∀ t, c.target = some t → ∀ d ∈ s.calls, d.target ≠ some t) :
    ShmOk pmm₀ { s with calls := s.calls ++ [c] } := by
  refine ⟨h.pmm, h.books, fun _ _ hl => h.segs _ _ ⟨hl.get, hl.in_use⟩, h.spaces, ?_, ?_, ?_⟩
  · intro d hd
    rcases mem_append.mp hd with hd | hd
    · exact callOk_congr (s := s) rfl (fun _ => rfl) (h.calls d hd)
    · rw [mem_singleton.mp hd]
      exact callOk_congr (s := s) rfl (fun _ => rfl) hc
  · have hplace : ∀ (j : Nat) (d : Call), (s.calls ++ [c])[j]? = some d →
        s.calls[j]? = some d ∨ j = s.calls.length ∧ d = c := by
      intro j d hd
      rcases Nat.lt_or_ge j s.calls.length with hlt | hge
      · rw [getElem?_append_left hlt] at hd
        exact .inl hd
      rw [getElem?_append_right hge] at hd
      obtain ⟨h0, e⟩ := List.getElem?_eq_some_iff.mp hd
      rw [length_singleton] at h0
      exact .inr ⟨by omega, e.symm.trans (by simp)⟩
    intro j j' d d' t hd hd' hdt hdt'
    rcases hplace j d hd with hj | ⟨hj, rfl⟩
    · rcases hplace j' d' hd' with hj' | ⟨-, rfl⟩
      · exact h.targets j j' d d' t hj hj' hdt hdt'
      · exact absurd hdt (ht t hdt' d (mem_of_getElem? hj))
    · rcases hplace j' d' hd' with hj' | ⟨hj', -⟩
      · exact absurd hdt' (ht t hdt d' (mem_of_getElem? hj'))
      · omega
  · intro i seg hl
    have hin : ∀ q virt, Shm.inFlight { s with calls := s.calls ++ [c] } q virt =
        s.inFlight q virt := by
      intro q virt
      simp only [Shm.inFlight, any_append, any_cons, any_nil, ha, Bool.or_false]
    have hset : Shm.settled { s with calls := s.calls ++ [c] } i = s.settled i :=
      count_congr (s := s) rfl fun q => countIn_congr (s := s) rfl fun sp _ v _ => by
        rw [hin]
        rfl
    have hun : Shm.uncounted { s with calls := s.calls ++ [c] } i = s.uncounted i := by
      simp only [Shm.uncounted, countP_append, countP_cons, countP_nil, hu]
      rfl
    rw [hset, hun]
    exact h.counts i seg ⟨hl.get, hl.in_use⟩

/-- A call that ends before it has an attachment. -/
theorem ShmOk.abort (h : ShmOk pmm₀ s) (hk : s.calls[k]? = some c)
    (ha : c.target = none) (hu : ∀ i, c.uncounts i = false) :
    ShmOk pmm₀ (s.setCall k .finished) := by
  refine ⟨h.pmm, h.books, fun _ _ hl => h.segs _ _ ⟨hl.get, hl.in_use⟩, h.spaces, ?_, targets_setCall h hk (fun t ht => nomatch ht), ?_⟩
  · intro d hd
    rcases mem_setCall hd with rfl | hd
    · trivial
    · exact callOk_congr (s := s) rfl (fun _ => rfl) (h.calls d hd)
  intro i seg hl
  have hset : (s.setCall k .finished).settled i = s.settled i :=
    count_congr (s := s) rfl fun q => countIn_congr (s := s) rfl fun sp _ v _ => by
      rw [inFlight_setCall hk (attaches_of_target (by rw [ha]; exact nofun)) rfl]
      rfl
  have hun := uncounted_setCall hk .finished i
  rw [hu, show Call.finished.uncounts i = false from rfl] at hun
  rw [hset, h.counts i seg ⟨hl.get, hl.in_use⟩]
  omega

/-- Attached, and not counted yet. -/
theorem ShmOk.attach (h : ShmOk pmm₀ s) {proc : Cred} {seq : BitVec 16} {shmaddr : Nat}
    {shmflg : BitVec 32} {phys n virt prot size : Nat}
    (hk : s.calls[k]? = some (.attaching p proc i seq shmaddr shmflg phys n))
    (hsp : s.space? p = some sp) (hr : Room sp virt n) :
    ShmOk pmm₀ ((s.setSpace p (sp.attach virt phys n prot)).setCall k
      (.attached p proc i seq virt size)) := by
  obtain ⟨-, seg, hl, hseq, rfl, hn⟩ := h.calls _ (mem_of_getElem? hk)
  have h0 : 0 < n := hn ▸ (h.segs i seg hl).pages
  have hok := h.spaces p sp hsp
  have hok' := hok.attach prot hr hl.get hl.in_use hn h0
  have hold : ∀ w ∈ sp.vmas, w.start ≠ virt := by
    intro w hw e
    have hlt := (hok.vma w hw).lt
    have hnew := (hr.pages prot h0).lt
    rcases hok.room_apart prot hr h0 hw with hap | hap
    · change virt + n * PAGE_SIZE ≤ w.start at hap
      change virt < virt + n * PAGE_SIZE at hnew
      omega
    · change w.stop ≤ virt at hap
      omega
  have hmem : ∀ w, w ∈ (sp.attach virt seg.phys_pages n prot).vmas ↔
      w = attachVma virt n prot ∨ w ∈ sp.vmas := fun w =>
    (insertVma_perm _ _).mem_iff.trans mem_cons
  refine ⟨h.pmm, h.books, fun _ _ hl => h.segs _ _ ⟨hl.get, hl.in_use⟩, ?_, ?_, ?_, ?_⟩
  · intro q sq hq
    have hq' := (space?_setSpace hsp q).symm.trans hq
    split_ifs at hq' with e
    · cases hq'
      exact hok'
    · exact h.spaces q sq hq'
  · intro d hd
    rcases mem_setCall hd with rfl | hd
    · refine ⟨_, attachVma virt n prot, seg, (space?_setSpace hsp p).trans (if_pos rfl),
        (hmem _).mpr (.inl rfl), rfl, ⟨hl.get, hl.in_use⟩, ?_, hseq⟩
      have hv := hok'.vma _ ((hmem _).mpr (.inl rfl))
      obtain ⟨j, seg', k', hj, hu', hm⟩ := hv.maps
      -- the first page has the first frame of the segment
      have hfirst : (sp.attach virt seg.phys_pages n prot).pt (virt / PAGE_SIZE) =
          some (seg.phys_pages / PAGE_SIZE) := by
        show mapRange sp.pt virt seg.phys_pages (n * PAGE_SIZE) (virt / PAGE_SIZE) = _
        unfold mapRange
        rw [mul_div_page, if_pos (by omega), Nat.sub_self]
        rfl
      unfold Space.shows
      rw [show (attachVma virt n prot).start = virt from rfl, hfirst, Option.any_some,
        decide_eq_true_eq, hl.frames, mem_range'_1]
      omega
    · refine callOk_congr (s := s.setSpace p _) rfl (fun _ => rfl)
        (callOk_setSpace hsp (h.calls d hd) ?_)
      intro _ _ v hv _
      exact ⟨(hmem v).mpr (.inr hv), fun l => hok.attach_shows prot hr _ hv l⟩
  · -- no other call is at this address
    have hfresh : ∀ d ∈ s.calls, d.target ≠ some (p, virt) := by
      intro d hd ht
      obtain ⟨sq, v, -, -, h1, h2, h3, -⟩ := (h.calls d hd).target ht
      obtain rfl := Option.some.inj (hsp.symm.trans h1)
      exact hold v h2 h3
    refine targets_set (s := s) (k := k) h fun t ht j d _ hj hd => ?_
    cases ht
    exact hfresh d (mem_of_getElem? hj) hd
  intro j segj hj
  -- the new attachment is on its way, the old ones count as before
  have hin : ∀ q v, (q, v) ≠ (p, virt) →
      (s.setCall k (.attached p proc i seq virt size)).inFlight q v = s.inFlight q v := by
    intro q v hne
    refine inFlight_setCall hk rfl ?_
    simp only [Call.attaches, Bool.and_eq_false_iff, decide_eq_false_iff_not]
    by_contra hno
    push Not at hno
    exact hne (by rw [hno.1, hno.2])
  have hself : (s.setCall k (.attached p proc i seq virt size)).inFlight p virt = true := by
    refine inFlight_iff.mpr ⟨.attached p proc i seq virt size, ?_, by simp [Call.attaches]⟩
    exact mem_set (List.getElem?_eq_some_iff.mp hk).1 _
  have hset : ((s.setSpace p (sp.attach virt seg.phys_pages n prot)).setCall k
      (.attached p proc i seq virt size)).settled j = s.settled j := by
    refine count_congr (length_set) fun q => ?_
    by_cases e : q = p
    · subst e
      refine (countIn_some (s := (s.setSpace q (sp.attach virt seg.phys_pages n prot)).setCall k
        (.attached q proc i seq virt size)) ((space?_setSpace hsp q).trans (if_pos rfl))).trans ?_
      rw [countIn_some hsp]
      refine ((insertVma_perm _ _).countP_eq _).trans ?_
      rw [countP_cons]
      have hnew : ((sp.attach virt seg.phys_pages n prot).shows
          (Shm.framesOf s j) (attachVma virt n prot) &&
          !(s.setCall k (.attached q proc i seq virt size)).inFlight q virt) = false := by
        rw [hself, Bool.not_true, Bool.and_false]
      refine (congrArg₂ (· + ·) (countP_congr fun w hw => ?_) (if_neg ?_)).trans (Nat.add_zero _)
      · show _ ↔ (sp.shows (s.framesOf j) w && !s.inFlight q w.start) = true
        rw [← hok.attach_shows prot hr seg.phys_pages hw,
          ← hin q w.start fun e => hold w hw (Prod.mk.inj e).2]
        rfl
      · exact fun ht => Bool.false_ne_true (hnew.symm.trans ht)
    · refine countIn_congr ((space?_setSpace hsp q).trans (if_neg e)) fun sq _ w _ => ?_
      show (_ && !(s.setCall k _).inFlight q w.start) = _
      rw [hin q w.start fun e' => e (Prod.mk.inj e').1]
      rfl
  have hun : ((s.setSpace p (sp.attach virt seg.phys_pages n prot)).setCall k
      (.attached p proc i seq virt size)).uncounted j = s.uncounted j :=
    uncounted_setCall hk (.attached p proc i seq virt size) j
  rw [hset, hun]
  exact h.counts j segj ⟨hj.get, hj.in_use⟩

end CallSteps

/-! ## 10. Counting an attachment -/

section CountSteps

variable {pmm₀ : Pmm} {s : Shm} {p k i j : Nat} {sp sp' : Space} {c c' : Call}
  {seg seg' : ShmSegment} {proc : Cred}

theorem live_set {s' : Shm} (hs : s'.segments = s.segments.set i seg') (hi : i < s.segments.length)
    {x : ShmSegment} (h : Live s' j x) : j = i ∧ x = seg' ∨ j ≠ i ∧ Live s j x := by
  have hg := h.get
  rw [hs] at hg
  by_cases e : i = j
  · subst e
    rw [getElem?_set_self hi] at hg
    cases hg
    exact .inl ⟨rfl, rfl⟩
  · rw [getElem?_set_ne e] at hg
    exact .inr ⟨Ne.symm e, hg, h.in_use⟩

theorem Live.lt (h : Live s i seg) : i < s.segments.length := (List.getElem?_eq_some_iff.mp h.get).1

theorem Live.set_ne {s' : Shm} (hs : s'.segments = s.segments.set i seg') {x : ShmSegment}
    (h : Live s j x) (hne : j ≠ i) : Live s' j x :=
  ⟨by rw [hs, getElem?_set_ne hne.symm, h.get], h.in_use⟩

theorem Live.setSegment (hl : Live s i seg) (hr : Renewed seg seg') {x : ShmSegment}
    (h : Live s j x) : ∃ y, Live (s.setSegment i seg') j y ∧ Renewed x y := by
  by_cases e : i = j
  · subst e
    obtain rfl := hl.unique h
    exact ⟨seg', ⟨getElem?_set_self (List.getElem?_eq_some_iff.mp hl.get).1,
      hr.in_use.trans hl.in_use⟩, hr⟩
  · exact ⟨x, h.set_ne rfl (Ne.symm e), .refl x⟩

theorem framesOf_setSegment (hl : Live s i seg) (hr : Renewed seg seg') (j : Nat) :
    (s.setSegment i seg').framesOf j = s.framesOf j := by
  unfold Shm.framesOf Shm.setSegment
  by_cases e : i = j
  · subst e
    rw [getElem?_set_self (List.getElem?_eq_some_iff.mp hl.get).1, hl.get, Option.map_some,
      Option.map_some, hr.frames]
  · rw [getElem?_set_ne e]

theorem frames_setSegment (hl : Live s i seg) (hr : Renewed seg seg') :
    (s.setSegment i seg').frames = s.frames := by
  obtain ⟨hlt, hget⟩ := List.getElem?_eq_some_iff.mp hl.get
  have hmap : (s.segments.set i seg').map ShmSegment.frames = s.segments.map ShmSegment.frames := by
    refine ext_getElem (by simp) fun n h1 h2 => ?_
    rw [getElem_map, getElem_map, getElem_set]
    split_ifs with e
    · subst e
      rw [hr.frames, ← hget]
    · rfl
  unfold Shm.frames Shm.setSegment
  rw [flatMap_def, flatMap_def, hmap]

theorem SpaceOk.mono {segments segments' : List ShmSegment} (h : SpaceOk segments sp)
    (hm : ∀ v ∈ sp.vmas, ∀ (i : Nat) (seg : ShmSegment) (k : Nat), segments[i]? = some seg →
      seg.in_use = true → Maps sp.pt seg v k →
      ∃ (j : Nat) (seg' : ShmSegment), segments'[j]? = some seg' ∧ seg'.in_use = true ∧
        Renewed seg seg') : SpaceOk segments' sp := by
  refine ⟨h.sorted, fun v hv => ?_, h.covered⟩
  obtain ⟨i, seg, k, hi, hu, hmaps⟩ := (h.vma v hv).maps
  obtain ⟨j, seg', hj, hu', hr⟩ := hm v hv i seg k hi hu hmaps
  exact ⟨(h.vma v hv).toPages, (h.vma v hv).top, (h.vma v hv).device, j, seg', k, hj, hu',
    hr.maps hmaps⟩

/-- Renewing a segment, and a call that has no attachment after it. -/
theorem ShmOk.renew (h : ShmOk pmm₀ s) (hl : Live s i seg) (seg' : ShmSegment)
    (hr : Renewed seg seg') (hmarked : seg'.marked_for_deletion = true → 0 < seg'.attach_count)
    (calls : List Call)
    (hcalls : ∀ c ∈ calls, c = .finished ∨ c ∈ s.calls)
    (htargets : ∀ (j j' : Nat) (d d' : Call) (t : Nat × Nat), calls[j]? = some d →
      calls[j']? = some d' → d.target = some t → d'.target = some t → j = j')
    (hcounts : ∀ j, ({ s with calls := calls }.settled j) + ({ s with calls := calls }.uncounted j) +
        (if j = i then seg.attach_count else 0) =
      s.settled j + s.uncounted j + (if j = i then seg'.attach_count else 0)) :
    ShmOk pmm₀ { s.setSegment i seg' with calls := calls } := by
  have hfr := frames_setSegment hl hr
  refine ⟨h.pmm, ?_, ?_, ?_, ?_, htargets, ?_⟩
  · show Books pmm₀ s.pmm ((s.setSegment i seg').frames ++ s.others)
    rw [hfr]
    exact h.books
  · intro j x hx
    rcases live_set rfl hl.lt hx with ⟨-, rfl⟩ | ⟨-, hx⟩
    · have hseg := h.segs i seg hl
      exact ⟨hr.phys_pages ▸ hseg.aligned, hr.num_pages ▸ hseg.pages, hmarked⟩
    · exact h.segs j x hx
  · intro q sq hq
    refine (h.spaces q sq hq).mono fun v _ j x k hx hu _ => ?_
    obtain ⟨y, hy, hry⟩ := hl.setSegment hr ⟨hx, hu⟩
    exact ⟨j, y, hy.get, hy.in_use, hry⟩
  · intro c hc
    rcases hcalls c hc with rfl | hc
    · trivial
    · refine callOk_mono (s := s) (fun _ => rfl) (fun j _ x hx => ?_) (h.calls c hc)
      obtain ⟨y, hy, hry⟩ := hl.setSegment hr hx
      exact ⟨y, ⟨hy.get, hy.in_use⟩, hry⟩
  intro j x hx
  have hset : Shm.settled { s.setSegment i seg' with calls := calls } j =
      Shm.settled { s with calls := calls } j := by
    refine count_congr rfl fun q => countIn_congr rfl fun sq _ v _ => ?_
    show (sq.shows ((s.setSegment i seg').framesOf j) v && _) = _
    rw [framesOf_setSegment hl hr]
    rfl
  have hsum := hcounts j
  have hun : Shm.uncounted { s.setSegment i seg' with calls := calls } j =
      Shm.uncounted { s with calls := calls } j := rfl
  rw [hset, hun]
  rcases live_set rfl hl.lt hx with ⟨rfl, rfl⟩ | ⟨hne, hx⟩
  · have := h.counts j seg hl
    rw [if_pos rfl, if_pos rfl] at hsum
    omega
  · have := h.counts j x hx
    rw [if_neg hne, if_neg hne] at hsum
    omega

/-- The attachment of a `shmat` that ends is counted from now on. -/
theorem settled_finish (h : ShmOk pmm₀ s) {seq : BitVec 16} {virt size : Nat}
    (hk : s.calls[k]? = some (.attached p proc i seq virt size)) (j : Nat) :
    (s.setCall k .finished).settled j = s.settled j + (if j = i then 1 else 0) := by
  obtain ⟨sp, v, seg, hsp, hv, rfl, hl, hshows, -⟩ := h.calls _ (mem_of_getElem? hk)
  have hok := h.spaces p sp hsp
  rw [← hl.framesOf] at hshows
  obtain ⟨-, -, -, -, hall⟩ := (hok.vma v hv).shows_unique h.books.toOwns hshows
  have hself : (s.setCall k .finished).inFlight p v.start = false :=
    inFlight_setCall_self h hk rfl rfl
  have hother : ∀ q virt, (q, virt) ≠ (p, v.start) →
      (s.setCall k .finished).inFlight q virt = s.inFlight q virt := by
    intro q virt hne
    exact inFlight_setCall hk (attaches_of_target fun e => hne (Option.some.inj e).symm) rfl
  have hbefore : s.inFlight p v.start = true :=
    inFlight_iff.mpr ⟨_, mem_of_getElem? hk, by simp [attaches]⟩
  have hchange : (s.setCall k .finished).settled j +
        s.countIn (fun p sp v => sp.shows (s.framesOf j) v && !s.inFlight p v.start) p =
      s.settled j + (s.setCall k .finished).countIn
        (fun p sp v => sp.shows ((s.setCall k .finished).framesOf j) v &&
          !(s.setCall k .finished).inFlight p v.start) p :=
    count_change rfl (space?_lt hsp) fun q hq => countIn_congr rfl fun sq _ w _ => by
      rw [hother q w.start fun e => hq (Prod.mk.inj e).1]
      rfl
  have hcount : sp.vmas.countP (fun w => sp.shows (s.framesOf j) w &&
        !(s.setCall k .finished).inFlight p w.start) =
      sp.vmas.countP (fun w => sp.shows (s.framesOf j) w && !s.inFlight p w.start) +
        (if j = i then 1 else 0) := by
    have hrest : ∀ w ∈ sp.vmas, w ≠ v →
        (sp.shows (s.framesOf j) w && !(s.setCall k .finished).inFlight p w.start) =
          (sp.shows (s.framesOf j) w && !s.inFlight p w.start) := by
      intro w hw hne
      rw [hother p w.start fun e => hne (hok.eq_of_start hw hv (Prod.mk.inj e).2)]
    refine countP_add_if hok.nodup hv ?_ ?_ hrest
    · rw [hbefore, Bool.not_true, Bool.and_false]
    · rw [hself, hall, Bool.not_false, Bool.and_true]
  rw [countIn_some hsp, countIn_some (s := s.setCall k .finished) hsp] at hchange
  have hcount' : sp.vmas.countP (fun w => sp.shows ((s.setCall k .finished).framesOf j) w &&
      !(s.setCall k .finished).inFlight p w.start) = _ := hcount
  omega

/-- **The count of `shmat`.** -/
theorem ShmOk.count (h : ShmOk pmm₀ s) {seq : BitVec 16} {virt size : Nat}
    (hk : s.calls[k]? = some (.attached p proc i seq virt size)) (hl : Live s i seg) :
    ShmOk pmm₀ ((s.setSegment i
      { seg with attach_count := seg.attach_count + 1, lpid := proc.pid }).setCall k .finished) := by
  refine h.renew hl { seg with attach_count := seg.attach_count + 1, lpid := proc.pid }
    ⟨rfl, rfl, rfl, rfl⟩ (fun _ => Nat.succ_pos _) (s.calls.set k .finished) (fun c hc => mem_setCall (s := s) hc) (targets_setCall h hk (fun t ht => nomatch ht)) fun j => ?_
  have hset := settled_finish h hk j
  have hun := uncounted_setCall hk .finished j
  have h1 : (if (attached p proc i seq virt size).uncounts j then 1 else 0) = 0 := rfl
  have h2 : (if finished.uncounts j then 1 else 0) = 0 := rfl
  show (s.setCall k .finished).settled j + (s.setCall k .finished).uncounted j + _ = _
  by_cases e : j = i
  · simp only [if_pos e] at *
    omega
  · simp only [if_neg e] at *
    omega

end CountSteps

/-! ## 11. Unmapping an attachment -/

section CutSteps

variable {pmm₀ : Pmm} {s : Shm} {p k i j a e : Nat} {sp sp' : Space} {v w : Vma} {c : Call}
  {seg : ShmSegment} {proc : Cred}

theorem not_overlaps (hv : Pages v) (ha : a % PAGE_SIZE = 0) (he : e % PAGE_SIZE = 0)
    (h : ¬ v.overlaps a e = true) : ¬(a / PAGE_SIZE ≤ v.start / PAGE_SIZE ∧
      v.start / PAGE_SIZE < e / PAGE_SIZE) := by
  obtain ⟨h1, h2, h3⟩ := hv
  rw [overlaps_iff] at h
  simp only [PAGE_SIZE] at *
  omega

/-- An attachment that the range misses shows what it showed. -/
theorem CutSpace.shows_kept (h : CutSpace sp sp' a e) (hv : Pages v) (ha : a % PAGE_SIZE = 0)
    (he : e % PAGE_SIZE = 0) (ho : ¬ v.overlaps a e = true) (l : List Nat) :
    sp'.shows l v = sp.shows l v := by
  have hout := not_overlaps hv ha he ho
  have hpage : sp'.pt (v.start / PAGE_SIZE) = sp.pt (v.start / PAGE_SIZE) := by
    refine Option.ext fun f => ?_
    rw [h.pt]
    exact ⟨fun hp => hp.1, fun hp => ⟨hp, fun hr => hout ⟨hr.1, hr.2.1⟩⟩⟩
  unfold Space.shows
  rw [hpage]

theorem cut_kept (ho : ¬ v.overlaps a e = true) : cut a e v = some v := if_neg ho

/-- What is left of an attachment is one of the same segment. -/
theorem CutSpace.shows_cut (h : CutSpace sp sp' a e) (hb : Owns s.pmm (s.frames ++ s.others))
    (hv : VmaOk s.segments sp v) (ha : a % PAGE_SIZE = 0) (he : e % PAGE_SIZE = 0)
    (hun : Unsplit a e v) (hc : cut a e v = some w) (j : Nat) :
    sp'.shows (s.framesOf j) w = sp.shows (s.framesOf j) v := by
  obtain ⟨i, seg, k, hi, hu, hm⟩ := hv.maps
  have hl : Live s i seg := ⟨hi, hu⟩
  obtain ⟨k', hm'⟩ := h.maps hv.toPages ha he hun hc hm
  rw [hm.shows_framesOf hb hl hv.toPages,
    hm'.shows_framesOf hb hl (cut_within hv.toPages ha he hun hc).1]

theorem countP_filterMap_any {α β : Type} (f : α → Option β) (q : β → Bool) (l : List α) :
    (l.filterMap f).countP q = l.countP fun x => (f x).any q := by
  induction l with
  | nil => rfl
  | cons x l ih =>
    rw [filterMap_cons, countP_cons]
    cases hx : f x with
    | none => simpa using ih
    | some y => simp only [countP_cons, ih, Option.any_some]

/-- The attachments counted before and after a change of one space. -/
theorem settled_cutSpace (hsp : s.space? p = some sp) (h : CutSpace sp sp' a e) (calls : List Call)
    (hin : ∀ q virt, inFlight { s with calls := calls } q virt = s.inFlight q virt) (j : Nat) :
    settled { s.setSpace p sp' with calls := calls } j +
        sp.vmas.countP (fun w => sp.shows (s.framesOf j) w && !s.inFlight p w.start) =
      s.settled j + sp.vmas.countP fun w =>
        (cut a e w).any fun w' => sp'.shows (s.framesOf j) w' && !s.inFlight p w'.start := by
  have hchange : settled { s.setSpace p sp' with calls := calls } j +
        s.countIn (fun p sp v => sp.shows (s.framesOf j) v && !s.inFlight p v.start) p =
      s.settled j + countIn { s.setSpace p sp' with calls := calls }
        (fun p sp v => sp.shows (s.framesOf j) v &&
          !inFlight { s with calls := calls } p v.start) p :=
    count_change length_set (space?_lt hsp) fun q hq =>
      countIn_congr ((space?_setSpace hsp q).trans (if_neg hq)) fun sq _ w _ => by
        rw [← hin]
        rfl
  rw [countIn_some hsp, countIn_some (s := { s.setSpace p sp' with calls := calls })
    ((space?_setSpace hsp p).trans (if_pos rfl)), h.vmas, countP_filterMap_any] at hchange
  simpa only [hin] using hchange

/-- Cutting in one space keeps everything but the counts. -/
theorem ShmOk.cutSpace (h : ShmOk pmm₀ s) (hsp : s.space? p = some sp) (hcut : CutSpace sp sp' a e)
    (ha : a % PAGE_SIZE = 0) (he : e % PAGE_SIZE = 0) (hun : ∀ v ∈ sp.vmas, Unsplit a e v)
    (calls : List Call) (hcalls : ∀ c ∈ calls, CallOk (s.setSpace p sp') c)
    (htargets : ∀ (j j' : Nat) (d d' : Call) (t : Nat × Nat), calls[j]? = some d →
      calls[j']? = some d' → d.target = some t → d'.target = some t → j = j')
    (hcounts : ∀ j, Shm.settled { s.setSpace p sp' with calls := calls } j +
      Shm.uncounted { s with calls := calls } j = s.settled j + s.uncounted j) :
    ShmOk pmm₀ { s.setSpace p sp' with calls := calls } := by
  refine ⟨h.pmm, h.books, fun _ _ hl => h.segs _ _ ⟨hl.get, hl.in_use⟩, ?_, ?_, htargets, ?_⟩
  · intro q sq hq
    have hq' := (space?_setSpace hsp q).symm.trans hq
    split_ifs at hq' with e
    · cases hq'
      exact (h.spaces p sp hsp).cut hcut ha he hun
    · exact h.spaces q sq hq'
  · intro c hc
    exact callOk_congr (s := s.setSpace p sp') rfl (fun _ => rfl) (hcalls c hc)
  · intro j seg hl
    exact (h.counts j seg ⟨hl.get, hl.in_use⟩).trans (hcounts j).symm

/-- The range takes at most an end of an attachment at which no call is. -/
def Harmless (s : Shm) (p a e : Nat) (v : Vma) : Prop :=
  v.overlaps a e = true → Trims a e v ∧ ∀ c ∈ s.calls, c.target ≠ some (p, v.start)

theorem Trims.unsplit (h : Trims a e v) : Unsplit a e v := by
  unfold Unsplit
  rcases h with h | h
  · omega
  · omega

/-- No call is at the new start of an attachment. -/
theorem inFlight_within (h : ShmOk pmm₀ s) (hsp : s.space? p = some sp) (hv : v ∈ sp.vmas)
    (hfree : ∀ c ∈ s.calls, c.target ≠ some (p, v.start)) {virt : Nat} (h1 : v.start ≤ virt)
    (h2 : virt < v.stop) : s.inFlight p virt = false := by
  have hok := h.spaces p sp hsp
  by_contra hf
  rw [Bool.not_eq_false, inFlight_iff] at hf
  obtain ⟨c, hc, ha⟩ := hf
  have ht := attaches_target ha
  obtain ⟨sq, w, -, -, hq, hw, hstart, -⟩ := (h.calls c hc).target ht
  obtain rfl := Option.some.inj (hsp.symm.trans hq)
  by_cases e : w = v
  · subst e
    exact hfree c hc (hstart ▸ ht)
  have hlt := (hok.vma w hw).lt
  rcases hok.apart hw hv e with hap | hap
  · omega
  · omega

/-- **munmap of ends of attachments.** -/
theorem ShmOk.trim (h : ShmOk pmm₀ s) (hsp : s.space? p = some sp) (hcut : CutSpace sp sp' a e)
    (ha : a % PAGE_SIZE = 0) (he : e % PAGE_SIZE = 0) (hall : ∀ v ∈ sp.vmas, Harmless s p a e v)
    (hun : ∀ v ∈ sp.vmas, Unsplit a e v) : ShmOk pmm₀ (s.setSpace p sp') := by
  have hok := h.spaces p sp hsp
  refine h.cutSpace hsp hcut ha he hun s.calls (fun c hc => ?_) h.targets fun j => ?_
  · refine callOk_setSpace hsp (h.calls c hc) fun virt ht v hv hstart => ?_
    have ho : ¬ v.overlaps a e = true := fun ho => (hall v hv ho).2 c hc (by rw [ht, hstart])
    refine ⟨hcut.vmas ▸ mem_filterMap.mpr ⟨v, hv, cut_kept ho⟩, ?_⟩
    exact hcut.shows_kept (hok.vma v hv).toPages ha he ho
  have hset := settled_cutSpace hsp hcut s.calls (fun _ _ => rfl) j
  have hsame : sp.vmas.countP (fun w => (cut a e w).any fun w' =>
        sp'.shows (s.framesOf j) w' && !s.inFlight p w'.start) =
      sp.vmas.countP fun w => sp.shows (s.framesOf j) w && !s.inFlight p w.start := by
    refine countP_congr fun v hv => ?_
    have hvok := hok.vma v hv
    by_cases ho : v.overlaps a e = true
    · obtain ⟨htrim, hfree⟩ := hall v hv ho
      have hself := inFlight_within h hsp hv hfree (le_refl _) hvok.lt
      rcases cut_outcome (hun v hv) with ⟨hno, -⟩ | ⟨h1, h2, -⟩ | ⟨h1, h2, h3, hc⟩ | ⟨h1, h2, h3, hc⟩
      · exact absurd ho hno
      · unfold Trims at htrim
        omega
      · rw [hc, Option.any_some, hcut.shows_cut h.books.toOwns hvok ha he (hun v hv) hc, hself,
          inFlight_within h hsp hv hfree h2.le h3]
      · rw [hc, Option.any_some, hcut.shows_cut h.books.toOwns hvok ha he (hun v hv) hc]
    · rw [cut_kept ho, Option.any_some, hcut.shows_kept hvok.toPages ha he ho]
  change _ + s.uncounted j = _
  omega

/-- **shmdt unmaps its attachment**, which stays counted until the call is back at the lock. -/
theorem ShmOk.unmap (h : ShmOk pmm₀ s) {virt size : Nat}
    (hk : s.calls[k]? = some (.detaching p proc i virt size)) (hsp : s.space? p = some sp)
    (hcut : CutSpace sp sp' virt (virt + size)) :
    ShmOk pmm₀ ((s.setSpace p sp').setCall k (.detached p proc i)) := by
  obtain ⟨sq, v, seg, h1, hv, rfl, hl, hshows, hstop⟩ := h.calls _ (mem_of_getElem? hk)
  obtain rfl := Option.some.inj (hsp.symm.trans h1)
  have hok := h.spaces p sp hsp
  have hvok := hok.vma v hv
  rw [← hstop] at hcut
  rw [← hl.framesOf] at hshows
  obtain ⟨-, -, -, -, hone⟩ := hvok.shows_unique h.books.toOwns hshows
  have hmiss : ∀ w ∈ sp.vmas, w ≠ v → ¬ w.overlaps v.start v.stop = true := by
    intro w hw hne ho
    rw [overlaps_iff] at ho
    rcases hok.apart hw hv hne with hap | hap
    · omega
    · omega
  have hun : ∀ w ∈ sp.vmas, Unsplit v.start v.stop w := by
    intro w hw hs
    by_cases e : w = v
    · subst e
      omega
    · have hlt := hvok.lt
      exact hmiss w hw e (overlaps_iff.mpr ⟨by omega, by omega⟩)
  have hgone : cut v.start v.stop v = none := by
    have ho : v.overlaps v.start v.stop = true := overlaps_iff.mpr ⟨hvok.lt, hvok.lt⟩
    unfold cut
    rw [if_pos ho, if_pos ⟨le_refl _, le_refl _⟩]
  have hin : ∀ q virt, (s.setCall k (.detached p proc i)).inFlight q virt = s.inFlight q virt :=
    fun q virt => inFlight_setCall hk rfl rfl
  have hself : s.inFlight p v.start = false := by
    rw [← hin]
    exact inFlight_setCall_self h hk rfl rfl
  refine h.cutSpace hsp hcut hvok.start hvok.stop hun (s.calls.set k (.detached p proc i)) ?_
    (targets_setCall h hk (fun t ht => nomatch ht)) fun j => ?_
  · intro c hc
    rcases mem_iff_getElem?.mp hc with ⟨m, hm⟩
    by_cases e : k = m
    · subst e
      rw [getElem?_set_self (List.getElem?_eq_some_iff.mp hk).1] at hm
      cases hm
      exact ⟨seg, hl.get, hl.in_use⟩
    rw [getElem?_set_ne e] at hm
    refine callOk_setSpace hsp (h.calls c (mem_of_getElem? hm)) fun virt ht w hw hstart => ?_
    have hne : w ≠ v := by
      rintro rfl
      exact e (h.targets k m _ c _ hk hm rfl (hstart ▸ ht))
    refine ⟨hcut.vmas ▸ mem_filterMap.mpr ⟨w, hw, cut_kept (hmiss w hw hne)⟩, ?_⟩
    exact hcut.shows_kept (hok.vma w hw).toPages hvok.start hvok.stop (hmiss w hw hne)
  have hset := settled_cutSpace hsp hcut (s.calls.set k (.detached p proc i)) hin j
  have hrest : ∀ w ∈ sp.vmas, w ≠ v → ((cut v.start v.stop w).any fun w' =>
      sp'.shows (s.framesOf j) w' && !s.inFlight p w'.start) =
        (sp.shows (s.framesOf j) w && !s.inFlight p w.start) := by
    intro w hw hne
    rw [cut_kept (hmiss w hw hne), Option.any_some,
      hcut.shows_kept (hok.vma w hw).toPages hvok.start hvok.stop (hmiss w hw hne)]
  have hcount : sp.vmas.countP (fun w => sp.shows (s.framesOf j) w && !s.inFlight p w.start) =
      sp.vmas.countP (fun w => (cut v.start v.stop w).any fun w' =>
        sp'.shows (s.framesOf j) w' && !s.inFlight p w'.start) + (if j = i then 1 else 0) := by
    refine countP_add_if hok.nodup hv ?_ ?_ fun w hw hne => (hrest w hw hne).symm
    · rw [hgone]
      rfl
    · rw [hself, hone, Bool.not_false, Bool.and_true]
  have hunc := uncounted_setCall hk (.detached p proc i) j
  have h2 : (if (detaching p proc i v.start size).uncounts j then 1 else 0) = 0 := rfl
  have h3 : (if (detached p proc i).uncounts j then 1 else 0) = if j = i then 1 else 0 := by
    by_cases e : j = i
    · simp [uncounts, e]
    · simp [uncounts, e, Ne.symm e]
  have hunc' : (uncounted { s with calls := s.calls.set k (.detached p proc i) } j) =
      (s.setCall k (.detached p proc i)).uncounted j := rfl
  omega

end CutSteps

/-! ## 12. The frames of a segment -/

section Books

variable {pmm₀ pmm pmm' : Pmm} {l r : List Nat}

theorem Books.perm (h : Books pmm₀ pmm l) (hp : l.Perm r) : Books pmm₀ pmm r :=
  ⟨h.toOwns.perm hp, fun f => (h.refs f).trans (by rw [hp.count_eq])⟩

theorem Books.take (h : Books pmm₀ pmm l) (ht : Takes pmm pmm' r) (hr : r.Nodup) :
    Books pmm₀ pmm' (r ++ l) := by
  refine ⟨h.toOwns.take ht hr, fun f => ?_⟩
  rw [ht.refs, count_append]
  by_cases hf : f ∈ r
  · have hzero := (ht.free f hf).2
    have hbook := h.refs f
    rw [if_pos hf, count_eq_one_of_mem hr hf]
    omega
  · rw [if_neg hf, count_eq_zero_of_not_mem hf, h.refs]
    omega

/-- Frames that are owned and given back are as they were at first. -/
theorem Books.back (h : Books pmm₀ pmm (r ++ l)) (ho : Owns pmm' l)
    (hrefs : ∀ f, pmm'.refs f = if f ∈ r then 0 else pmm.refs f) : Books pmm₀ pmm' l := by
  refine ⟨ho, fun f => ?_⟩
  have hbook := h.refs f
  rw [count_append] at hbook
  rw [hrefs]
  by_cases hf : f ∈ r
  · have hheld := (h.held f (mem_append_left l hf)).2
    have hpos := count_pos_iff.mpr hf
    have hnot : l.count f = 0 := count_eq_zero_of_not_mem fun hl =>
      (nodup_append.mp h.nodup).2.2 f hf f hl rfl
    rw [if_pos hf]
    omega
  · rw [if_neg hf]
    rw [count_eq_zero_of_not_mem hf] at hbook
    omega

theorem Books.freeFrames (debug : Bool) (hp : PmmOk pmm) {q n : Nat}
    (h : Books pmm₀ pmm (List.range' q n ++ l)) :
    ∃ pmm', Mm.freeFrames debug pmm (q * PAGE_SIZE) n = .ok pmm' ∧ PmmOk pmm' ∧
      Books pmm₀ pmm' l := by
  obtain ⟨pmm', hfree, hok, -, hown, hrefs⟩ := Mm.freeFrames_spec debug hp h.toOwns
  exact ⟨pmm', hfree, hok, h.back hown hrefs⟩

end Books

section SegmentSteps

variable {pmm₀ : Pmm} {s : Shm} {p k i : Nat} {sp sp' : Space} {c : Call} {seg : ShmSegment}
  {proc : Cred}

theorem frames_perm_get {segments : List ShmSegment} (hi : segments[i]? = some seg) :
    (segments.flatMap ShmSegment.frames).Perm
      (seg.frames ++ (segments.eraseIdx i).flatMap ShmSegment.frames) := by
  obtain ⟨hlt, rfl⟩ := List.getElem?_eq_some_iff.mp hi
  exact (getElem_cons_eraseIdx_perm hlt).symm.flatMap_right _

theorem frames_perm_set {segments : List ShmSegment} (hi : segments[i]? = some seg)
    (seg' : ShmSegment) : ((segments.set i seg').flatMap ShmSegment.frames).Perm
      (seg'.frames ++ (segments.eraseIdx i).flatMap ShmSegment.frames) := by
  obtain ⟨hlt, -⟩ := List.getElem?_eq_some_iff.mp hi
  exact (set_perm_cons_eraseIdx hlt seg').flatMap_right _

/-- **Releasing a segment** that nobody shows and no other call is about. -/
theorem ShmOk.release (debug : Bool) (h : ShmOk pmm₀ s) (hl : Live s i seg) (seg' : ShmSegment)
    (hr : Renewed seg seg') (calls : List Call)
    (hcalls : ∀ c ∈ calls, c = .finished ∨ c ∈ s.calls ∧ c.segment ≠ some i)
    (htargets : ∀ (j j' : Nat) (d d' : Call) (t : Nat × Nat), calls[j]? = some d →
      calls[j']? = some d' → d.target = some t → d'.target = some t → j = j')
    (hnone : ∀ q sq, s.space? q = some sq → ∀ v ∈ sq.vmas, sq.shows seg.frames v = false)
    (hcounts : ∀ j, j ≠ i → Shm.settled { s with calls := calls } j +
      Shm.uncounted { s with calls := calls } j = s.settled j + s.uncounted j) :
    ∃ s', s.release debug i seg' = .ok s' ∧ s'.calls = s.calls ∧
      ShmOk pmm₀ { s' with calls := calls } := by
  have hbooks : Books pmm₀ s.pmm (List.range' (seg.phys_pages / PAGE_SIZE) seg.num_pages ++
      ((s.segments.eraseIdx i).flatMap ShmSegment.frames ++ s.others)) := by
    refine h.books.perm ?_
    rw [← hl.frames, ← append_assoc]
    exact (frames_perm_get hl.get).append_right _
  obtain ⟨pmm', hfree, hok, hback⟩ := hbooks.freeFrames debug h.pmm
  have hphys : seg'.phys_pages = seg.phys_pages / PAGE_SIZE * PAGE_SIZE := by
    have := (h.segs i seg hl).aligned
    rw [hr.phys_pages]
    simp only [PAGE_SIZE] at *
    omega
  have hstep : s.release debug i seg' = .ok ({ s with pmm := pmm' }.setSegment i
      { seg' with in_use := false }) := by
    unfold Shm.release
    rw [hphys, hr.num_pages, hfree]
    rfl
  have hlive : ∀ {j x}, Live { { s with pmm := pmm' }.setSegment i { seg' with in_use := false } with
      calls := calls } j x → j ≠ i ∧ Live s j x := by
    intro j x hx
    rcases live_set rfl hl.lt hx with ⟨-, rfl⟩ | hx'
    · exact absurd hx.in_use Bool.false_ne_true
    · exact hx'
  have hlive' : ∀ {j x}, j ≠ i → Live s j x → Live { { s with pmm := pmm' }.setSegment i
      { seg' with in_use := false } with calls := calls } j x := fun hne hx => hx.set_ne rfl hne
  refine ⟨_, hstep, rfl, hok, ?_, fun j x hx => h.segs j x (hlive hx).2, ?_, ?_, htargets, ?_⟩
  · refine hback.perm (List.Perm.append_right _ ?_)
    exact ((frames_perm_set hl.get { seg' with in_use := false }).trans (.of_eq rfl)).symm
  · intro q sq hq
    have hsq := h.spaces q sq hq
    refine hsq.mono fun v hv j x k hx hu hm => ?_
    have hne : j ≠ i := by
      rintro rfl
      have hshow := hm.shows_framesOf h.books.toOwns ⟨hx, hu⟩ (hsq.vma v hv).toPages j
      rw [hl.framesOf, hnone q sq hq v hv] at hshow
      simp at hshow
    have hx' := hlive' hne ⟨hx, hu⟩
    exact ⟨j, x, hx'.get, hx'.in_use, .refl x⟩
  · intro c hc
    rcases hcalls c hc with rfl | ⟨hc, hseg⟩
    · trivial
    · refine callOk_mono (s := s) (fun _ => rfl) (fun j hj x hx => ?_) (h.calls c hc)
      exact ⟨x, hlive' (fun e => hseg (e ▸ hj)) hx, .refl x⟩
  · intro j x hx
    obtain ⟨hne, hx'⟩ := hlive hx
    have hfr : Shm.framesOf { { s with pmm := pmm' }.setSegment i { seg' with in_use := false } with
        calls := calls } j = s.framesOf j :=
      (hlive' hne hx').framesOf.trans hx'.framesOf.symm
    have hset : Shm.settled { { s with pmm := pmm' }.setSegment i { seg' with in_use := false } with
        calls := calls } j = Shm.settled { s with calls := calls } j := by
      refine count_congr rfl fun q => countIn_congr rfl fun sq _ v _ => ?_
      rw [hfr]
      rfl
    rw [hset]
    exact (h.counts j x hx').trans (hcounts j hne).symm

/-- A call without an attachment does not matter for what is counted. -/
theorem settled_setCall (hk : s.calls[k]? = some c) (ha : ∀ q virt, c.attaches q virt = false)
    (j : Nat) : (s.setCall k .finished).settled j = s.settled j :=
  count_congr rfl fun q => countIn_congr rfl fun sp _ v _ => by
    rw [inFlight_setCall hk (ha _ _) rfl]
    rfl

/-- A segment without counted attachments, with no shmat on its way, is shown by nobody. -/
theorem ShmOk.unshown (h : ShmOk pmm₀ s) (hl : Live s i seg) (hzero : s.settled i = 0)
    (hno : ∀ c ∈ s.calls, c.attachesTo i = false) :
    ∀ q sq, s.space? q = some sq → ∀ v ∈ sq.vmas, sq.shows seg.frames v = false := by
  intro q sq hq v hv
  by_contra hs
  rw [Bool.not_eq_false, ← hl.framesOf] at hs
  obtain ⟨-, -, -, -, hone⟩ := ((h.spaces q sq hq).vma v hv).shows_unique h.books.toOwns hs
  have hfly : s.inFlight q v.start = true := by
    by_contra hf
    have hpos := count_pos (f := fun p sp v => sp.shows (s.framesOf i) v && !s.inFlight p v.start)
      hq hv (by rw [hs, Bool.eq_false_iff.mpr hf]; rfl)
    unfold settled at hzero
    omega
  obtain ⟨c, hc, ha⟩ := inFlight_iff.mp hfly
  -- the call that is on its way is one of this segment
  obtain ⟨sq', w, j, x, h1, hw, hstart, hseg, hx, hshow⟩ := (h.calls c hc).target (attaches_target ha)
  obtain rfl := Option.some.inj (hq.symm.trans h1)
  obtain rfl := (h.spaces _ _ hq).eq_of_start hw hv hstart
  rw [← hx.framesOf, hone, decide_eq_true_eq] at hshow
  have hto := hno c hc
  cases c with
  | attached => exact of_decide_eq_false hto ((Option.some.inj hseg).trans hshow)
  | finished => cases ha
  | attaching => cases ha
  | detaching => cases ha
  | detached => cases ha

/-- Nobody is about to detach a segment that has no counted attachment. -/
theorem ShmOk.no_detaching (h : ShmOk pmm₀ s) (hzero : s.settled i = 0)
    {virt size : Nat} (hc : detaching p proc i virt size ∈ s.calls) : False := by
  obtain ⟨sp, v, seg, hsp, hv, rfl, hl, hshows, -⟩ := h.calls _ hc
  obtain ⟨k, hk⟩ := mem_iff_getElem?.mp hc
  rw [← hl.framesOf] at hshows
  have hself : s.inFlight p v.start = false := by
    by_contra hf
    rw [Bool.not_eq_false, inFlight_iff] at hf
    obtain ⟨d, hd, ha⟩ := hf
    obtain ⟨m, hm⟩ := mem_iff_getElem?.mp hd
    obtain rfl := h.targets k m _ d _ hk hm rfl (attaches_target ha)
    rw [hk] at hm
    cases hm
    cases ha
  have hpos := count_pos (f := fun p sp v => sp.shows (s.framesOf i) v && !s.inFlight p v.start)
    hsp hv (by rw [hshows, hself]; rfl)
  unfold settled at hzero
  omega

end SegmentSteps

/-! ## 13. The other steps -/

section OtherSteps

variable {pmm₀ : Pmm} {s : Shm} {p k i : Nat} {sp sp' : Space} {c : Call} {seg seg' : ShmSegment}
  {proc : Cred}

theorem uncounted_pos (hc : c ∈ s.calls) (hu : c.uncounts i = true) : 0 < s.uncounted i :=
  countP_pos_iff.mpr ⟨c, hc, hu⟩

/-- Which calls can be about a segment whose attachments are all gone and counted. -/
theorem ShmOk.no_call (h : ShmOk pmm₀ s) (hzero : s.settled i = 0)
    (hno : ∀ c ∈ s.calls, c.attachesTo i = false) (hc : c ∈ s.calls) (hu : c.uncounts i = false) :
    c.segment ≠ some i := by
  intro hseg
  have hn := hno c hc
  cases c with
  | finished => cases hseg
  | attaching p proc j =>
    cases hseg
    simp [attachesTo] at hn
  | attached p proc j =>
    cases hseg
    simp [attachesTo] at hn
  | detaching p proc j =>
    cases hseg
    exact h.no_detaching hzero hc
  | detached p proc j =>
    cases hseg
    simp [uncounts] at hu

/-- **The count of `shmdt`**, with the release of a segment that waited for it. -/
theorem ShmOk.uncount (debug : Bool) (h : ShmOk pmm₀ s)
    (hk : s.calls[k]? = some (.detached p proc i))
    (hcond : ∀ seg, s.segments[i]? = some seg → seg.marked_for_deletion = true →
      seg.attach_count = 1 → ∀ c ∈ s.calls, c.attachesTo i = false) :
    ∃ s', shmdtCount debug s proc i = .ok s' ∧ ShmOk pmm₀ (s'.setCall k .finished) := by
  have hmem := mem_of_getElem? hk
  obtain ⟨seg, hl⟩ := h.calls _ hmem
  have hcount := h.counts i seg hl
  have hpos := uncounted_pos (i := i) hmem (by simp [uncounts])
  have hother : ∀ q virt, (detached p proc i).attaches q virt = false := fun _ _ => rfl
  have hunc : ∀ j, (s.setCall k .finished).uncounted j + (if j = i then 1 else 0) =
      s.uncounted j := by
    intro j
    have := uncounted_setCall hk .finished j
    have h2 : (if (detached p proc i).uncounts j then 1 else 0) = if j = i then 1 else 0 := by
      by_cases e : j = i
      · simp [uncounts, e]
      · simp [uncounts, e, Ne.symm e]
    have h3 : (if finished.uncounts j then 1 else 0) = 0 := rfl
    omega
  have htargets := targets_setCall h hk fun t (ht : finished.target = some t) => nomatch ht
  unfold shmdtCount
  simp only [hl.get]
  by_cases hfree : (seg.marked_for_deletion && decide (seg.attach_count - 1 = 0)) = true
  · rw [if_pos hfree]
    obtain ⟨hmarked, hone⟩ := Bool.and_eq_true_iff.mp hfree
    have hone' : seg.attach_count = 1 := by
      have := of_decide_eq_true hone
      omega
    have hzero : s.settled i = 0 := by omega
    have hno := hcond seg hl.get hmarked hone'
    have hleft : ∀ c ∈ s.calls.set k .finished, c = .finished ∨ c ∈ s.calls ∧ c.segment ≠ some i := by
      intro c hc
      by_cases hfin : c = .finished
      · exact .inl hfin
      have hc' : c ∈ s.calls := (mem_setCall (s := s) hc).resolve_left hfin
      refine .inr ⟨hc', h.no_call hzero hno hc' ?_⟩
      by_contra hu
      rw [Bool.not_eq_false] at hu
      have h1 := uncounted_pos (s := s.setCall k .finished) hc hu
      have h2 := hunc i
      rw [if_pos rfl] at h2
      omega
    have hsum : ∀ j, j ≠ i → (s.setCall k .finished).settled j +
        (s.setCall k .finished).uncounted j = s.settled j + s.uncounted j := by
      intro j hne
      have h1 := settled_setCall hk hother j
      have h2 := hunc j
      rw [if_neg hne] at h2
      omega
    obtain ⟨s', hs', hcalls, hok⟩ := h.release debug hl
      { seg with attach_count := seg.attach_count - 1, lpid := proc.pid } ⟨rfl, rfl, rfl, rfl⟩
      (s.calls.set k .finished) hleft htargets (h.unshown hl hzero hno) hsum
    refine ⟨s', hs', ?_⟩
    unfold setCall
    rw [hcalls]
    exact hok
  · rw [if_neg hfree]
    refine ⟨_, rfl, ?_⟩
    refine h.renew hl { seg with attach_count := seg.attach_count - 1, lpid := proc.pid }
      ⟨rfl, rfl, rfl, rfl⟩ (fun hm => ?_) (s.calls.set k .finished) (fun c hc => mem_setCall (s := s) hc)
      htargets fun j => ?_
    · simp only [Bool.and_eq_true, decide_eq_true_eq, not_and] at hfree
      have := hfree hm
      show 0 < seg.attach_count - 1
      omega
    have h1 := settled_setCall hk hother j
    have h2 := hunc j
    show (s.setCall k .finished).settled j + (s.setCall k .finished).uncounted j + _ = _
    by_cases e : j = i
    · subst e
      rw [if_pos rfl] at h2 ⊢
      rw [if_pos rfl]
      show _ = _ + (seg.attach_count - 1)
      omega
    · rw [if_neg e] at h2 ⊢
      rw [if_neg e]
      omega

/-- A segment that changes neither its frames nor its count. -/
theorem ShmOk.setSegment (h : ShmOk pmm₀ s) (hl : Live s i seg) (hr : Renewed seg seg')
    (hcount : seg'.attach_count = seg.attach_count)
    (hmarked : seg'.marked_for_deletion = true → 0 < seg'.attach_count) :
    ShmOk pmm₀ (s.setSegment i seg') := by
  refine h.renew hl seg' hr hmarked s.calls (fun c hc => .inr hc) h.targets fun j => ?_
  rw [hcount]

/-- **IPC_RMID of a segment without attachments.** -/
theorem ShmOk.remove (debug : Bool) (h : ShmOk pmm₀ s) (hl : Live s i seg)
    (hzero : seg.attach_count = 0) (hno : ∀ c ∈ s.calls, c.attachesTo i = false) :
    ∃ s', s.release debug i seg = .ok s' ∧ ShmOk pmm₀ s' := by
  have hcount := h.counts i seg hl
  have hset : s.settled i = 0 := by omega
  have hleft : ∀ c ∈ s.calls, c = .finished ∨ c ∈ s.calls ∧ c.segment ≠ some i := by
    intro c hc
    refine .inr ⟨hc, h.no_call hset hno hc ?_⟩
    by_contra hu
    rw [Bool.not_eq_false] at hu
    have hpos := uncounted_pos hc hu
    omega
  obtain ⟨s', hs', hcalls, hok⟩ := h.release debug hl seg (.refl seg) s.calls hleft h.targets
    (h.unshown hl hset hno) fun _ _ => rfl
  refine ⟨s', hs', ?_⟩
  rw [← hcalls] at hok
  exact hok

theorem count_eq_zero {f : Nat → Space → Vma → Bool}
    (h : ∀ q sq, s.space? q = some sq → ∀ v ∈ sq.vmas, f q sq v = false) : s.count f = 0 := by
  refine Finset.sum_eq_zero fun q _ => ?_
  cases hq : s.space? q with
  | none =>
    unfold countIn
    rw [hq]
  | some sq =>
    rw [countIn_some hq]
    exact countP_eq_zero.mpr fun v hv => by simp [h q sq hq v hv]

/-- **A new segment** has frames that nobody owned, and nobody shows it. -/
theorem ShmOk.create (h : ShmOk pmm₀ s) {idx q n : Nat} {old : ShmSegment} {pmm' : Pmm}
    (hidx : s.segments[idx]? = some old) (hold : old.in_use = false) (hok : PmmOk pmm')
    (ht : Takes s.pmm pmm' (List.range' q n)) (hn : 0 < n) (seq : BitVec 16)
    (hphys : seg.phys_pages = q * PAGE_SIZE) (hnum : seg.num_pages = n)
    (hcount : seg.attach_count = 0) (hmarked : seg.marked_for_deletion = false)
    (huse : seg.in_use = true) :
    ShmOk pmm₀ ({ s with pmm := pmm', seq_counter := seq }.setSegment idx seg) := by
  have hfr : seg.frames = List.range' q n := by
    rw [ShmSegment.frames, if_pos huse, hphys, hnum, mul_div_page]
  have hlive : ∀ {j x}, Live ({ s with pmm := pmm', seq_counter := seq }.setSegment idx seg) j x →
      j = idx ∧ x = seg ∨ j ≠ idx ∧ Live s j x :=
    live_set rfl (List.getElem?_eq_some_iff.mp hidx).1
  have hne : ∀ {j x}, Live s j x → j ≠ idx := by
    rintro j x hx rfl
    have := hx.in_use
    rw [← Option.some.inj (hidx.symm.trans hx.get), hold] at this
    cases this
  have hlive' : ∀ {j x}, Live s j x →
      Live ({ s with pmm := pmm', seq_counter := seq }.setSegment idx seg) j x :=
    fun hx => hx.set_ne rfl (hne hx)
  refine ⟨hok, ?_, ?_, ?_, ?_, h.targets, ?_⟩
  · have hrest : (s.frames ++ s.others).Perm
        ((s.segments.eraseIdx idx).flatMap ShmSegment.frames ++ s.others) := by
      refine List.Perm.append_right _ ((frames_perm_get hidx).trans (.of_eq ?_))
      rw [ShmSegment.frames, hold]
      rfl
    have hnew := (h.books.perm hrest).take ht nodup_range'
    refine hnew.perm ?_
    rw [← append_assoc, ← hfr]
    exact (frames_perm_set hidx seg).symm.append_right _
  · intro j x hx
    rcases hlive hx with ⟨-, rfl⟩ | ⟨-, hx⟩
    · refine ⟨?_, hnum ▸ hn, fun hm => ?_⟩
      · rw [hphys]
        exact Nat.mul_mod_left _ _
      · rw [hmarked] at hm
        cases hm
    · exact h.segs j x hx
  · intro r sq hr
    refine (h.spaces r sq hr).mono fun v _ j x k hx hu _ => ?_
    have hx' := hlive' ⟨hx, hu⟩
    exact ⟨j, x, hx'.get, hx'.in_use, .refl x⟩
  · intro c hc
    exact callOk_mono (s := s) (fun _ => rfl) (fun j _ x hx => ⟨x, hlive' hx, .refl x⟩)
      (h.calls c hc)
  intro j x hx
  rcases hlive hx with ⟨rfl, rfl⟩ | ⟨-, hx'⟩
  · have hset : Shm.settled ({ s with pmm := pmm', seq_counter := seq }.setSegment j x) j = 0 := by
      refine count_eq_zero fun r sq hr v hv => ?_
      rw [hx.framesOf]
      obtain ⟨m, y, k, hm, hu, hmaps⟩ := ((h.spaces r sq hr).vma v hv).maps
      have hp := ((h.spaces r sq hr).vma v hv).toPages
      rw [hmaps.shows hp, hfr]
      have hself := hmaps.mem_frames hu hp.pageCount_pos
      have hheld := (h.books.held _ (mem_append_left _ (Live.mem_frames ⟨hm, hu⟩ hself))).2
      have hout : y.phys_pages / PAGE_SIZE + k ∉ List.range' q n := fun hf => by
        have := (ht.free _ hf).2
        rw [Nat.add_zero] at hheld
        omega
      rw [decide_eq_false hout]
      rfl
    have hun : Shm.uncounted ({ s with pmm := pmm', seq_counter := seq }.setSegment j x) j = 0 := by
      refine countP_eq_zero.mpr fun c hc hu => ?_
      have hcall := h.calls c hc
      cases c with
      | detached p proc m =>
        simp only [Call.uncounts, decide_eq_true_eq] at hu
        obtain ⟨y, hy⟩ := hcall
        exact hne hy hu
      | finished => cases hu
      | attaching => cases hu
      | attached => cases hu
      | detaching => cases hu
    rw [hset, hun, hcount]
  · have hset : Shm.settled ({ s with pmm := pmm', seq_counter := seq }.setSegment idx seg) j =
        s.settled j := by
      refine count_congr rfl fun r => countIn_congr rfl fun sq _ v _ => ?_
      rw [hx.framesOf, hx'.framesOf]
      rfl
    rw [hset]
    exact h.counts j x hx'

/-- What the rest of the kernel does with the allocator. -/
theorem ShmOk.setOthers (h : ShmOk pmm₀ s) {pmm' : Pmm} {others : List Nat} (hok : PmmOk pmm')
    (hb : Books pmm₀ pmm' (s.frames ++ others)) :
    ShmOk pmm₀ { s with pmm := pmm', others := others } :=
  ⟨hok, hb, fun _ _ hl => h.segs _ _ ⟨hl.get, hl.in_use⟩, h.spaces,
    fun c hc => callOk_congr (s := s) rfl (fun _ => rfl) (h.calls c hc), h.targets,
    fun i seg hl => h.counts i seg ⟨hl.get, hl.in_use⟩⟩

/-- A process without attachments, as a fork adds it. -/
theorem ShmOk.addSpace (h : ShmOk pmm₀ s) (hv : sp.vmas = []) (hpt : ∀ page, sp.pt page = none) :
    ShmOk pmm₀ { s with procs := s.procs ++ [some sp] } := by
  have hspace : ∀ q, q < s.procs.length →
      Shm.space? { s with procs := s.procs ++ [some sp] } q = s.space? q := by
    intro q hq
    show ((s.procs ++ [some sp])[q]?).join = (s.procs[q]?).join
    rw [getElem?_append_left hq]
  have hlast : Shm.space? { s with procs := s.procs ++ [some sp] } s.procs.length = some sp := by
    show ((s.procs ++ [some sp])[s.procs.length]?).join = _
    rw [getElem?_append_right (le_refl _), Nat.sub_self]
    rfl
  have hcase : ∀ {q sq}, Shm.space? { s with procs := s.procs ++ [some sp] } q = some sq →
      s.space? q = some sq ∨ sq = sp := by
    intro q sq hq
    have hlt := space?_lt hq
    rw [length_append, length_singleton] at hlt
    rcases Nat.lt_or_ge q s.procs.length with hq' | hq'
    · exact .inl ((hspace q hq').symm.trans hq)
    · obtain rfl : q = s.procs.length := by omega
      exact .inr (Option.some.inj (hq.symm.trans hlast))
  refine ⟨h.pmm, h.books, fun _ _ hl => h.segs _ _ ⟨hl.get, hl.in_use⟩, ?_, ?_, h.targets, ?_⟩
  · intro q sq hq
    rcases hcase hq with hq | rfl
    · exact h.spaces q sq hq
    refine ⟨hv ▸ List.Pairwise.nil, fun v hm => ?_, fun page f hp => ?_⟩
    · rw [hv] at hm
      cases hm
    · rw [hpt] at hp
      cases hp
  · intro c hc
    refine callOk_spaces (h.calls c hc) rfl fun q _ sq hq => ?_
    exact ⟨sq, (hspace _ (space?_lt hq)).trans hq, fun _ _ _ hv _ => ⟨hv, fun _ => rfl⟩⟩
  intro i seg hl
  have hset : Shm.settled { s with procs := s.procs ++ [some sp] } i = s.settled i := by
    unfold Shm.settled Shm.count
    rw [length_append, length_singleton, Finset.sum_range_succ]
    have hzero : Shm.countIn { s with procs := s.procs ++ [some sp] }
        (fun p sp v => sp.shows (Shm.framesOf { s with procs := s.procs ++ [some sp] } i) v &&
          !Shm.inFlight { s with procs := s.procs ++ [some sp] } p v.start) s.procs.length = 0 := by
      rw [countIn_some hlast, hv]
      rfl
    refine (congrArg₂ (· + ·) (Finset.sum_congr rfl fun q hq => ?_) hzero).trans (Nat.add_zero _)
    exact countIn_congr (hspace q (Finset.mem_range.mp hq)) fun _ _ _ _ => rfl
  rw [hset]
  exact h.counts i seg ⟨hl.get, hl.in_use⟩

/-- A process without attachments and without calls goes. -/
theorem ShmOk.dropSpace (h : ShmOk pmm₀ s) (hsp : s.space? p = some sp) (hv : sp.vmas = [])
    (hof : ∀ c ∈ s.calls, c.of p = false) :
    ShmOk pmm₀ { s with procs := s.procs.set p none } := by
  have hspace : ∀ q, Shm.space? { s with procs := s.procs.set p none } q =
      if q = p then none else s.space? q := by
    intro q
    show ((s.procs.set p none)[q]?).join = _
    by_cases e : p = q
    · subst e
      rw [getElem?_set_self (space?_lt hsp), if_pos rfl]
      rfl
    · rw [getElem?_set_ne e, if_neg (Ne.symm e)]
      rfl
  refine ⟨h.pmm, h.books, fun _ _ hl => h.segs _ _ ⟨hl.get, hl.in_use⟩, ?_, ?_, h.targets, ?_⟩
  · intro q sq hq
    have hq' := (hspace q).symm.trans hq
    split_ifs at hq'
    exact h.spaces q sq hq'
  · intro c hc
    refine callOk_spaces (h.calls c hc) rfl fun q hq sq hsq => ?_
    have hne : q ≠ p := by
      rintro rfl
      exact Bool.false_ne_true ((hof c hc).symm.trans hq)
    exact ⟨sq, ((hspace q).trans (if_neg hne)).trans hsq, fun _ _ _ hv _ => ⟨hv, fun _ => rfl⟩⟩
  intro i seg hl
  have hset : Shm.settled { s with procs := s.procs.set p none } i = s.settled i := by
    refine count_congr length_set fun q => ?_
    by_cases e : q = p
    · subst e
      rw [countIn_some hsp, hv]
      unfold Shm.countIn
      rw [hspace, if_pos rfl]
      rfl
    · exact countIn_congr ((hspace q).trans (if_neg e)) fun _ _ _ _ => rfl
  rw [hset]
  exact h.counts i seg ⟨hl.get, hl.in_use⟩

end OtherSteps

/-! ## 14. Undisturbed runs -/

/-- The attachments are found, cut and released by the calls they belong to only. -/
def Undisturbed (r : Except Trap Shm) (e : ShmEvent) : Prop :=
  ∀ s, r = .ok s → match e with
    | .shmdt p _ addr => ∀ sp, s.space? p = some sp → ∀ v ∈ sp.vmas,
        v.overlaps addr (addr + 1) = true → ∀ c ∈ s.calls, c.target ≠ some (p, v.start)
    | .munmap p addr len oom => ∀ sp, s.space? p = some sp → Effective addr len → ∀ v ∈ sp.vmas,
        Splits addr (addr + pageAlignLen len) v ∧ oom = true ∨
          Harmless s p addr (addr + pageAlignLen len) v
    | .fork p ok => ok = true → ∀ sp, s.space? p = some sp → sp.vmas = []
    | .exit p => (∀ c ∈ s.calls, c.of p = false) → ∀ sp, s.space? p = some sp → sp.vmas = []
    | .shmctl proc id .IPC_RMID => ∀ seg, s.lookup id = some seg →
        isOwnerOrCreator seg.perm proc.euid = true → seg.attach_count = 0 →
        ∀ c ∈ s.calls, c.attachesTo (idToIndex id) = false
    | .advance k _ _ => ∀ p proc i seg, s.calls[k]? = some (.detached p proc i) →
        s.segments[i]? = some seg → seg.marked_for_deletion = true → seg.attach_count = 1 →
        ∀ c ∈ s.calls, c.attachesTo i = false
    | _ => True

section RunSteps

variable {pmm₀ : Pmm} {s : Shm} {p k i : Nat} {sp : Space} {v : Vma} {seg : ShmSegment} {proc : Cred}
  {id : BitVec 32}

theorem lookup_some (h : s.lookup id = some seg) :
    Live s (idToIndex id) seg ∧ seg.perm.seq = idToSeq id := by
  unfold Shm.lookup at h
  cases hg : s.segments[idToIndex id]? with
  | none => simp only [hg] at h; cases h
  | some x =>
    simp only [hg] at h
    split_ifs at h with hx
    cases h
    obtain ⟨huse, hseq⟩ := Bool.and_eq_true_iff.mp hx
    exact ⟨⟨hg, huse⟩, of_decide_eq_true hseq⟩

theorem shmatCheck_ok {shmaddr : Nat} {shmflg : BitVec 32} {c : Call}
    (h : shmatCheck s p proc id shmaddr shmflg = .ok c) :
    ∃ seg, Live s (idToIndex id) seg ∧ seg.perm.seq = idToSeq id ∧
      c = .attaching p proc (idToIndex id) (idToSeq id) shmaddr shmflg seg.phys_pages
        seg.num_pages := by
  unfold shmatCheck at h
  cases hlook : s.lookup id with
  | none => simp only [hlook] at h; cases h
  | some seg =>
    obtain ⟨hl, hseq⟩ := lookup_some hlook
    simp only [hlook] at h
    generalize (if shmflg &&& SHM_RDONLY ≠ 0 then AccessMode.read else AccessMode.write) = mode at h
    split_ifs at h
    cases h
    exact ⟨seg, hl, hseq, rfl⟩

/-- munmap of one attachment as a whole. -/
theorem munmap_whole (debug oom : Bool) (pmm : Pmm) (hok : SpaceOk s.segments sp) (hv : v ∈ sp.vmas) :
    ∃ sp', sp.munmap debug oom pmm v.start (v.stop - v.start) = .ok (pmm, sp', true) ∧
      CutSpace sp sp' v.start v.stop := by
  have hvok := hok.vma v hv
  have h1 := hvok.start
  have h2 := hvok.stop
  have h3 := hvok.lt
  have h4 := hvok.top
  have hlen : pageAlignLen (v.stop - v.start) = v.stop - v.start := by
    simp only [pageAlignLen, pageAlignDown, PAGE_SIZE] at *
    omega
  have hend : v.start + pageAlignLen (v.stop - v.start) = v.stop := by omega
  have heff : Effective v.start (v.stop - v.start) :=
    ⟨by simpa [isPageAligned] using h1, by omega, by omega⟩
  have hun : ∀ w ∈ sp.vmas, Unsplit v.start v.stop w := by
    intro w hw hs
    by_cases e : w = v
    · subst e
      omega
    · rcases hok.apart hw hv e with hap | hap
      · omega
      · omega
  obtain ⟨pt', heq, hpt⟩ := munmapVmas_cut debug oom pmm sp.pt
    (fun v hv => (hok.vma v hv).device) (fun v hv => (hok.vma v hv).toPages) hun h1 h2
  rw [munmap_effective debug oom pmm sp heff, hend, heq]
  exact ⟨⟨_, pt'⟩, rfl, rfl, hpt⟩

/-- **What shmdt finds** is an attachment of the segment, from its first page on. -/
theorem ShmOk.found (h : ShmOk pmm₀ s) (hsp : s.space? p = some sp) {addr : Nat} {c : Call}
    (hf : shmdtFind s p sp proc addr = .ok (.ok c)) :
    CallOk s c ∧ ∃ i size, c = .detaching p proc i addr size ∧
      ∃ v ∈ sp.vmas, v.overlaps addr (addr + 1) = true ∧ v.start = addr := by
  have hok := h.spaces p sp hsp
  unfold shmdtFind at hf
  split_ifs at hf
  cases hv : sp.vmas.find? (·.overlaps addr (addr + 1)) with
  | none => simp only [hv] at hf; cases hf
  | some v =>
    simp only [hv] at hf
    cases hi : s.segments.findIdx? fun seg =>
        seg.in_use && sp.translate addr = some seg.phys_pages with
    | none => simp only [hi] at hf; cases hf
    | some i =>
      simp only [hi] at hf
      cases hf
      have hmem := mem_of_find?_eq_some hv
      have hover : v.overlaps addr (addr + 1) = true := by simpa using find?_some hv
      obtain ⟨hlt, hseg, -⟩ := findIdx?_eq_some_iff_getElem.mp hi
      obtain ⟨huse, htrans⟩ := Bool.and_eq_true_iff.mp hseg
      have hl : Live s i s.segments[i] := ⟨getElem?_eq_getElem hlt, huse⟩
      have hvok := hok.vma v hmem
      -- the page is one of the VMA, so its frame is known
      obtain ⟨j, x, m, hx, hxu, hm⟩ := hvok.maps
      obtain ⟨ho1, ho2⟩ := overlaps_iff.mp hover
      have hin : InVma v (addr / PAGE_SIZE) := by
        have h1 := hvok.start
        have h2 := hvok.stop
        simp only [InVma, PAGE_SIZE] at *
        omega
      obtain ⟨n, hn, hpage⟩ := hvok.toPages.inVma_iff.mp hin
      have hframe := hm.frame n hn
      have htr : (x.phys_pages / PAGE_SIZE + m + n) * PAGE_SIZE + addr % PAGE_SIZE =
          s.segments[i].phys_pages := by
        have := of_decide_eq_true htrans
        rw [Space.translate, hpage, hframe] at this
        exact Option.some.inj this
      have hal := (h.segs i _ hl).aligned
      have hdiv : x.phys_pages / PAGE_SIZE + m + n = s.segments[i].phys_pages / PAGE_SIZE := by
        rw [← htr]
        simp only [PAGE_SIZE] at *
        omega
      -- the first frame of segment `i`, so the segment is `i` and the page its first
      have hfirst : s.segments[i].phys_pages / PAGE_SIZE ∈ s.segments[i].frames := by
        rw [ShmSegment.frames, if_pos huse, mem_range'_1]
        have := (h.segs i _ hl).pages
        omega
      obtain rfl := Owns.segment_unique h.books.toOwns ⟨hx, hxu⟩ hl
        (hm.mem_frames hxu hn) (hdiv ▸ hfirst)
      obtain rfl := Live.unique ⟨hx, hxu⟩ hl
      have hstart : v.start = addr := by
        have h1 := hvok.start
        simp only [PAGE_SIZE] at *
        omega
      refine ⟨⟨sp, v, _, hsp, hmem, hstart, hl, ?_, ?_⟩, j, _, rfl, v, hmem, hover, hstart⟩
      · rw [hm.shows hvok.toPages]
        have hself : s.segments[j].phys_pages / PAGE_SIZE + m + 0 ∈ s.segments[j].frames :=
          hm.mem_frames hxu hvok.toPages.pageCount_pos
        exact decide_eq_true hself
      · have := hvok.lt
        omega

/-- **The step of a call.** -/
theorem ShmOk.advance (debug : Bool) (h : ShmOk pmm₀ s) (k : Nat) (env : AttachEnv) (oom : Bool)
    (hc : Undisturbed (.ok s) (.advance k env oom)) : ShmStep pmm₀ (s.advance debug k env oom) := by
  have hcond := hc s rfl
  unfold Shm.advance
  cases hk : s.calls[k]? with
  | none => exact h
  | some c =>
    have hcall := h.calls c (mem_of_getElem? hk)
    cases c with
    | finished => exact h
    | attaching p proc i seq shmaddr shmflg phys n =>
      obtain ⟨⟨sp, hsp⟩, -⟩ := hcall
      simp only [hsp]
      rcases shmatMap_outcome env sp shmaddr shmflg phys n with he | ⟨e, he⟩ | ⟨virt, prot, hr, he⟩
      · rw [he]
        rfl
      · rw [he]
        show ShmOk pmm₀ ((s.setSpace p sp).setCall k .finished)
        rw [setSpace_self hsp]
        exact h.abort hk rfl fun _ => rfl
      · rw [he]
        exact h.attach hk hsp hr
    | attached p proc i seq virt size =>
      obtain ⟨sp, v, seg, hsp, -, -, hl, -, hseq⟩ := hcall
      have hlive : ¬(!seg.in_use || decide (seg.perm.seq ≠ seq)) = true := by
        simp [hl.in_use, hseq]
      simp only [shmatCount, hl.get, hsp]
      by_cases hover : seg.attach_count + 1 ≥ 2 ^ 32
      · rw [if_neg hlive, if_pos hover]
        rfl
      · rw [if_neg hlive, if_neg hover]
        exact h.count hk hl
    | detaching p proc i virt size =>
      obtain ⟨sp, v, seg, hsp, hv, rfl, -, -, hstop⟩ := hcall
      simp only [hsp]
      have hsize : size = v.stop - v.start := by omega
      obtain ⟨sp', he, hcut⟩ := munmap_whole debug oom s.pmm (h.spaces p sp hsp) hv
      rw [hsize, he]
      exact h.unmap hk hsp (hstop ▸ hcut)
    | detached p proc i =>
      obtain ⟨s', he, hok⟩ := h.uncount debug hk fun seg => hcond p proc i seg hk
      simp only [he]
      exact hok

theorem ShmOk.shmget (h : ShmOk pmm₀ s) (proc : Cred) (key : BitVec 32) (size : Nat)
    (flags : BitVec 32) : ∃ s' r, shmget s key size flags proc = .ok (s', r) ∧ ShmOk pmm₀ s' := by
  unfold Ipc.shmget
  by_cases hsize : size < SHMMIN ∨ size > SHMMAX
  · rw [if_pos hsize]
    exact ⟨_, _, rfl, h⟩
  rw [if_neg hsize]
  cases s.existing key with
  | some seg =>
    simp only
    split_ifs
    · exact ⟨_, _, rfl, h⟩
    · exact ⟨_, _, rfl, h⟩
    · exact ⟨_, _, rfl, h⟩
  | none =>
    simp only
    split_ifs
    · exact ⟨_, _, rfl, h⟩
    unfold shmCreate
    cases hidx : s.segments.findIdx? fun seg => !seg.in_use with
    | none => exact ⟨_, _, rfl, h⟩
    | some idx =>
      obtain ⟨hlt, hfree, -⟩ := findIdx?_eq_some_iff_getElem.mp hidx
      obtain ⟨pmm', r, he, hok, hnone, hsome⟩ :=
        Mm.allocPages_spec h.pmm ((size + (PAGE_SIZE - 1)) / PAGE_SIZE)
      simp only [he]
      cases r with
      | none =>
        obtain rfl := hnone rfl
        exact ⟨_, _, rfl, h⟩
      | some a =>
        obtain ⟨q, rfl, -, htakes⟩ := hsome a rfl
        refine ⟨_, _, rfl, ?_⟩
        refine h.create (getElem?_eq_getElem hlt) (by simpa using hfree) hok htakes ?_ _
          rfl rfl rfl rfl rfl
        simp only [SHMMIN, PAGE_SIZE] at *
        omega

theorem ShmOk.shmctl (debug : Bool) (h : ShmOk pmm₀ s) (cmd : ShmCmd)
    (hc : Undisturbed (.ok s) (.shmctl proc id cmd)) :
    ∃ s' r, shmctl debug s id cmd proc = .ok (s', r) ∧ ShmOk pmm₀ s' := by
  have hcond := hc s rfl
  unfold Ipc.shmctl
  cases hlook : s.lookup id with
  | none => exact ⟨_, _, rfl, h⟩
  | some seg =>
    obtain ⟨hl, -⟩ := lookup_some hlook
    cases cmd with
    | other => exact ⟨_, _, rfl, h⟩
    | IPC_STAT copied =>
      simp only
      split_ifs
      · exact ⟨_, _, rfl, h⟩
      · exact ⟨_, _, rfl, h⟩
      · exact ⟨_, _, rfl, h⟩
    | IPC_SET ds =>
      simp only
      split_ifs
      · exact ⟨_, _, rfl, h⟩
      cases ds with
      | none => exact ⟨_, _, rfl, h⟩
      | some ds =>
        refine ⟨_, _, rfl, h.setSegment hl ⟨rfl, rfl, rfl, rfl⟩ rfl fun hm => ?_⟩
        exact (h.segs _ seg hl).marked hm
    | IPC_RMID =>
      simp only
      cases hperm : isOwnerOrCreator seg.perm proc.euid with
      | false => exact ⟨_, _, rfl, h⟩
      | true =>
        by_cases hzero : seg.attach_count = 0
        · obtain ⟨s', he, hok⟩ := h.remove debug hl hzero (hcond seg hlook hperm hzero)
          simp only [hzero, he]
          exact ⟨_, _, rfl, hok⟩
        · simp only [Bool.not_true, Bool.false_eq_true, if_false, hzero]
          exact ⟨_, _, rfl, h.setSegment hl ⟨rfl, rfl, rfl, rfl⟩ rfl fun _ =>
            Nat.pos_of_ne_zero hzero⟩

/-- **Every undisturbed step keeps the invariant.** -/
theorem ShmOk.handle (debug : Bool) (h : ShmOk pmm₀ s) (e : ShmEvent)
    (hc : Undisturbed (.ok s) e) : ShmStep pmm₀ (s.handle debug e) := by
  cases e with
  | shmget proc key size flags =>
    obtain ⟨s', r, he, hok⟩ := h.shmget proc key size flags
    simp only [Shm.handle, he]
    exact hok
  | shmat p proc id shmaddr shmflg =>
    simp only [Shm.handle]
    cases hsp : s.space? p with
    | none => exact h
    | some sp =>
      simp only
      cases hf : shmatCheck s p proc id shmaddr shmflg with
      | error e => exact h
      | ok c =>
        obtain ⟨seg, hl, hseq, rfl⟩ := shmatCheck_ok hf
        exact h.start ⟨⟨sp, hsp⟩, seg, hl, hseq, rfl, rfl⟩ (fun _ _ => rfl) (fun _ => rfl)
          fun _ ht => nomatch ht
  | shmdt p proc addr =>
    have hcond := hc s rfl
    simp only [Shm.handle]
    cases hsp : s.space? p with
    | none => exact h
    | some sp =>
      simp only
      cases hf : shmdtFind s p sp proc addr with
      | error t =>
        unfold shmdtFind at hf
        split_ifs at hf
        · cases hf
          rfl
        split at hf
        · cases hf
        · split at hf
          · cases hf
          · cases hf
      | ok r =>
        cases r with
        | error e => exact h
        | ok c =>
          obtain ⟨hcall, i, size, rfl, v, hv, hover, hstart⟩ := h.found hsp hf
          refine h.start hcall (fun _ _ => rfl) (fun _ => rfl) fun t ht d hd => ?_
          cases ht
          rw [← hstart]
          exact hcond sp hsp v hv hover d hd
  | advance k env oom => exact h.advance debug k env oom hc
  | shmctl proc id cmd =>
    obtain ⟨s', r, he, hok⟩ := h.shmctl debug cmd hc
    simp only [Shm.handle, he]
    exact hok
  | munmap p addr len oom =>
    have hcond := hc s rfl
    simp only [Shm.handle]
    cases hsp : s.space? p with
    | none => exact h
    | some sp =>
      simp only
      have hsplit : Effective addr len → ∀ v ∈ sp.vmas, Splits addr (addr + pageAlignLen len) v →
          oom = true := by
        intro heff v hv hs
        rcases hcond sp hsp heff v hv with hcase | hcase
        · exact hcase.2
        · obtain ⟨htrim, -⟩ := hcase (overlaps_iff.mpr ⟨by have := hs.1; omega, by have := hs.2; omega⟩)
          exact absurd hs htrim.unsplit
      rcases munmap_outcome debug oom s.pmm (h.spaces p sp hsp) addr len hsplit with
        he | ⟨heff, hun, sp', he, hcut⟩
      · rw [he]
        show ShmOk pmm₀ (s.setSpace p sp)
        rw [setSpace_self hsp]
        exact h
      · rw [he]
        refine h.trim hsp hcut heff.start_mod heff.end_mod (fun v hv => ?_) hun
        exact (hcond sp hsp heff v hv).resolve_left fun hs => hun v hv hs.1
  | fork p ok =>
    have hcond := hc s rfl
    simp only [Shm.handle]
    cases hsp : s.space? p with
    | none => exact h
    | some sp =>
      cases ok with
      | false => exact h
      | true =>
        have hnil := hcond rfl sp hsp
        refine h.addSpace hnil fun page => ?_
        unfold Space.copy
        rw [hnil]
        rfl
  | exit p =>
    have hcond := hc s rfl
    simp only [Shm.handle]
    cases hsp : s.space? p with
    | none => exact h
    | some sp =>
      simp only
      by_cases hof : s.calls.any (·.of p) = true
      · rw [if_pos hof]
        exact h
      rw [if_neg hof]
      have hfree : ∀ c ∈ s.calls, c.of p = false := by
        intro c hc
        by_contra hp
        exact hof (any_eq_true.mpr ⟨c, hc, Bool.not_eq_false _ |>.mp hp⟩)
      have hnil := hcond hfree sp hsp
      unfold Space.deinit
      rw [hnil]
      exact h.dropSpace hsp hnil hfree
  | otherAlloc =>
    obtain ⟨pmm', r, he, hok, hnone, hsome⟩ := Mm.allocPage_spec h.pmm
    simp only [Shm.handle, he]
    cases r with
    | none =>
      obtain ⟨-, hrefs, htotal⟩ := hnone rfl
      refine h.setOthers hok ⟨⟨h.books.nodup, fun f hf => ?_⟩, fun f => ?_⟩
      · have := h.books.held f hf
        rw [htotal]
        unfold Pmm.refs at *
        rw [hrefs]
        exact this
      · have := h.books.refs f
        unfold Pmm.refs at *
        rw [hrefs]
        exact this
    | some a =>
      obtain ⟨q, rfl, -, htakes⟩ := hsome a rfl
      refine h.setOthers hok ((h.books.take htakes (nodup_singleton q)).perm ?_)
      rw [Nat.mul_div_cancel q (by decide), singleton_append]
      exact perm_middle.symm
  | otherFree frame =>
    simp only [Shm.handle]
    by_cases hmem : frame ∈ s.others
    · simp only [if_pos hmem]
      have hb := h.books.perm (((perm_cons_erase hmem).append_left s.frames).trans perm_middle)
      obtain ⟨pmm', he, hok, -, hown, hrefs⟩ := hb.toOwns.free debug h.pmm
      rw [he]
      refine h.setOthers hok (Books.back (r := [frame]) hb hown fun f => ?_)
      rw [hrefs]
      simp only [mem_singleton]
    · simp only [if_neg hmem]
      exact h

end RunSteps

/-! ## 15. The lifetime of a segment -/

/-- Counts, mappings and frames agree. Between its two passes through the lock a `shmat` has an
    attachment that is not counted yet, and a `shmdt` one that is gone and still counted. -/
structure Accounted (pmm₀ : Pmm) (s : Shm) : Prop where
  count : ∀ i seg, Live s i seg → seg.attach_count = s.settled i + s.uncounted i
  settled : (∀ c ∈ s.calls, c = .finished) →
    ∀ i seg, Live s i seg → seg.attach_count = s.attachments i
  /-- A frame of a segment has one owner. -/
  nodup : (s.frames ++ s.others).Nodup
  held : ∀ f ∈ s.frames, s.pmm.refs f = 1
  /-- The frames that are not of a segment any more have the count of before. -/
  returned : ∀ f, f ∉ s.frames ++ s.others → s.pmm.refs f = pmm₀.refs f
  mapped : ∀ p sp page f, s.space? p = some sp → sp.pt page = some f →
    f ∈ s.frames ∧ s.pmm.refs f = 1

section Lifetime

variable {debug : Bool} {pmm₀ : Pmm} {s : Shm} {r : Except Trap Shm}

theorem settled_finished (hfin : ∀ c ∈ s.calls, c = .finished) (i : Nat) :
    s.settled i = s.attachments i := by
  refine count_congr rfl fun p => countIn_congr rfl fun sp _ v _ => ?_
  have hnot : s.inFlight p v.start = false :=
    not_inFlight fun c hc => by
      rw [hfin c hc]
      exact nofun
  rw [hnot, Bool.not_false, Bool.and_true]

theorem uncounted_finished (hfin : ∀ c ∈ s.calls, c = .finished) (i : Nat) : s.uncounted i = 0 :=
  countP_eq_zero.mpr fun c hc => by
    rw [hfin c hc]
    exact Bool.false_ne_true

theorem ShmOk.accounted (h : ShmOk pmm₀ s) : Accounted pmm₀ s where
  count := h.counts
  settled hfin i seg hl := by
    rw [h.counts i seg hl, settled_finished hfin, uncounted_finished hfin, Nat.add_zero]
  nodup := h.books.nodup
  held f hf := (h.books.held f (mem_append_left _ hf)).2
  returned f hf := by
    rw [h.books.refs, count_eq_zero_of_not_mem hf, Nat.add_zero]
  mapped p sp page f hsp hp := by
    have hf := (h.spaces p sp hsp).backed hp
    exact ⟨hf, (h.books.held f (mem_append_left _ hf)).2⟩

theorem shmOk_start (hpmm : PmmOk pmm₀) (n : Nat) :
    ShmOk pmm₀ { pmm := pmm₀, procs := List.replicate n (some {}) } := by
  have hdead : ∀ {i seg}, ¬ Live { pmm := pmm₀, procs := List.replicate n (some {}) } i seg := by
    intro i seg hl
    have hmem : seg ∈ List.replicate SHMMNI ({} : ShmSegment) := mem_of_getElem? hl.get
    have huse := hl.in_use
    rw [eq_of_mem_replicate hmem] at huse
    cases huse
  have hframes : Shm.frames { pmm := pmm₀, procs := List.replicate n (some {}) } = [] := by
    refine flatMap_eq_nil_iff.mpr fun seg hseg => ?_
    rw [eq_of_mem_replicate hseg]
    rfl
  refine ⟨hpmm, ?_, fun i seg hl => absurd hl hdead, fun p sp hsp => ?_,
    fun c hc => (nomatch hc), fun j _ d _ _ hd => (nomatch hd), fun i seg hl => absurd hl hdead⟩
  · rw [hframes]
    exact ⟨⟨nodup_nil, fun f hf => (nomatch hf)⟩, fun f => rfl⟩
  obtain ⟨o, ho, e⟩ : ∃ o, (List.replicate n (some ({} : Space)))[p]? = some o ∧ o = some sp := by
    unfold Shm.space? at hsp
    cases hp : (List.replicate n (some ({} : Space)))[p]? with
    | none => simp only [hp] at hsp; cases hsp
    | some o => simp only [hp] at hsp; exact ⟨o, rfl, hsp⟩
  rw [eq_of_mem_replicate (mem_of_getElem? ho)] at e
  cases e
  exact ⟨List.Pairwise.nil, fun v hv => (nomatch hv), fun page f hp => (nomatch hp)⟩

theorem shm_run (hpmm : PmmOk pmm₀) (h : (shmMachine debug pmm₀).Reach Undisturbed r) :
    ShmStep pmm₀ r := by
  refine Machine.Reach.invariant (fun r hr => ?_) (fun r e _ hr hc => ?_) h
  · obtain ⟨n, rfl⟩ := hr
    exact shmOk_start hpmm n
  · cases r with
    | error t => exact hr
    | ok s => exact ShmOk.handle debug hr e hc

end Lifetime

/-! ## 16. Runs on a small machine -/

/-- One process on the machine of `smallMemmap`. -/
def smallShm : Except Trap Shm := .ok { pmm := Mm.smallPmm, procs := [some {}] }

theorem smallPmm_ok : PmmOk Mm.smallPmm := Mm.init_spec Mm.smallMemmap_ok Mm.smallMemmap_init

theorem smallShm_start : (shmMachine true Mm.smallPmm).start smallShm := ⟨1, rfl⟩

/-- A segment of one page is attached, at the address that is free. -/
def attachOne : List ShmEvent :=
  [.shmget root IPC_PRIVATE 4096 0, .shmat 0 root 1 0 0, .advance 0 ⟨some 0x10000, true, true⟩ false,
    .advance 0 ⟨none, true, true⟩ false]

/-- The frame at page 16 of process `p`, its count, and the count of segment 0. -/
def countsAt16 (p : Nat) (r : Except Trap Shm) : Option (Nat × Nat × Nat) :=
  match r with
  | .ok s => do
      let f ← (← s.space? p).pt 16
      let seg ← s.segments[0]?
      if seg.in_use || s.pmm.refs f = 0 then some (f, s.pmm.refs f, seg.attach_count) else none
  | .error _ => none

/-- No shmdt is back from its address space. -/
def noneDetached (r : Except Trap Shm) : Bool :=
  match r with
  | .ok s => s.calls.all fun c =>
    match c with
    | .detached .. => false
    | _ => true
  | .error _ => true

theorem undisturbed_advance {r : Except Trap Shm} (h : noneDetached r = true) (k : Nat)
    (env : AttachEnv) (oom : Bool) : Undisturbed r (.advance k env oom) := by
  rintro s rfl p proc i seg hk
  have := all_eq_true.mp h _ (mem_of_getElem? hk)
  cases this

theorem countsAt16_some {p f n m : Nat} {r : Except Trap Shm} (h : countsAt16 p r = some (f, n, m)) :
    ∃ s sp, r = .ok s ∧ s.space? p = some sp ∧ sp.pt 16 = some f ∧ s.pmm.refs f = n ∧
      (n ≠ 0 → ∃ seg, Live s 0 seg ∧ seg.attach_count = m) := by
  unfold countsAt16 at h
  cases r with
  | error t => cases h
  | ok s =>
    obtain ⟨sp, hsp, h⟩ := Option.bind_eq_some_iff.mp h
    obtain ⟨f', hf, h⟩ := Option.bind_eq_some_iff.mp h
    obtain ⟨seg, hseg, h⟩ := Option.bind_eq_some_iff.mp h
    split_ifs at h with huse
    cases h
    refine ⟨s, sp, rfl, hsp, hf, rfl, fun hne => ⟨seg, ⟨hseg, ?_⟩, rfl⟩⟩
    simpa [hne] using huse

end Zigk.Ipc
