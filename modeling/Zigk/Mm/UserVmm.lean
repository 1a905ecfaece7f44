/-
  Subject:   WHERE MAPPINGS GO, AND WHAT MAY BE DONE WITH THEM (mm/user_vmm.zig).

  * `Placement` -- what is expected of `findFreeRange`: an address it returns is free and in the
    bounds, and it returns none only if there is none;
  * `freeFrom_sound`, `freeFrom_least` -- the walk finds the first gap behind its cursor;
  * **`placement`** -- the cursor stays in the bounds exactly if no room is left behind a VMA below
    `mmap_base`, nor only beyond `USER_MMAP_END`; `placement_refuted` -- a program at 4 MiB;
  * `handlePageFault` -- **`pageFault`**: a fault is served in vain, or against the protection,
    exactly if it is not a write and nobody has looked; `pageFault_refuted` -- `PROT_NONE`;
  * `mprotect` -- **`protected`**: it changes the protection of whole VMAs; `protected_refuted`.

  A page table is the entries of its pages. All pages of a process are of 4 KiB.
-/
import Zigk.Mm.AddressSpaceInvariant

namespace Zigk.Mm.Areas

open List Option

variable {l : List Area} {v w : Area} {s : AddressSpace} {size a b c : Nat}

/-! ## 1. Placement -/

/-- `size` bytes at `a` are free, and end by another VMA or by the end of all mappings. -/
structure Room (l : List Area) (size a : Nat) : Prop where
  free : Free a (a + size) l
  bounded : a + size ≤ USER_MMAP_END ∨ ∃ v ∈ l, a + size ≤ v.start

/-- An address is returned if there is one, and it is in the bounds. -/
structure Placement (s : AddressSpace) (size : Nat) : Prop where
  sound : ∀ a, s.findFreeRange size = some a →
    s.mmap_base ≤ a ∧ a + size ≤ USER_MMAP_END ∧ Free a (a + size) s.vmas
  complete : s.findFreeRange size = none → ∀ a, s.mmap_base ≤ a → a + size ≤ USER_MMAP_END →
    ¬ Free a (a + size) s.vmas

/-- **When the walk stays in the bounds**: there is no room behind a VMA that ends below the base,
    and if there is room beyond the end of mappings there is some before it. -/
structure Bounded (s : AddressSpace) (size : Nat) : Prop where
  low : s.mmap_base ≤ maxInt - size → ∀ v ∈ s.vmas, v.stop < s.mmap_base → ¬ Room s.vmas size v.stop
  high : (∃ a, s.mmap_base ≤ a ∧ a + size ≤ USER_MMAP_END ∧ Free a (a + size) s.vmas) ∨
    ∀ a, s.mmap_base ≤ a → ¬ Room s.vmas size a

theorem Room.rest (hr : Room (v :: l) size b) (ho : Ordered (v :: l)) (hv : v.stop ≤ b) :
    Room l size b := by
  refine ⟨fun w hw => hr.free w (mem_cons_of_mem _ hw), ?_⟩
  obtain h | ⟨w, hw, h⟩ := hr.bounded
  · exact .inl h
  obtain rfl | hw := mem_cons.1 hw
  · have := ho.solid w mem_cons_self
    omega
  · exact .inr ⟨w, hw, h⟩

theorem freeFrom_sound (ho : Ordered l) (h : freeFrom size c l = some a) :
    c ≤ maxInt - size ∧ (a + size ≤ USER_MMAP_END ∨ ∃ v ∈ l, a + size ≤ v.start) ∧
      (a = c ∨ ∃ v ∈ l, a = v.stop) := by
  induction l generalizing c with
  | nil =>
    unfold freeFrom at h
    split_ifs at h with hover hfit
    cases h
    exact ⟨by omega, .inl hfit, .inl rfl⟩
  | cons v l ih =>
    unfold freeFrom at h
    split_ifs at h with hover hfit
    · cases h
      exact ⟨by omega, .inr ⟨v, mem_cons_self, hfit⟩, .inl rfl⟩
    obtain ⟨-, hend, ha⟩ := ih ho.tail h
    refine ⟨by omega, hend.imp_right ?_, .inr ?_⟩
    · rintro ⟨w, hw, h⟩
      exact ⟨w, mem_cons_of_mem _ hw, h⟩
    obtain rfl | ⟨w, hw, rfl⟩ := ha
    · exact ⟨v, mem_cons_self, rfl⟩
    · exact ⟨w, mem_cons_of_mem _ hw, rfl⟩

/-- Where there is room, the walk does not go past it. -/
theorem freeFrom_least (ho : Ordered l) (hmax : ∀ v ∈ l, v.stop ≤ maxInt) (hc : c ≤ b)
    (hr : Room l size b) : ∃ a, freeFrom size c l = some a ∧ a ≤ b := by
  have hb : b + size ≤ maxInt := by
    obtain h | ⟨v, hv, h⟩ := hr.bounded
    · exact Nat.le_trans h (by decide)
    · have := ho.solid v hv
      have := hmax v hv
      omega
  induction l generalizing c with
  | nil =>
    obtain h | ⟨v, hv, -⟩ := hr.bounded
    · refine ⟨c, ?_, hc⟩
      rw [freeFrom, if_neg (by omega), if_pos (by omega)]
    · cases hv
  | cons v l ih =>
    rw [freeFrom, if_neg (by omega)]
    split_ifs with hfit
    · exact ⟨c, rfl, hc⟩
    obtain hv | hv := (hr.free v mem_cons_self).symm
    · omega
    exact ih ho.tail (fun w hw => hmax w (mem_cons_of_mem _ hw)) hv (hr.rest ho hv)

/-- A walk that begins behind room goes back to it. -/
theorem freeFrom_back (ho : Ordered l) (hmax : ∀ v ∈ l, v.stop ≤ maxInt) (hc : c ≤ maxInt - size)
    (hv : v ∈ l) (hlow : v.stop < c) (hr : Room l size v.stop) :
    ∃ a, freeFrom size c l = some a ∧ a ≤ v.stop := by
  have hsolid := ho.solid v hv
  cases l with
  | nil => cases hv
  | cons w l =>
    have hw : w.start ≤ v.start ∧ w.stop ≤ v.stop := by
      obtain rfl | hv := mem_cons.1 hv
      · exact ⟨Nat.le_refl _, Nat.le_refl _⟩
      · have := ho.head hv
        have := ho.solid w mem_cons_self
        omega
    rw [freeFrom, if_neg (by omega), if_neg (by omega)]
    exact freeFrom_least ho.tail (fun w hw => hmax w (mem_cons_of_mem _ hw)) hw.2 (hr.rest ho hw.2)

/-- **The walk is right exactly if it stays in the bounds.** -/
theorem placement (ho : Ordered s.vmas) (hmax : ∀ v ∈ s.vmas, v.stop ≤ maxInt) :
    Placement s size ↔ Bounded s size := by
  constructor
  · intro h
    refine ⟨fun hbase v hv hlow hr => ?_, ?_⟩
    · obtain ⟨a, ha, hle⟩ := freeFrom_back ho hmax hbase hv hlow hr
      have := (h.sound a ha).1
      omega
    by_contra hnot
    obtain ⟨hno, hroom⟩ := not_or.1 hnot
    refine hroom fun b hb hr => ?_
    obtain ⟨a, ha, -⟩ := freeFrom_least ho hmax hb hr
    exact hno ⟨a, h.sound a ha⟩
  · intro h
    refine ⟨fun a ha => ?_, fun hnone a hbase hend hfree => ?_⟩
    · obtain ⟨hbase, hend, hcur⟩ := freeFrom_sound ho ha
      have hr : Room s.vmas size a := ⟨freeFrom_free ho ha, hend⟩
      have hge : s.mmap_base ≤ a := by
        by_contra hlt
        obtain rfl | ⟨v, hv, rfl⟩ := hcur
        · exact hlt (Nat.le_refl _)
        · exact h.low hbase v hv (not_le.1 hlt) hr
      obtain ⟨b, hb, hend, hfree⟩ | hnone := h.high
      · obtain ⟨a', ha', hle⟩ := freeFrom_least ho hmax hb ⟨hfree, .inl hend⟩
        obtain rfl : a' = a := Option.some.inj (ha'.symm.trans ha)
        exact ⟨hge, by omega, hr.free⟩
      · exact absurd hr (hnone a hge)
    · obtain ⟨a', ha', -⟩ := freeFrom_least ho hmax hbase ⟨hfree, .inl hend⟩
      cases hnone.symm.trans ha'

/-- A process with a VMA where programs are loaded. -/
def loaded : AddressSpace where
  vmas := [⟨0x40_0000, 0x50_0000, PROT_READ, MAP_PRIVATE, .Anonymous, .other⟩]
  mmap_base := USER_MMAP_START
  heap_start := 0x50_0000
  heap_break := 0x50_0000
  rlimit_as := maxInt

/-- With the base below it, the VMA is no trouble. -/
theorem placement_loaded : Placement { loaded with mmap_base := 0x40_0000 } PAGE_SIZE := by
  refine (placement ⟨pairwise_singleton _ _, ?_⟩ ?_).2
    ⟨fun _ v hv hlow _ => ?_, .inl ⟨0x50_0000, ?_⟩⟩
  · decide
  · decide
  · obtain rfl := mem_singleton.1 hv
    exact absurd hlow (by decide)
  · unfold Free
    decide

/-- **The address is below the base**, behind the program. -/
theorem placement_refuted : ¬ ∀ (s : AddressSpace) (size : Nat), Ordered s.vmas →
    (∀ v ∈ s.vmas, v.stop ≤ maxInt) → Placement s size := by
  intro h
  have hplaced := h loaded PAGE_SIZE ⟨pairwise_singleton _ _, by decide⟩ (by decide)
  exact absurd (hplaced.sound 0x50_0000 (by decide)).1 (by decide)

/-! ## 2. Page faults -/

def PROT_EXEC : Nat := 0x4

structure PageFlags where
  writable : Bool
  user : Bool
  no_execute : Bool
  deriving DecidableEq, Repr

def protToPageFlags (prot : Nat) : PageFlags :=
  ⟨prot &&& PROT_WRITE ≠ 0, true, prot &&& PROT_EXEC = 0⟩

structure Entry where
  phys : Nat
  flags : PageFlags
  deriving DecidableEq, Repr

structure UserVmm where
  space : AddressSpace
  entries : Nat → Option Entry

open UserVmm

inductive VmmError where
  | OutOfMemory
  | AlreadyMapped

namespace UserVmm

variable (u : UserVmm)

/-- The VMA that covers an address. -/
def vmaAt (addr : Nat) : Option Area := u.space.vmas.find? fun v => v.contains addr

/-- `tables` says whether the tables above the entry can be had. -/
def mapPage (page phys : Nat) (flags : PageFlags) (tables : Bool) : Except VmmError UserVmm :=
  if !tables then .error .OutOfMemory
  else if (u.entries page).isSome then .error .AlreadyMapped
  else .ok { u with entries := Function.update u.entries page (some ⟨phys, flags⟩) }

/-- `frame` is what `allocPage` has to give. -/
def handlePageFault (kernel_base addr err_code : Nat) (frame : Option Nat) (tables : Bool) :
    UserVmm × Bool :=
  if addr ≥ kernel_base then (u, false)
  else match u.vmaAt addr with
  | none => (u, false)
  | some vma =>
    if vma.vma_type = .Device then (u, false)
    else if err_code &&& 4 = 0 then (u, false)
    else if err_code &&& 2 ≠ 0 ∧ vma.prot &&& PROT_WRITE = 0 then (u, false)
    else
      let page_base := pageAlignDown addr
      if (u.entries page_base).isSome then (u, true)
      else match frame with
      | none => (u, false)
      | some phys =>
        match u.mapPage page_base phys (protToPageFlags vma.prot) tables with
        | .ok u => (u, true)
        | .error .AlreadyMapped => (u, true)
        | .error _ => (u, false)

end UserVmm

/-- The access is in the protection: bit 1 of the code is a write, bit 4 a fetch. -/
structure Permits (prot err_code : Nat) : Prop where
  read : err_code &&& 18 = 0 → prot &&& PROT_READ ≠ 0
  write : err_code &&& 2 ≠ 0 → prot &&& PROT_WRITE ≠ 0
  fetch : err_code &&& 16 ≠ 0 → prot &&& PROT_EXEC ≠ 0

/-- The processor lets it through. -/
structure PageFlags.Permits (f : PageFlags) (err_code : Nat) : Prop where
  user : f.user = true
  write : err_code &&& 2 ≠ 0 → f.writable = true
  fetch : err_code &&& 16 ≠ 0 → f.no_execute = false

section Faults

variable (u : UserVmm) (kernel_base addr err_code : Nat) (frame : Option Nat) (tables : Bool)

/-- Tried again, the access does not fault for the same reason. -/
def Served : Prop :=
  (u.handlePageFault kernel_base addr err_code frame tables).2 = true →
    (∃ v, u.vmaAt addr = some v ∧ Permits v.prot err_code) ∧
    ∃ e, (u.handlePageFault kernel_base addr err_code frame tables).1.entries (pageAlignDown addr) =
      some e ∧ e.flags.Permits err_code

/-- A fault that is not served: in the kernel or of it, in no VMA or in a device, a write where
    none is permitted, or there is no memory. -/
def Refused : Prop :=
  addr ≥ kernel_base ∨ err_code &&& 4 = 0 ∨ ∀ v, u.vmaAt addr = some v →
    v.vma_type = .Device ∨ err_code &&& 2 ≠ 0 ∧ v.prot &&& PROT_WRITE = 0 ∨
    u.entries (pageAlignDown addr) = none ∧ (frame = none ∨ tables = false)

/-- The VMA permits the access, and so does the entry if there is one. -/
def Permitted : Prop :=
  ∃ v, u.vmaAt addr = some v ∧ Permits v.prot err_code ∧
    ∀ e, u.entries (pageAlignDown addr) = some e → e.flags.Permits err_code

variable {u kernel_base addr err_code frame tables}

/-- **A fault is served soundly exactly if it is refused, or was permitted all along.** -/
theorem pageFault : Served u kernel_base addr err_code frame tables ↔
    Refused u kernel_base addr err_code frame tables ∨ Permitted u addr err_code := by
  unfold Served Refused Permitted handlePageFault
  by_cases hk : addr ≥ kernel_base
  · simp [hk]
  cases hv : u.vmaAt addr with
  | none => simp [hk]
  | some v =>
    simp only [hk, if_false, Option.some.injEq, exists_eq_left', forall_eq', false_or]
    by_cases hd : v.vma_type = .Device
    · simp [hd]
    by_cases hu : err_code &&& 4 = 0
    · simp [hd, hu]
    by_cases hw : err_code &&& 2 ≠ 0 ∧ v.prot &&& PROT_WRITE = 0
    · simp [hd, hu, hw]
    rw [if_neg hd, if_neg hu, if_neg hw]
    cases he : u.entries (pageAlignDown addr) with
    | some e => simp [hd, hu, hw, he]
    | none =>
      cases frame with
      | none => simp
      | some phys =>
        cases tables with
        | false => simp [mapPage]
        | true =>
          -- a new entry has the flags of the VMA
          have hnew : Permits v.prot err_code → (protToPageFlags v.prot).Permits err_code :=
            fun h => ⟨rfl, fun hw => decide_eq_true (h.write hw),
              fun hf => decide_eq_false (h.fetch hf)⟩
          simpa [mapPage, he, hd, hu, hw] using hnew

end Faults

/-- A process whose only VMA has that protection, and no page of it is mapped. -/
def withProt (prot : Nat) : UserVmm where
  space := { loaded with
    vmas := [⟨0x40_0000, 0x40_4000, prot, MAP_PRIVATE, .Anonymous, .other⟩] }
  entries _ := none

/-- **What is not to be read is read**: the entry that a first read makes is a readable one. -/
theorem pageFault_refuted : ¬ ∀ (u : UserVmm) (kernel_base addr err_code : Nat)
    (frame : Option Nat) (tables : Bool), Served u kernel_base addr err_code frame tables := by
  intro h
  obtain ⟨⟨v, hv, hp⟩, -⟩ := h (withProt 0) (2 ^ 63) 0x40_0000 4 (some 0x1000) true (by decide)
  obtain rfl := Option.some.inj hv
  exact hp.read (by decide) (by decide)

/-! ## 3. Protection -/

namespace UserVmm

variable (u : UserVmm)

/-- A VMA in the range gets the protection. -/
def protectVma (addr end_addr prot : Nat) (v : Area) : Area :=
  if v.overlaps addr end_addr then { v with prot := prot } else v

/-- The pages that the loop over a VMA gets to: from the greater start on, by whole pages. -/
def visits (addr end_addr page : Nat) (v : Area) : Bool :=
  isPageAligned page && isPageAligned (max addr v.start) && max addr v.start ≤ page &&
    page < min end_addr v.stop

/-- `protectPage` for all of them; where nothing is mapped it does nothing. -/
def protectPages (addr end_addr : Nat) (flags : PageFlags) : Nat → Option Entry := fun page =>
  if u.space.vmas.any (visits addr end_addr page) then
    (u.entries page).map fun e => { e with flags := flags }
  else u.entries page

def mprotect (addr len prot : Nat) : Except Trap (UserVmm × Except Errno Unit) := do
  if !isPageAligned addr then return (u, .error .EINVAL)
  if len = 0 then return (u, .ok ())
  let aligned_len ← alignForward len
  if addr > maxInt - aligned_len then return (u, .error .EINVAL)
  let end_addr := addr + aligned_len
  if (findOverlappingVma addr end_addr u.space.vmas).isNone then return (u, .error .ENOMEM)
  return ({ space := u.space.setVmas (u.space.vmas.map (protectVma addr end_addr prot))
            entries := u.protectPages addr end_addr (protToPageFlags prot) }, .ok ())

end UserVmm

/-- The range has the protection, and around it nothing has changed, nor is there a fault that is
    served in another way. -/
structure Protected (u u' : UserVmm) (addr end_addr prot : Nat) : Prop where
  inside : ∀ a v, addr ≤ a → a < end_addr → u'.vmaAt a = some v → v.prot = prot
  outside : ∀ a, a < addr ∨ end_addr ≤ a → (u'.vmaAt a).map Area.prot = (u.vmaAt a).map Area.prot
  faults : ∀ a, a < addr ∨ end_addr ≤ a → ∀ kernel_base err_code frame tables,
    let r := u.handlePageFault kernel_base a err_code frame tables
    let r' := u'.handlePageFault kernel_base a err_code frame tables
    r'.2 = r.2 ∧ r'.1.entries (pageAlignDown a) = r.1.entries (pageAlignDown a)

/-- A VMA that is touched lies in the range, or has the protection. -/
def Whole (u : UserVmm) (addr end_addr prot : Nat) : Prop :=
  addr < end_addr → ∀ v ∈ u.space.vmas, v.overlaps addr end_addr →
    addr ≤ v.start ∧ v.stop ≤ end_addr ∨ v.prot = prot

section Protect

variable {u u' : UserVmm} {addr end_addr len prot : Nat}

theorem contains_iff : v.contains a = true ↔ v.start ≤ a ∧ a < v.stop := by
  simp only [Area.contains, Bool.and_eq_true, decide_eq_true_eq]

/-- Only one VMA covers an address. -/
theorem find_contains (ho : Ordered l) (hv : v ∈ l) (ha : v.start ≤ a ∧ a < v.stop) :
    l.find? (fun w => w.contains a) = some v := by
  induction l with
  | nil => cases hv
  | cons c l ih =>
    obtain rfl | hv := mem_cons.1 hv
    · exact find?_cons_of_pos (contains_iff.2 ha)
    · have := ho.head hv
      rw [find?_cons_of_neg (fun hc => by have := contains_iff.1 hc; omega)]
      exact ih ho.tail hv

/-- A fault is served by the protection of the VMA and by the entry of the page. -/
theorem handlePageFault_congr {g : Area → Area} (hv : u'.vmaAt a = (u.vmaAt a).map g)
    (hg : ∀ v, u.vmaAt a = some v → (g v).vma_type = v.vma_type ∧ (g v).prot = v.prot)
    (he : u'.entries (pageAlignDown a) = u.entries (pageAlignDown a))
    (kernel_base err_code : Nat) (frame : Option Nat) (tables : Bool) :
    let r := u.handlePageFault kernel_base a err_code frame tables
    let r' := u'.handlePageFault kernel_base a err_code frame tables
    r'.2 = r.2 ∧ r'.1.entries (pageAlignDown a) = r.1.entries (pageAlignDown a) := by
  intro r r'
  simp only [r, r', handlePageFault, hv, he, mapPage]
  cases hu : u.vmaAt a with
  | none => simp [he]
  | some v =>
    obtain ⟨ht, hp⟩ := hg v hu
    simp only [map_some, ht, hp]
    split_ifs <;> cases frame <;> simp [he]

theorem vmaAt_some (h : u.vmaAt a = some v) : v ∈ u.space.vmas ∧ v.start ≤ a ∧ a < v.stop :=
  ⟨mem_of_find?_eq_some h, contains_iff.1 (find?_some h :)⟩

theorem overlaps_iff : v.overlaps a b = true ↔ v.start < b ∧ a < v.stop := by
  simp only [Area.overlaps, Bool.and_eq_true, decide_eq_true_eq]

/-- What a call that returns 0 leaves: the VMA that covers an address is the one that did, with the
    protection if it is touched. -/
theorem mprotect_ok (h : u.mprotect addr len prot = .ok (u', .ok ())) :
    addr % PAGE_SIZE = 0 ∧ (len = 0 ∧ u' = u ∨ len ≠ 0 ∧
      (∀ a, u'.vmaAt a = (u.vmaAt a).map (protectVma addr (addr + roundUp len) prot)) ∧
      u'.entries = u.protectPages addr (addr + roundUp len) (protToPageFlags prot)) := by
  unfold mprotect at h
  split_ifs at h with hal hlen
  · cases h
  · cases h
    exact ⟨by simpa [isPageAligned] using hal, .inl ⟨hlen, rfl⟩⟩
  replace h := alignForward_bind h
  dsimp only at h
  split_ifs at h
  · cases h
  · cases h
  cases h
  refine ⟨by simpa [isPageAligned] using hal, .inr ⟨hlen, fun a => ?_, rfl⟩⟩
  have hcontains : (fun v => v.contains a) ∘
      protectVma addr (addr + roundUp len) prot = fun v => v.contains a := by
    funext v
    simp only [Function.comp_apply, protectVma]
    split
    · rfl
    · rfl
  show (u.space.vmas.map _).find? _ = _
  rw [find?_map, hcontains]
  rfl

/-- A page outside of the range is none that the loops get to. -/
theorem protectPages_outside {flags : PageFlags} (hal : addr % PAGE_SIZE = 0)
    (ha : a < addr ∨ addr + roundUp len ≤ a) :
    u.protectPages addr (addr + roundUp len) flags (pageAlignDown a) =
      u.entries (pageAlignDown a) := by
  refine if_neg fun hany => ?_
  obtain ⟨v, -, hv⟩ := any_eq_true.1 hany
  simp only [visits, Bool.and_eq_true, decide_eq_true_eq] at hv
  unfold roundUp pageAlignDown PAGE_SIZE at *
  omega

/-- **The protection stays local exactly if the VMAs that are touched are changed as a whole.** -/
theorem locality (ho : Ordered u.space.vmas) (h : u.mprotect addr len prot = .ok (u', .ok ())) :
    Protected u u' addr (addr + roundUp len) prot ↔ Whole u addr (addr + roundUp len) prot := by
  obtain ⟨hal, ⟨rfl, rfl⟩ | ⟨hlen, hvma, hentries⟩⟩ := mprotect_ok h
  · have hzero : roundUp 0 = 0 := rfl
    rw [hzero]
    exact ⟨fun _ hlt => absurd hlt (Nat.lt_irrefl _),
      fun _ => ⟨fun _ _ _ _ => by omega, fun _ _ => rfl, fun _ _ _ _ _ _ => ⟨rfl, rfl⟩⟩⟩
  have hpos := roundUp_pos hlen
  constructor
  · intro hp _ v hv hov
    by_contra hnot
    obtain ⟨hout, hne⟩ := not_or.1 hnot
    have hs := overlaps_iff.1 hov
    have hsolid := ho.solid v hv
    -- an address of the VMA on one of the sides
    obtain ⟨a, ha, hcov⟩ : ∃ a, (a < addr ∨ addr + roundUp len ≤ a) ∧ v.start ≤ a ∧ a < v.stop := by
      by_cases hlow : v.start < addr
      · exact ⟨v.start, by omega, by omega⟩
      · exact ⟨v.stop - 1, by omega, by omega⟩
    have hsame := hp.outside a ha
    rw [hvma, show u.vmaAt a = some v from find_contains ho hv hcov] at hsame
    simp only [map_some, protectVma, if_pos hov] at hsame
    exact hne (Option.some.inj hsame).symm
  · intro hw
    have hg : ∀ a, (a < addr ∨ addr + roundUp len ≤ a) → ∀ v, u.vmaAt a = some v →
        (protectVma addr (addr + roundUp len) prot v).vma_type = v.vma_type ∧
        (protectVma addr (addr + roundUp len) prot v).prot = v.prot := by
      intro a ha v hv
      unfold protectVma
      split
      · rename_i hov
        obtain ⟨hm, hcov⟩ := vmaAt_some hv
        obtain hin | hsame := hw (by omega) v hm hov
        · omega
        · exact ⟨rfl, hsame.symm⟩
      · exact ⟨rfl, rfl⟩
    refine ⟨fun a v hlow hhigh hv => ?_, fun a ha => ?_, fun a ha => ?_⟩
    · rw [hvma] at hv
      obtain ⟨w, hw, rfl⟩ := map_eq_some_iff.1 hv
      have hcov := (vmaAt_some hw).2
      rw [protectVma, if_pos (overlaps_iff.2 (by omega))]
    · rw [hvma]
      cases hv : u.vmaAt a with
      | none => rfl
      | some v => exact congrArg some (hg a ha v hv).2
    · exact handlePageFault_congr (hvma a) (hg a ha) (hentries ▸ protectPages_outside hal ha)

end Protect

theorem withProt_ordered (prot : Nat) : Ordered (withProt prot).space.vmas :=
  ⟨pairwise_singleton _ _, fun v hv => by
    obtain rfl := mem_singleton.1 hv
    exact (by decide : 0x40_0000 < 0x40_4000)⟩

/-- All of a VMA. -/
theorem locality_all : ∃ u', (withProt 3).mprotect 0x40_0000 0x4000 PROT_READ = .ok (u', .ok ()) ∧
    Protected (withProt 3) u' 0x40_0000 (0x40_0000 + roundUp 0x4000) PROT_READ := by
  refine ⟨_, rfl, (locality (withProt_ordered 3) rfl).2 fun _ v hv _ => .inl ?_⟩
  obtain rfl := mem_singleton.1 hv
  decide

/-- **One page takes the others with it**: the page before it is no longer to be written. -/
theorem locality_refuted : ¬ ∀ (u u' : UserVmm) (addr len prot : Nat), Ordered u.space.vmas →
    u.mprotect addr len prot = .ok (u', .ok ()) →
    Protected u u' addr (addr + roundUp len) prot := by
  intro h
  have hsame := (h (withProt 3) _ 0x40_1000 0x1000 PROT_READ (withProt_ordered 3) rfl).outside
    0x40_0000 (by decide)
  exact absurd hsame (by decide)

end Zigk.Mm.Areas
