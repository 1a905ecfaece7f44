/-
  Subject:   THE RINGS BETWEEN PROCESSES: when their pages go back to the allocator.

  A ring is created by its producer, attached to by its consumer, detached from by either; the
  system calls map its pages into the address space of the caller, in sections of their own.

  * `RingDescriptor`, `allocateRing`, `attachConsumer`, `detach`, `cleanupByPid` -- ring.zig;
    `mapRingToProcess` and the calls around it -- the system calls (hw/ring.zig);
  * **`ringLifetime`** -- in runs of calm steps every run of pages goes back exactly once, when
    nobody has it mapped, and a failed creation leaves nothing behind.

  Nothing calls `cleanupByPid`; the end of a process destroys its address space, which frees the
  pages of every mapping that is not one of a device, the rings' among them. Left out: what lies in
  a ring, the waiting for it, and the mapping calls of the processes themselves.
-/
import Mathlib.Data.List.FinRange
import Zigk.Base.Machine

namespace Zigk.Ipc

open Function List

/-! ## 1. ring.zig -/

def MAX_RINGS : Nat := 256
def MIN_RING_ENTRIES : Nat := 2
def MAX_RING_ENTRIES : Nat := 4096
def MIN_ENTRY_SIZE : Nat := 16
def MAX_ENTRY_SIZE : Nat := 64 * 1024
def RING_PAGE_SIZE : Nat := 4096

inductive RingState where
  | free | created | attached | closing
  deriving DecidableEq, Repr

/-- A slot of the table; the runs of pages are numbered from 1 in the order of their allocation,
    no run is 0. -/
structure RingDescriptor where
  ring_phys : Nat := 0
  page_count : Nat := 0
  entry_size : Nat := 0
  entry_count : Nat := 0
  producer_pid : Nat := 0
  consumer_pid : Nat := 0
  state : RingState := .free
  producer_mapped : Bool := false
  consumer_mapped : Bool := false
  deriving DecidableEq, Repr

def isPowerOf2 (n : Nat) : Bool := n > 0 && n &&& (n - 1) = 0

def ringArgsOk (entry_size entry_count : Nat) : Bool :=
  MIN_ENTRY_SIZE ≤ entry_size && entry_size ≤ MAX_ENTRY_SIZE && MIN_RING_ENTRIES ≤ entry_count &&
    entry_count ≤ MAX_RING_ENTRIES && isPowerOf2 entry_count

def RingHeader.DATA_OFFSET : Nat := 384

def RingHeader.totalSize (entry_count entry_size : Nat) : Nat :=
  DATA_OFFSET + entry_count * entry_size

def ringPages (entry_size entry_count : Nat) : Nat :=
  (RingHeader.totalSize entry_count entry_size + RING_PAGE_SIZE - 1) / RING_PAGE_SIZE

/-- The descriptor of a ring that has just been created. -/
def newRing (run entry_size entry_count producer_pid consumer_pid : Nat) : RingDescriptor where
  ring_phys := run
  page_count := ringPages entry_size entry_count
  entry_size := entry_size
  entry_count := entry_count
  producer_pid := producer_pid
  consumer_pid := consumer_pid
  state := .created

/-- Which side a mapping was made for. -/
inductive RingSide where
  | producer | consumer
  deriving DecidableEq, Repr

/-- A call between two of its sections. -/
inductive RingCall where
  /-- `allocateRing` has its pages, and has not yet looked for a slot. -/
  | place (pid run entry_size entry_count consumer_pid : Nat)
  /-- `allocateRing` found no slot and freed the pages; its `errdefer` is next. -/
  | errdefer (run : Nat)
  /-- `sys_ring_create` before the mapping; `run` is the one of its ring. -/
  | mapProducer (pid : Nat) (idx : Fin MAX_RINGS) (run : Nat)
  | finishCreate (pid : Nat) (idx : Fin MAX_RINGS) (run : Nat)
  /-- `sys_ring_attach` has seen its own pid. -/
  | checkState (pid : Nat) (idx : Fin MAX_RINGS)
  | mapConsumer (pid : Nat) (idx : Fin MAX_RINGS)
  | finishAttach (pid : Nat) (idx : Fin MAX_RINGS) (run pages : Nat)
  deriving DecidableEq, Repr

def RingCall.pid : RingCall → Option Nat
  | .place pid .. | .mapProducer pid .. | .finishCreate pid .. | .checkState pid _
  | .mapConsumer pid _ | .finishAttach pid .. => some pid
  | .errdefer _ => none

/-- The table, the runs of pages and the calls of the threads `T`. `freed` counts how often a run
    went back, `maps` has one entry for each mapping of a process. -/
structure RingTable (T : Type) where
  rings : Fin MAX_RINGS → RingDescriptor := fun _ => {}
  allocated : Nat := 0
  freed : Nat → Nat := fun _ => 0
  maps : Nat → List (Nat × RingSide) := fun _ => []
  calls : T → Option RingCall := fun _ => none
  /-- The runs of the creations that failed. -/
  failed : List Nat := []

namespace RingTable

variable {T : Type} (s : RingTable T)

def setRing (i : Fin MAX_RINGS) (ring : RingDescriptor) : RingTable T :=
  { s with rings := update s.rings i ring }

def setCall [DecidableEq T] (t : T) (c : Option RingCall) : RingTable T :=
  { s with calls := update s.calls t c }

/-- `pmm.freePages`. -/
def freePages (run : Nat) : RingTable T :=
  { s with freed := update s.freed run (s.freed run + 1) }

def setMaps (pid : Nat) (l : List (Nat × RingSide)) : RingTable T :=
  { s with maps := update s.maps pid l }

def fail (run : Nat) : RingTable T := { s with failed := run :: s.failed }

theorem setRing_self (i : Fin MAX_RINGS) (ring : RingDescriptor) :
    (s.setRing i ring).rings i = ring := update_self ..

theorem setRing_ne {i j : Fin MAX_RINGS} (h : j ≠ i) (ring : RingDescriptor) :
    (s.setRing i ring).rings j = s.rings j := update_of_ne h ..

theorem setMaps_self (pid : Nat) (l : List (Nat × RingSide)) : (s.setMaps pid l).maps pid = l :=
  update_self ..

theorem setMaps_ne {pid q : Nat} (h : q ≠ pid) (l : List (Nat × RingSide)) :
    (s.setMaps pid l).maps q = s.maps q := update_of_ne h ..

theorem freePages_self (run : Nat) : (s.freePages run).freed run = s.freed run + 1 :=
  update_self ..

theorem freePages_ne {run k : Nat} (h : k ≠ run) : (s.freePages run).freed k = s.freed k :=
  update_of_ne h ..

variable {s} in
/-- A call after one has changed: the changed one, or another. -/
theorem setCall_some [DecidableEq T] {t u : T} {c' : Option RingCall} {c : RingCall}
    (h : (s.setCall t c').calls u = some c) : u = t ∧ c' = some c ∨ u ≠ t ∧ s.calls u = some c := by
  change update s.calls t c' u = some c at h
  by_cases e : u = t
  · subst e
    exact .inl ⟨rfl, by rwa [update_self] at h⟩
  · exact .inr ⟨e, by rwa [update_of_ne e] at h⟩

variable [DecidableEq T]

def findFree : Option (Fin MAX_RINGS) :=
  (List.finRange MAX_RINGS).find? fun i => (s.rings i).state = .free

def freeRingLocked (i : Fin MAX_RINGS) : RingTable T :=
  let s' := if (s.rings i).ring_phys ≠ 0 then s.freePages (s.rings i).ring_phys else s
  s'.setRing i {}

/-- The first part of `allocateRing`; `room` says whether the allocator has the pages. -/
def allocateRing (t : T) (pid entry_size entry_count consumer_pid : Nat) (room : Bool) :
    RingTable T :=
  if ringArgsOk entry_size entry_count && room then
    { s with allocated := s.allocated + 1 }.setCall t
      (some (.place pid (s.allocated + 1) entry_size entry_count consumer_pid))
  else s

/-- The second part, under the lock. -/
def placeRing (t : T) (pid run entry_size entry_count consumer_pid : Nat) : RingTable T :=
  match s.findFree with
  | some i =>
    (s.setRing i (newRing run entry_size entry_count pid consumer_pid)).setCall t
      (some (.mapProducer pid i run))
  | none => (s.freePages run).setCall t (some (.errdefer run))

/-- `mapRingToProcess`: the pages of the slot as it is now. -/
def startMap (pid : Nat) (i : Fin MAX_RINGS) (side : RingSide) : RingTable T :=
  if (s.rings i).page_count = 0 then s
  else s.setMaps pid (((s.rings i).ring_phys, side) :: s.maps pid)

/-- What `mapRingToProcess` does when it fails. -/
def rollback (pid run : Nat) (side : RingSide) : RingTable T :=
  s.setMaps pid ((s.maps pid).erase (run, side))

/-- `unmapRingFromProcess`: the length is that of the slot as it is now, and what a mapping that
    goes as a whole has mapped is freed. -/
def unmapRing (pid : Nat) (i : Fin MAX_RINGS) (run pages : Nat) : RingTable T :=
  if (s.rings i).page_count = 0 ∨ (s.rings i).page_count < pages then s
  else (s.rollback pid run .consumer).freePages run

def attachConsumer (i : Fin MAX_RINGS) (pid : Nat) : Option (RingTable T) :=
  let ring := s.rings i
  if ring.consumer_pid ≠ pid then none
  else if ring.state ≠ .created then none
  else some (s.setRing i { ring with state := .attached, consumer_mapped := true })

/-- `detach`, of a slot that is in use and has `pid` on a side. -/
def detachRing (i : Fin MAX_RINGS) (pid : Nat) : RingTable T :=
  let ring := s.rings i
  if ring.producer_pid ≠ pid ∧ ring.consumer_pid ≠ pid then s
  else
    let ring := { ring with
      state := .closing
      producer_mapped := if ring.producer_pid = pid then false else ring.producer_mapped
      consumer_mapped := if ring.consumer_pid = pid then false else ring.consumer_mapped }
    let s' := s.setRing i ring
    if !ring.producer_mapped && !ring.consumer_mapped then s'.freeRingLocked i else s'

/-- One slot of `cleanupByPid`, with its `should_free`. -/
def cleanupSlot (ring : RingDescriptor) (pid : Nat) : RingDescriptor × Bool :=
  let r :=
    if ring.producer_pid = pid then
      ({ ring with producer_mapped := false, state := .closing }, !ring.consumer_mapped)
    else (ring, false)
  if r.1.consumer_pid = pid then
    ({ r.1 with consumer_mapped := false, state := .closing }, r.2 || !r.1.producer_mapped)
  else r

def cleanupRing (pid : Nat) (s : RingTable T) (i : Fin MAX_RINGS) : RingTable T :=
  if (s.rings i).state = .free then s
  else
    let r := cleanupSlot (s.rings i) pid
    let s' := s.setRing i r.1
    if r.2 then s'.freeRingLocked i else s'

def cleanupByPid (pid : Nat) : RingTable T := (List.finRange MAX_RINGS).foldl (cleanupRing pid) s

/-- The end of a process: the pages of its mappings are unmapped and freed, one after another. -/
def exit (pid : Nat) : RingTable T :=
  { s.setMaps pid [] with freed := fun run => s.freed run + ((s.maps pid).map Prod.fst).count run }

/-! ## 2. The calls, section by section -/

/-- `getRing` and the first check of `sys_ring_attach`. -/
def attach (t : T) (pid : Nat) (i : Fin MAX_RINGS) : RingTable T :=
  if (s.rings i).state ≠ .free ∧ (s.rings i).consumer_pid = pid then
    s.setCall t (some (.checkState pid i))
  else s

/-- The end of `sys_ring_create`; `ok` says whether the mapping succeeded. -/
def finishCreate (t : T) (pid : Nat) (i : Fin MAX_RINGS) (run : Nat) (ok : Bool) : RingTable T :=
  if ok then (s.setRing i { s.rings i with producer_mapped := true }).setCall t none
  else (((s.rollback pid run .producer).freeRingLocked i).fail run).setCall t none

/-- The end of `sys_ring_attach`. -/
def finishAttach (t : T) (pid : Nat) (i : Fin MAX_RINGS) (run pages : Nat) (ok : Bool) :
    RingTable T :=
  if ok then
    match s.attachConsumer i pid with
    | some s' => s'.setCall t none
    | none => (s.unmapRing pid i run pages).setCall t none
  else (s.rollback pid run .consumer).setCall t none

/-- The next section of a call. -/
def advance (t : T) (ok : Bool) : RingCall → RingTable T
  | .place pid run entry_size entry_count consumer_pid =>
    s.placeRing t pid run entry_size entry_count consumer_pid
  | .errdefer run => ((s.freePages run).fail run).setCall t none
  | .mapProducer pid i _ =>
    (s.startMap pid i .producer).setCall t (some (.finishCreate pid i (s.rings i).ring_phys))
  | .finishCreate pid i run => s.finishCreate t pid i run ok
  | .checkState pid i =>
    s.setCall t (if (s.rings i).state = .created then some (.mapConsumer pid i) else none)
  | .mapConsumer pid i =>
    (s.startMap pid i .consumer).setCall t
      (some (.finishAttach pid i (s.rings i).ring_phys (s.rings i).page_count))
  | .finishAttach pid i run pages => s.finishAttach t pid i run pages ok

end RingTable

inductive RingStep (T : Type) where
  | create (t : T) (pid entry_size entry_count consumer_pid : Nat) (room : Bool)
  | attach (t : T) (pid : Nat) (idx : Fin MAX_RINGS)
  | advance (t : T) (ok : Bool)
  | detach (pid : Nat) (idx : Fin MAX_RINGS)
  | cleanup (pid : Nat)
  | exit (pid : Nat)

section Machine

variable {T : Type}

/-- A thread makes one call at a time. -/
def ringMachine (T : Type) [DecidableEq T] : Machine (RingTable T) (RingStep T) where
  start s := s = {}
  step s
    | .create t pid entry_size entry_count consumer_pid room =>
      match s.calls t with
      | none => s.allocateRing t pid entry_size entry_count consumer_pid room
      | some _ => s
    | .attach t pid i =>
      match s.calls t with
      | none => s.attach t pid i
      | some _ => s
    | .advance t ok =>
      match s.calls t with
      | none => s
      | some c => s.advance t ok c
    | .detach pid i => if (s.rings i).state = .free then s else s.detachRing i pid
    | .cleanup pid => s.cleanupByPid pid
    | .exit pid => s.exit pid

/-! ## 3. The law, and the steps that keep it -/

def RingTable.Mapped (s : RingTable T) (run : Nat) : Prop :=
  ∃ pid side, (run, side) ∈ s.maps pid

/-- A creation that is under way holds its pages. -/
def RingCall.Holds (run : Nat) : RingCall → Prop
  | .place _ r .. | .mapProducer _ _ r => r = run
  | _ => False

/-- The law of the pages: no run goes back twice, none that is mapped goes back, and one that is
    neither mapped nor held by a creation has gone back; a failed creation has returned its pages
    and its slot; a free slot is as it was at first. -/
structure RingsSafe (s : RingTable T) : Prop where
  once : ∀ run, s.freed run ≤ 1
  mapped : ∀ run, s.Mapped run → s.freed run = 0
  returned : ∀ run, 1 ≤ run → run ≤ s.allocated → ¬s.Mapped run →
    (∀ t c, s.calls t = some c → ¬c.Holds run) → s.freed run = 1
  failed : ∀ run ∈ s.failed, s.freed run = 1 ∧ ∀ i, (s.rings i).ring_phys ≠ run
  slots : ∀ i, (s.rings i).state = .free → s.rings i = {}

/-- The side other than `pid` is marked as mapped. -/
def RingDescriptor.StillMapped (ring : RingDescriptor) (pid : Nat) : Prop :=
  (ring.producer_pid ≠ pid ∧ ring.producer_mapped = true) ∨
    (ring.consumer_pid ≠ pid ∧ ring.consumer_mapped = true)

/-- The next section of a call finds: a free slot; no other mapping of a ring that is given up;
    pages that are not freed; a ring that still waits for this consumer. -/
def RingCall.Calm (s : RingTable T) (ok : Bool) : RingCall → Prop
  | .place .. => s.findFree ≠ none
  | .finishCreate pid i run => ok = false →
      ¬(s.rollback pid run .producer).Mapped (s.rings i).ring_phys
  | .mapConsumer _ i => s.freed (s.rings i).ring_phys = 0
  | .finishAttach pid i _ _ => ok = true →
      (s.rings i).consumer_pid = pid ∧ (s.rings i).state = .created
  | _ => True

/-- Steps of which the release of the pages is right: a side that leaves is not the last one, and
    a process that ends has no call under way and has what it maps for itself, once. -/
def RingCalm (s : RingTable T) : RingStep T → Prop
  | .advance t ok => ∀ c, s.calls t = some c → c.Calm s ok
  | .detach pid i => (s.rings i).state ≠ .free → (s.rings i).producer_pid = pid ∨
      (s.rings i).consumer_pid = pid → (s.rings i).StillMapped pid
  | .cleanup pid => ∀ i, (s.rings i).state ≠ .free → (s.rings i).producer_pid = pid ∨
      (s.rings i).consumer_pid = pid → (s.rings i).StillMapped pid
  | .exit pid => (∀ t c, s.calls t = some c → c.pid ≠ some pid ∧
        ∀ run side, (run, side) ∈ s.maps pid → ¬c.Holds run) ∧
      ((s.maps pid).map Prod.fst).Nodup ∧
      ∀ run side q side', (run, side) ∈ s.maps pid → (run, side') ∈ s.maps q → q = pid
  | _ => True

/-! ## 4. The invariant -/

/-- A creation under way, up to its last section. -/
def RingCall.Makes (run : Nat) : RingCall → Prop
  | .place _ r .. | .mapProducer _ _ r | .finishCreate _ _ r => r = run
  | _ => False

/-- What a call that is under way may rely on. -/
def RingCall.Sound (s : RingTable T) : RingCall → Prop
  | .place _ run .. => ∀ i, (s.rings i).ring_phys ≠ run
  | .errdefer _ => False
  | .mapProducer _ i run => (s.rings i).state ≠ .free ∧ (s.rings i).ring_phys = run
  | .finishCreate pid i run => (s.rings i).state ≠ .free ∧ (s.rings i).ring_phys = run ∧
      (run, .producer) ∈ s.maps pid
  | _ => True

structure RingInv (s : RingTable T) : Prop where
  slots : ∀ i, s.rings i = {} ∨ (s.rings i).state ≠ .free ∧ (s.rings i).page_count ≠ 0 ∧
    1 ≤ (s.rings i).ring_phys ∧ (s.rings i).ring_phys ≤ s.allocated
  distinct : ∀ i j, (s.rings i).state ≠ .free →
    (s.rings i).ring_phys = (s.rings j).ring_phys → i = j
  once : ∀ run, s.freed run ≤ 1
  fresh : ∀ run, s.freed run ≠ 0 → 1 ≤ run ∧ run ≤ s.allocated
  maps : ∀ run, s.Mapped run → 1 ≤ run ∧ run ≤ s.allocated ∧ s.freed run = 0
  owned : ∀ run, 1 ≤ run → run ≤ s.allocated → s.freed run = 0 →
    (∃ pid, (run, .producer) ∈ s.maps pid) ∨ ∃ t c, s.calls t = some c ∧ c.Holds run
  held : ∀ t c run, s.calls t = some c → c.Holds run → 1 ≤ run ∧ run ≤ s.allocated ∧ s.freed run = 0
  alone : ∀ t t' c c' run, s.calls t = some c → s.calls t' = some c' → c.Makes run →
    c'.Makes run → t = t'
  calls : ∀ t c, s.calls t = some c → c.Sound s
  failed : ∀ run ∈ s.failed, s.freed run = 1 ∧ ∀ i, (s.rings i).ring_phys ≠ run

theorem RingCall.Holds.makes {c : RingCall} {run : Nat} (h : c.Holds run) : c.Makes run := by
  cases c <;> first | exact h | exact h.elim

namespace RingInv

open RingTable

variable {s s' : RingTable T} {i : Fin MAX_RINGS} {pid run : Nat}

theorem start : RingInv ({} : RingTable T) where
  slots _ := .inl rfl
  distinct _ _ h := absurd rfl h
  once _ := Nat.zero_le _
  fresh _ h := absurd rfl h
  maps _ h := nomatch h.choose_spec.choose_spec
  owned _ h1 h2 _ := absurd (Nat.le_trans h1 h2) (Nat.not_succ_le_zero 0)
  held _ _ _ h := nomatch h
  alone _ _ _ _ _ h := nomatch h
  calls _ _ h := nomatch h
  failed _ h := nomatch h

section

variable (h : RingInv s)
include h

/-- **The invariant gives the law.** -/
theorem safe : RingsSafe s where
  once := h.once
  mapped run hm := (h.maps run hm).2.2
  returned run h1 h2 hm hc := by
    have hone := h.once run
    have hne : s.freed run ≠ 0 := fun h0 => by
      rcases h.owned run h1 h2 h0 with ⟨pid, hp⟩ | ⟨t, c, ht, hh⟩
      · exact hm ⟨pid, _, hp⟩
      · exact hc t c ht hh
    omega
  failed := h.failed
  slots i hi := (h.slots i).resolve_right fun hs => hs.1 hi

/-- A call goes on or ends: what it held has been mapped, and what it still makes it made before. -/
theorem setCall [DecidableEq T] {t : T} {c' : Option RingCall}
    (hold : ∀ c, s.calls t = some c → ∀ run, c.Holds run → ∃ pid, (run, .producer) ∈ s.maps pid)
    (hnew : ∀ c, c' = some c → c.Sound s ∧ (∀ run, ¬c.Holds run) ∧
      ∀ run, c.Makes run → ∃ c₀, s.calls t = some c₀ ∧ c₀.Makes run) :
    RingInv (s.setCall t c') where
  slots := h.slots
  distinct := h.distinct
  once := h.once
  fresh := h.fresh
  maps := h.maps
  owned run h1 h2 h0 := by
    rcases h.owned run h1 h2 h0 with hmap | ⟨u, c, hu, hh⟩
    · exact .inl hmap
    by_cases e : u = t
    · subst e
      exact .inl (hold c hu run hh)
    · exact .inr ⟨u, c, (update_of_ne e ..).trans hu, hh⟩
  held u c run hu hh := by
    rcases setCall_some hu with ⟨-, hc⟩ | ⟨-, hu⟩
    · exact absurd hh ((hnew c hc).2.1 run)
    · exact h.held u c run hu hh
  alone u u' c c₂ run hu hu' hm hm' := by
    obtain ⟨d, hd, hdm⟩ : ∃ d, s.calls u = some d ∧ d.Makes run := by
      rcases setCall_some hu with ⟨rfl, hc⟩ | ⟨-, hu⟩
      · exact (hnew c hc).2.2 run hm
      · exact ⟨c, hu, hm⟩
    obtain ⟨d', hd', hdm'⟩ : ∃ d, s.calls u' = some d ∧ d.Makes run := by
      rcases setCall_some hu' with ⟨rfl, hc⟩ | ⟨-, hu'⟩
      · exact (hnew c₂ hc).2.2 run hm'
      · exact ⟨c₂, hu', hm'⟩
    exact h.alone u u' d d' run hd hd' hdm hdm'
  calls u c hu := by
    have hsound : c.Sound s := by
      rcases setCall_some hu with ⟨-, hc⟩ | ⟨-, hu⟩
      · exact (hnew c hc).1
      · exact h.calls u c hu
    cases c <;> exact hsound
  failed := h.failed

/-- The state and the flags of a slot that is in use are not the invariant's business. -/
theorem setFlags {ring : RingDescriptor} (hused : (s.rings i).state ≠ .free)
    (hstate : ring.state ≠ .free) (hpages : ring.page_count = (s.rings i).page_count)
    (hphys : ring.ring_phys = (s.rings i).ring_phys) : RingInv (s.setRing i ring) := by
  have hrun : ∀ j, ((s.setRing i ring).rings j).ring_phys = (s.rings j).ring_phys := by
    intro j
    by_cases e : j = i
    · subst e
      rw [setRing_self, hphys]
    · rw [setRing_ne s e]
  have hst : ∀ j, ((s.setRing i ring).rings j).state ≠ .free ↔ (s.rings j).state ≠ .free := by
    intro j
    by_cases e : j = i
    · subst e
      rw [setRing_self]
      exact iff_of_true hstate hused
    · rw [setRing_ne s e]
  have hsound : ∀ c : RingCall, c.Sound s → c.Sound (s.setRing i ring) := by
    intro c hc
    cases c with
    | place pid run _ _ _ => exact fun j => (hrun j).trans_ne (hc j)
    | errdefer run => exact hc
    | mapProducer pid j run => exact ⟨(hst j).2 hc.1, (hrun j).trans hc.2⟩
    | finishCreate pid j run => exact ⟨(hst j).2 hc.1, (hrun j).trans hc.2.1, hc.2.2⟩
    | checkState pid j => trivial
    | mapConsumer pid j => trivial
    | finishAttach pid j run pages => trivial
  exact {
    slots := fun j => by
      by_cases e : j = i
      · subst e
        obtain hr := (h.slots j).resolve_left fun h0 => hused (by rw [h0])
        rw [setRing_self, hpages, hphys]
        exact .inr ⟨hstate, hr.2⟩
      · rw [setRing_ne s e]
        exact h.slots j
    distinct := fun j k hj hjk => h.distinct j k ((hst j).1 hj) ((hrun j) ▸ (hrun k) ▸ hjk)
    once := h.once
    fresh := h.fresh
    maps := h.maps
    owned := h.owned
    held := h.held
    alone := h.alone
    calls := fun u c hu => hsound c (h.calls u c hu)
    failed := fun run hr =>
      ⟨(h.failed run hr).1, fun j => (hrun j).trans_ne ((h.failed run hr).2 j)⟩ }

/-- A new mapping of a run that is allocated and not freed. -/
theorem addMap (pid : Nat) (side : RingSide) (h1 : 1 ≤ run)
    (h2 : run ≤ s.allocated) (h0 : s.freed run = 0) :
    RingInv (s.setMaps pid ((run, side) :: s.maps pid)) := by
  have hmem : ∀ q k sd, (k, sd) ∈ s.maps q →
      (k, sd) ∈ (s.setMaps pid ((run, side) :: s.maps pid)).maps q := by
    intro q k sd hk
    by_cases e : q = pid
    · subst e
      rw [setMaps_self]
      exact mem_cons_of_mem _ hk
    · rwa [setMaps_ne s e]
  exact { h with
    maps := fun k hk => by
      obtain ⟨q, sd, hq⟩ := hk
      by_cases e : q = pid
      · subst e
        rw [setMaps_self] at hq
        rcases mem_cons.1 hq with hk | hk
        · obtain ⟨rfl, -⟩ := Prod.mk.inj hk
          exact ⟨h1, h2, h0⟩
        · exact h.maps k ⟨q, sd, hk⟩
      · rw [setMaps_ne s e] at hq
        exact h.maps k ⟨q, sd, hq⟩
    owned := fun k k1 k2 k0 =>
      (h.owned k k1 k2 k0).imp_left fun ⟨q, hq⟩ => ⟨q, hmem q k _ hq⟩
    calls := fun u c hu => by
      have hc := h.calls u c hu
      cases c with
      | finishCreate q j k => exact ⟨hc.1, hc.2.1, hmem q k _ hc.2.2⟩
      | _ => exact hc }

/-- A mapping of the consumer goes. -/
theorem dropMap (pid run : Nat) : RingInv (s.rollback pid run .consumer) := by
  have hmem : ∀ q k sd, (k, sd) ∈ (s.rollback pid run .consumer).maps q → (k, sd) ∈ s.maps q := by
    intro q k sd hk
    unfold rollback at hk
    by_cases e : q = pid
    · subst e
      rw [setMaps_self] at hk
      exact mem_of_mem_erase hk
    · rwa [setMaps_ne s e] at hk
  have hkeep : ∀ q k, (k, RingSide.producer) ∈ s.maps q →
      (k, .producer) ∈ (s.rollback pid run .consumer).maps q := by
    intro q k hk
    unfold rollback
    by_cases e : q = pid
    · subst e
      rw [setMaps_self]
      exact (mem_erase_of_ne (by simp)).2 hk
    · rwa [setMaps_ne s e]
  exact { h with
    maps := fun k ⟨q, sd, hq⟩ => h.maps k ⟨q, sd, hmem q k sd hq⟩
    owned := fun k k1 k2 k0 =>
      (h.owned k k1 k2 k0).imp_left fun ⟨q, hq⟩ => ⟨q, hkeep q k hq⟩
    calls := fun u c hu => by
      have hc := h.calls u c hu
      cases c with
      | finishCreate q j k => exact ⟨hc.1, hc.2.1, hkeep q k hc.2.2⟩
      | _ => exact hc }

/-- The run of a slot in use is allocated. -/
theorem used (hi : (s.rings i).state ≠ .free) : (s.rings i).page_count ≠ 0 ∧
    1 ≤ (s.rings i).ring_phys ∧ (s.rings i).ring_phys ≤ s.allocated :=
  ((h.slots i).resolve_left fun h0 => hi (by rw [h0])).2

/-- A side that leaves while the other is marked as mapped frees nothing. -/
theorem detachRing (hused : (s.rings i).state ≠ .free)
    (hcalm : (s.rings i).producer_pid = pid ∨ (s.rings i).consumer_pid = pid →
      (s.rings i).StillMapped pid) : RingInv (s.detachRing i pid) := by
  by_cases hside : (s.rings i).producer_pid ≠ pid ∧ (s.rings i).consumer_pid ≠ pid
  · rw [RingTable.detachRing, if_pos hside]
    exact h
  have hpid : (s.rings i).producer_pid = pid ∨ (s.rings i).consumer_pid = pid := by
    by_contra hno
    exact hside (not_or.1 hno)
  have hkeep :
      (!(if (s.rings i).producer_pid = pid then false else (s.rings i).producer_mapped) &&
        !(if (s.rings i).consumer_pid = pid then false
          else (s.rings i).consumer_mapped)) = false := by
    rcases hcalm hpid with ⟨hne, hm⟩ | ⟨hne, hm⟩
    · rw [if_neg hne, hm]
      rfl
    · rw [if_neg hne, hm]
      exact Bool.and_false _
  rw [RingTable.detachRing, if_neg hside]
  simp only [hkeep, Bool.false_eq_true, if_false]
  exact h.setFlags hused (fun e => nomatch e) rfl rfl

end

theorem cleanupSlot_spec (ring : RingDescriptor) (pid : Nat) (hused : ring.state ≠ .free)
    (hcalm : ring.producer_pid = pid ∨ ring.consumer_pid = pid → ring.StillMapped pid) :
    (cleanupSlot ring pid).2 = false ∧ (cleanupSlot ring pid).1.state ≠ .free ∧
      (cleanupSlot ring pid).1.page_count = ring.page_count ∧
      (cleanupSlot ring pid).1.ring_phys = ring.ring_phys := by
  unfold cleanupSlot
  by_cases hp : ring.producer_pid = pid
  · obtain ⟨hne, hm⟩ := (hcalm (.inl hp)).resolve_left fun hs => hs.1 hp
    simp only [if_pos hp, if_neg hne, hm]
    exact ⟨rfl, nofun, trivial, trivial⟩
  by_cases hc : ring.consumer_pid = pid
  · obtain ⟨-, hm⟩ := (hcalm (.inr hc)).resolve_right fun hs => hs.1 hc
    simp only [if_neg hp, if_pos hc, hm]
    exact ⟨rfl, nofun, trivial, trivial⟩
  · rw [if_neg hp, if_neg hc]
    exact ⟨rfl, hused, rfl, rfl⟩

theorem cleanupRing (h : RingInv s) (hcalm : (s.rings i).state ≠ .free →
      (s.rings i).producer_pid = pid ∨ (s.rings i).consumer_pid = pid →
        (s.rings i).StillMapped pid) : RingInv (cleanupRing pid s i) := by
  unfold RingTable.cleanupRing
  split_ifs with hfree
  · exact h
  · obtain ⟨hno, hstate, hpages, hphys⟩ := cleanupSlot_spec (s.rings i) pid hfree (hcalm hfree)
    simp only [hno, Bool.false_eq_true, if_false]
    exact h.setFlags hfree hstate hpages hphys

theorem cleanupRing_ne {j : Fin MAX_RINGS} (hj : j ≠ i) :
    (RingTable.cleanupRing pid s i).rings j = s.rings j := by
  unfold RingTable.cleanupRing
  split_ifs
  · rfl
  simp only
  split_ifs
  · unfold freeRingLocked
    simp only
    split_ifs
    · exact (setRing_ne _ hj _).trans (setRing_ne s hj _)
    · exact (setRing_ne _ hj _).trans (setRing_ne s hj _)
  · exact setRing_ne s hj _

theorem cleanupByPid (h : RingInv s) (hcalm : ∀ i, (s.rings i).state ≠ .free →
      (s.rings i).producer_pid = pid ∨ (s.rings i).consumer_pid = pid →
        (s.rings i).StillMapped pid) : RingInv (s.cleanupByPid pid) := by
  have hall : ∀ (l : List (Fin MAX_RINGS)) (s : RingTable T), l.Nodup → RingInv s →
      (∀ i ∈ l, (s.rings i).state ≠ .free →
        (s.rings i).producer_pid = pid ∨ (s.rings i).consumer_pid = pid →
          (s.rings i).StillMapped pid) → RingInv (l.foldl (RingTable.cleanupRing pid) s) := by
    intro l
    induction l with
    | nil => exact fun s _ h _ => h
    | cons i l ih =>
      intro s hnd h hc
      obtain ⟨hi, hnd⟩ := nodup_cons.1 hnd
      refine ih _ hnd (h.cleanupRing (hc i mem_cons_self)) fun j hj => ?_
      have hne : j ≠ i := by
        rintro rfl
        exact hi hj
      rw [cleanupRing_ne hne]
      exact hc j (mem_cons_of_mem _ hj)
  exact hall _ s (nodup_finRange _) h fun i _ => hcalm i

/-- A process ends that has what it maps for itself, once. -/
theorem exit (h : RingInv s) (hcalls : ∀ u c, s.calls u = some c → c.pid ≠ some pid ∧
      ∀ run side, (run, side) ∈ s.maps pid → ¬c.Holds run)
    (hnd : ((s.maps pid).map Prod.fst).Nodup)
    (hown : ∀ run side q side', (run, side) ∈ s.maps pid → (run, side') ∈ s.maps q → q = pid) :
    RingInv (s.exit pid) := by
  have hmem : ∀ k, k ∈ (s.maps pid).map Prod.fst ↔ ∃ sd, (k, sd) ∈ s.maps pid := fun k => by
    simp
  have hin : ∀ k sd, (k, sd) ∈ s.maps pid → (s.exit pid).freed k = 1 := by
    intro k sd hk
    have h0 := (h.maps k ⟨pid, sd, hk⟩).2.2
    change s.freed k + ((s.maps pid).map Prod.fst).count k = 1
    rw [h0, count_eq_one_of_mem hnd ((hmem k).2 ⟨sd, hk⟩)]
  have hout : ∀ k, (∀ sd, (k, sd) ∉ s.maps pid) → (s.exit pid).freed k = s.freed k := by
    intro k hk
    change s.freed k + ((s.maps pid).map Prod.fst).count k = s.freed k
    rw [count_eq_zero_of_not_mem fun hm => ?_, Nat.add_zero]
    obtain ⟨sd, hsd⟩ := (hmem k).1 hm
    exact hk sd hsd
  have hself : (s.exit pid).maps pid = [] := setMaps_self s pid []
  have hne : ∀ q, q ≠ pid → (s.exit pid).maps q = s.maps q := fun q e => setMaps_ne s e []
  have hsound : ∀ c : RingCall, c.pid ≠ some pid → c.Sound s → c.Sound (s.exit pid) := by
    intro c hpid hc
    cases c with
    | finishCreate q j r =>
      have e : q ≠ pid := fun e => hpid (congrArg some e)
      exact ⟨hc.1, hc.2.1, (hne q e).symm ▸ hc.2.2⟩
    | _ => exact hc
  have hcase : ∀ k, (∃ sd, (k, sd) ∈ s.maps pid) ∨ ∀ sd, (k, sd) ∉ s.maps pid := fun k =>
    (Classical.em _).imp_right fun hno sd hsd => hno ⟨sd, hsd⟩
  exact {
    slots := h.slots
    distinct := h.distinct
    once := fun k => by
      rcases hcase k with ⟨sd, hk⟩ | hk
      · rw [hin k sd hk]
      · rw [hout k hk]
        exact h.once k
    fresh := fun k hf => by
      rcases hcase k with ⟨sd, hk⟩ | hk
      · exact ⟨(h.maps k ⟨pid, sd, hk⟩).1, (h.maps k ⟨pid, sd, hk⟩).2.1⟩
      · rw [hout k hk] at hf
        exact h.fresh k hf
    maps := fun k ⟨q, sd, hq⟩ => by
      have e : q ≠ pid := by
        rintro rfl
        rw [hself] at hq
        cases hq
      rw [hne q e] at hq
      rw [hout k fun sd' hk => e (hown k sd' q sd hk hq)]
      exact h.maps k ⟨q, sd, hq⟩
    owned := fun k k1 k2 k0 => by
      rcases hcase k with ⟨sd, hk⟩ | hk
      · have := hin k sd hk
        omega
      rw [hout k hk] at k0
      refine (h.owned k k1 k2 k0).imp_left ?_
      rintro ⟨q, hq⟩
      have e : q ≠ pid := by
        rintro rfl
        exact hk _ hq
      exact ⟨q, (hne q e).symm ▸ hq⟩
    held := fun u c k hu hh => by
      rw [hout k fun sd hk => (hcalls u c hu).2 k sd hk hh]
      exact h.held u c k hu hh
    alone := h.alone
    calls := fun u c hu => hsound c (hcalls u c hu).1 (h.calls u c hu)
    failed := fun k hk => by
      obtain ⟨hone, hno⟩ := h.failed k hk
      refine ⟨(hout k fun sd hm => ?_).trans hone, hno⟩
      have := (h.maps k ⟨pid, sd, hm⟩).2.2
      omega }

variable [DecidableEq T] {t : T}

section

variable (h : RingInv s)
include h

theorem allocateRing (ht : s.calls t = none)
    (pid entry_size entry_count consumer_pid : Nat) (room : Bool) :
    RingInv (s.allocateRing t pid entry_size entry_count consumer_pid room) := by
  unfold RingTable.allocateRing
  split_ifs
  · have hnew : s.freed (s.allocated + 1) = 0 := by
      by_contra hf
      have := (h.fresh _ hf).2
      omega
    have hout : ∀ i, (s.rings i).ring_phys ≠ s.allocated + 1 := by
      intro i he
      rcases h.slots i with h0 | hs
      · rw [h0] at he
        cases he
      · omega
    have hcalls : ∀ u c, s.calls u = some c → ¬c.Makes (s.allocated + 1) := by
      intro u c hu hm
      have hc := h.calls u c hu
      cases c with
      | place _ r _ _ _ =>
        obtain rfl : r = _ := hm
        have := (h.held u _ _ hu rfl).2.1
        omega
      | mapProducer _ _ r =>
        obtain rfl : r = _ := hm
        exact hout _ hc.2
      | finishCreate _ _ r =>
        obtain rfl : r = _ := hm
        exact hout _ hc.2.1
      | _ => exact hm
    exact {
      slots := fun i => (h.slots i).imp_right fun hs =>
        ⟨hs.1, hs.2.1, hs.2.2.1, Nat.le_succ_of_le hs.2.2.2⟩
      distinct := h.distinct
      once := h.once
      fresh := fun k hk => ⟨(h.fresh k hk).1, Nat.le_succ_of_le (h.fresh k hk).2⟩
      maps := fun k hk => ⟨(h.maps k hk).1, Nat.le_succ_of_le (h.maps k hk).2.1, (h.maps k hk).2.2⟩
      owned := fun k h1 h2 h0 => by
        rcases Nat.lt_or_eq_of_le h2 with hlt | rfl
        · refine (h.owned k h1 (Nat.le_of_lt_succ hlt) h0).imp_right ?_
          rintro ⟨u, c, hu, hh⟩
          have hne : u ≠ t := by
            rintro rfl
            exact nomatch ht.symm.trans hu
          exact ⟨u, c, (update_of_ne hne ..).trans hu, hh⟩
        · exact .inr ⟨t, _, update_self .., rfl⟩
      held := fun u c k hu hh => by
        rcases setCall_some hu with ⟨-, hc⟩ | ⟨-, hu⟩
        · obtain rfl := Option.some.inj hc
          obtain rfl : s.allocated + 1 = k := hh
          exact ⟨Nat.le_add_left .., Nat.le_refl _, hnew⟩
        · obtain ⟨h1, h2, h0⟩ := h.held u c k hu hh
          exact ⟨h1, Nat.le_succ_of_le h2, h0⟩
      alone := fun u u' c c' k hu hu' hm hm' => by
        rcases setCall_some hu with ⟨he, hc⟩ | ⟨-, hu⟩
        · rcases setCall_some hu' with ⟨he', -⟩ | ⟨-, hu'⟩
          · exact he.trans he'.symm
          · obtain rfl := Option.some.inj hc
            obtain rfl : s.allocated + 1 = k := hm
            exact absurd hm' (hcalls u' c' hu')
        rcases setCall_some hu' with ⟨-, hc⟩ | ⟨-, hu'⟩
        · obtain rfl := Option.some.inj hc
          obtain rfl : s.allocated + 1 = k := hm'
          exact absurd hm (hcalls u c hu)
        · exact h.alone u u' c c' k hu hu' hm hm'
      calls := fun u c hu => by
        rcases setCall_some hu with ⟨-, hc⟩ | ⟨-, hu⟩
        · obtain rfl := Option.some.inj hc
          exact hout
        · have hc := h.calls u c hu
          cases c <;> exact hc
      failed := h.failed }
  · exact h

/-- A run that its creation holds gets its slot. -/
theorem placeRing {entry_size entry_count consumer_pid : Nat}
    (ht : s.calls t = some (.place pid run entry_size entry_count consumer_pid))
    (hfree : s.findFree ≠ none) :
    RingInv (s.placeRing t pid run entry_size entry_count consumer_pid) := by
  unfold RingTable.placeRing
  split
  · next i hi =>
      have hstate : (s.rings i).state = .free := by simpa using find?_some hi
      have hout : ∀ j, (s.rings j).ring_phys ≠ run := h.calls t _ ht
      obtain ⟨h1, h2, h0⟩ := h.held t _ run ht rfl
      have hpages : ringPages entry_size entry_count ≠ 0 := by
        have : 1 ≤ ringPages entry_size entry_count :=
          (Nat.le_div_iff_mul_le (by decide)).2 (by
            unfold RingHeader.totalSize RingHeader.DATA_OFFSET RING_PAGE_SIZE
            omega)
        omega
      have hother : ∀ u c, u ≠ t → s.calls u = some c → ¬c.Makes run := fun u c hne hu hm =>
        hne (h.alone u t c _ run hu ht hm rfl)
      generalize hring : newRing run entry_size entry_count pid consumer_pid = ring
      have hphys : ring.ring_phys = run := hring ▸ rfl
      have hused : ring.state ≠ .free := hring ▸ nofun
      have hcount : ring.page_count ≠ 0 := hring ▸ hpages
      generalize hs' : (s.setRing i ring).setCall t (some (.mapProducer pid i run)) = s'
      have hself : s'.rings i = ring := hs' ▸ setRing_self s i ring
      have hne : ∀ j, j ≠ i → s'.rings j = s.rings j := fun j e => hs' ▸ setRing_ne s e ring
      have hcall : ∀ u c, s'.calls u = some c →
          u = t ∧ c = .mapProducer pid i run ∨ u ≠ t ∧ s.calls u = some c := fun u c hu => by
        rw [← hs'] at hu
        exact (setCall_some hu).imp_left (And.imp_right fun e => (Option.some.inj e).symm)
      have hkeep : ∀ u c, u ≠ t → s.calls u = some c → s'.calls u = some c := fun u c e hu => by
        rw [← hs']
        exact (update_of_ne e ..).trans hu
      have hself' : s'.calls t = some (.mapProducer pid i run) := hs' ▸ update_self ..
      obtain ⟨hfreed, hmaps, hall, hfail⟩ : s'.freed = s.freed ∧ s'.maps = s.maps ∧
          s'.allocated = s.allocated ∧ s'.failed = s.failed := hs' ▸ ⟨rfl, rfl, rfl, rfl⟩
      clear hs'
      exact {
        slots := fun j => by
          rw [hall]
          by_cases e : j = i
          · rw [e, hself, hphys]
            exact .inr ⟨hused, hcount, h1, h2⟩
          · rw [hne j e]
            exact h.slots j
        distinct := fun j k hj hjk => by
          by_cases e : j = i
          · by_cases e' : k = i
            · exact e.trans e'.symm
            · rw [e, hself, hne k e', hphys] at hjk
              exact absurd hjk.symm (hout k)
          by_cases e' : k = i
          · rw [e', hself, hne j e, hphys] at hjk
            exact absurd hjk (hout j)
          · rw [hne j e] at hj hjk
            rw [hne k e'] at hjk
            exact h.distinct j k hj hjk
        once := hfreed ▸ h.once
        fresh := hfreed ▸ hall ▸ h.fresh
        maps := by
          unfold Mapped
          rw [hfreed, hall, hmaps]
          exact h.maps
        owned := fun k k1 k2 k0 => by
          rw [hmaps]
          refine (h.owned k k1 (hall ▸ k2) (hfreed ▸ k0)).imp_right ?_
          rintro ⟨u, c, hu, hh⟩
          by_cases e : u = t
          · subst e
            obtain rfl := Option.some.inj (ht.symm.trans hu)
            exact ⟨u, _, hself', hh⟩
          · exact ⟨u, c, hkeep u c e hu, hh⟩
        held := fun u c k hu hh => by
          rw [hall, hfreed]
          rcases hcall u c hu with ⟨-, rfl⟩ | ⟨-, hu⟩
          · obtain rfl : run = k := hh
            exact ⟨h1, h2, h0⟩
          · exact h.held u c k hu hh
        alone := fun u u' c c' k hu hu' hm hm' => by
          rcases hcall u c hu with ⟨he, rfl⟩ | ⟨hne, hu⟩
          · obtain rfl : run = k := hm
            rcases hcall u' c' hu' with ⟨he', -⟩ | ⟨hne', hu'⟩
            · exact he.trans he'.symm
            · exact absurd hm' (hother u' c' hne' hu')
          rcases hcall u' c' hu' with ⟨-, rfl⟩ | ⟨-, hu'⟩
          · obtain rfl : run = k := hm'
            exact absurd hm (hother u c hne hu)
          · exact h.alone u u' c c' k hu hu' hm hm'
        calls := fun u c hu => by
          rcases hcall u c hu with ⟨-, rfl⟩ | ⟨hut, hu⟩
          · exact ⟨hself.symm ▸ hused, hself.symm ▸ hphys⟩
          have hc := h.calls u c hu
          have hm := hother u c hut hu
          cases c with
          | place _ r _ _ _ =>
            intro j
            by_cases e : j = i
            · rw [e, hself, hphys]
              exact fun he => hm he.symm
            · rw [hne j e]
              exact hc j
          | errdefer _ => exact hc
          | mapProducer _ j r =>
            have e : j ≠ i := by
              rintro rfl
              exact hc.1 hstate
            change (s'.rings j).state ≠ .free ∧ (s'.rings j).ring_phys = r
            rw [hne j e]
            exact hc
          | finishCreate _ j r =>
            have e : j ≠ i := by
              rintro rfl
              exact hc.1 hstate
            change (s'.rings j).state ≠ .free ∧ (s'.rings j).ring_phys = r ∧ _
            rw [hne j e, hmaps]
            exact hc
          | checkState _ _ => trivial
          | mapConsumer _ _ => trivial
          | finishAttach _ _ _ _ => trivial
        failed := fun k hk => by
          rw [hfreed]
          obtain ⟨hone, hno⟩ := h.failed k (hfail ▸ hk)
          refine ⟨hone, fun j => ?_⟩
          by_cases e : j = i
          · rw [e, hself, hphys]
            rintro rfl
            omega
          · rw [hne j e]
            exact hno j }
  · next hi => exact absurd hi hfree

/-- The call ends. -/
theorem endCall (hold : ∀ c, s.calls t = some c → ∀ run, ¬c.Holds run) :
    RingInv (s.setCall t none) :=
  h.setCall (fun c hc run hh => absurd hh (hold c hc run)) fun _ hc => nomatch hc

theorem mapProducer (ht : s.calls t = some (.mapProducer pid i run)) :
    RingInv ((s.startMap pid i .producer).setCall t
      (some (.finishCreate pid i (s.rings i).ring_phys))) := by
  obtain ⟨hused, hphys⟩ := h.calls t _ ht
  obtain ⟨hcount, h1, h2⟩ := h.used hused
  have h0 : s.freed (s.rings i).ring_phys = 0 := hphys ▸ (h.held t _ run ht rfl).2.2
  unfold startMap
  rw [if_neg hcount]
  have hmap : ((s.rings i).ring_phys, RingSide.producer) ∈ (s.setMaps pid
      (((s.rings i).ring_phys, .producer) :: s.maps pid)).maps pid := by
    rw [setMaps_self]
    exact mem_cons_self
  refine (h.addMap pid .producer h1 h2 h0).setCall (fun c hc k hk => ?_) fun c hc => ?_
  · obtain rfl := Option.some.inj (ht.symm.trans hc)
    obtain rfl : run = k := hk
    exact ⟨pid, hphys ▸ hmap⟩
  obtain rfl := Option.some.inj hc
  refine ⟨⟨hused, rfl, hmap⟩, fun _ => nofun, fun k hk => ⟨_, ht, ?_⟩⟩
  obtain rfl : (s.rings i).ring_phys = k := hk
  exact hphys.symm

/-- A creation that fails gives the run back, and the slot. -/
theorem failCreate (ht : s.calls t = some (.finishCreate pid i run))
    (hcalm : ¬(s.rollback pid run .producer).Mapped (s.rings i).ring_phys) :
    RingInv (s.finishCreate t pid i run false) := by
  obtain ⟨hused, hphys, hmap⟩ := h.calls t _ ht
  obtain ⟨h1, h2, h0⟩ := h.maps run ⟨pid, _, hmap⟩
  rw [hphys] at hcalm
  have hother : ∀ u c, u ≠ t → s.calls u = some c → ¬c.Makes run := fun u c hne hu hm =>
    hne (h.alone u t c _ run hu ht hm rfl)
  generalize hs' : s.finishCreate t pid i run false = s'
  have heq : s' = ((((s.rollback pid run .producer).freePages run).setRing i {}).fail run).setCall
      t none := by
    rw [← hs', finishCreate, if_neg (by decide)]
    unfold freeRingLocked
    have hrun : ((s.rollback pid run .producer).rings i).ring_phys = run := hphys
    rw [hrun, if_pos (by omega)]
  have hself : s'.rings i = {} := heq ▸ setRing_self _ i {}
  have hself0 : (s'.rings i).ring_phys = 0 := congrArg RingDescriptor.ring_phys hself
  have hne : ∀ j, j ≠ i → s'.rings j = s.rings j := fun j e => heq ▸ setRing_ne _ e {}
  have hcall : ∀ u c, s'.calls u = some c → u ≠ t ∧ s.calls u = some c := fun u c hu => by
    rw [heq] at hu
    exact (setCall_some hu).resolve_left fun e => nomatch e.2
  have hkeep : ∀ u c, u ≠ t → s.calls u = some c → s'.calls u = some c := fun u c e hu => by
    rw [heq]
    exact (update_of_ne e ..).trans hu
  have hfreed : s'.freed run = 1 := by
    have hf : s'.freed run = s.freed run + 1 := heq ▸ freePages_self _ run
    omega
  have hfreed' : ∀ k, k ≠ run → s'.freed k = s.freed k := fun k e => heq ▸ freePages_ne _ e
  have hmaps : s'.maps = (s.rollback pid run .producer).maps := heq ▸ rfl
  have hmaps' : ∀ q k sd, k ≠ run → ((k, sd) ∈ s'.maps q ↔ (k, sd) ∈ s.maps q) := by
    intro q k sd e
    rw [hmaps]
    unfold rollback
    by_cases eq : q = pid
    · subst eq
      rw [setMaps_self]
      exact mem_erase_of_ne fun he => e (Prod.mk.inj he).1
    · rw [setMaps_ne s eq]
  have hgone : ∀ q sd, (run, sd) ∉ s'.maps q := fun q sd hq => hcalm ⟨q, sd, hmaps ▸ hq⟩
  obtain ⟨hall, hfail⟩ : s'.allocated = s.allocated ∧ s'.failed = run :: s.failed :=
    heq ▸ ⟨rfl, rfl⟩
  clear heq hs'
  exact {
    slots := fun j => by
      rw [hall]
      by_cases e : j = i
      · rw [e, hself]
        exact .inl rfl
      · rw [hne j e]
        exact h.slots j
    distinct := fun j k hj hjk => by
      by_cases e : j = i
      · rw [e, hself] at hj
        exact absurd rfl hj
      rw [hne j e] at hj hjk
      by_cases e' : k = i
      · rw [e', hself0] at hjk
        have := (h.used hj).2.1
        exact absurd hjk (by omega)
      · rw [hne k e'] at hjk
        exact h.distinct j k hj hjk
    once := fun k => by
      by_cases e : k = run
      · rw [e, hfreed]
      · rw [hfreed' k e]
        exact h.once k
    fresh := fun k hk => by
      rw [hall]
      by_cases e : k = run
      · exact e ▸ ⟨h1, h2⟩
      · exact h.fresh k (hfreed' k e ▸ hk)
    maps := fun k ⟨q, sd, hq⟩ => by
      have e : k ≠ run := fun e => hgone q sd (e ▸ hq)
      rw [hall, hfreed' k e]
      exact h.maps k ⟨q, sd, (hmaps' q k sd e).1 hq⟩
    owned := fun k k1 k2 k0 => by
      have e : k ≠ run := by
        rintro rfl
        omega
      rw [hfreed' k e] at k0
      rcases h.owned k k1 (hall ▸ k2) k0 with ⟨q, hq⟩ | ⟨u, c, hu, hh⟩
      · exact .inl ⟨q, (hmaps' q k _ e).2 hq⟩
      refine .inr ⟨u, c, hkeep u c ?_ hu, hh⟩
      rintro rfl
      obtain rfl := Option.some.inj (ht.symm.trans hu)
      exact hh
    held := fun u c k hu hh => by
      obtain ⟨hut, hu⟩ := hcall u c hu
      have e : k ≠ run := fun e => hother u c hut hu (e ▸ hh.makes)
      rw [hall, hfreed' k e]
      exact h.held u c k hu hh
    alone := fun u u' c c' k hu hu' => h.alone u u' c c' k (hcall u c hu).2 (hcall u' c' hu').2
    calls := fun u c hu => by
      obtain ⟨hut, hu⟩ := hcall u c hu
      have hc := h.calls u c hu
      have hm := hother u c hut hu
      cases c with
      | place _ r _ _ _ =>
        intro j
        by_cases e : j = i
        · rw [e, hself0]
          have := (h.held u _ r hu rfl).1
          exact fun he => absurd he (by omega)
        · rw [hne j e]
          exact hc j
      | errdefer _ => exact hc
      | mapProducer _ j r =>
        have e : j ≠ i := by
          rintro rfl
          exact hm (hc.2.symm.trans hphys)
        change (s'.rings j).state ≠ .free ∧ (s'.rings j).ring_phys = r
        rw [hne j e]
        exact hc
      | finishCreate q j r =>
        have e : j ≠ i := by
          rintro rfl
          exact hm (hc.2.1.symm.trans hphys)
        change (s'.rings j).state ≠ .free ∧ (s'.rings j).ring_phys = r ∧ (r, _) ∈ s'.maps q
        rw [hne j e, hmaps' q r _ hm]
        exact hc
      | checkState _ _ => trivial
      | mapConsumer _ _ => trivial
      | finishAttach _ _ _ _ => trivial
    failed := fun k hk => by
      rw [hfail] at hk
      have hslot : ∀ j, j ≠ i → (s'.rings j).ring_phys ≠ run := fun j e he => by
        rw [hne j e] at he
        exact e (h.distinct i j hused (hphys.trans he.symm)).symm
      rcases mem_cons.1 hk with rfl | hk
      · refine ⟨hfreed, fun j => ?_⟩
        by_cases e : j = i
        · rw [e, hself0]
          exact fun he => absurd he (by omega)
        · exact hslot j e
      obtain ⟨hone, hno⟩ := h.failed k hk
      have e : k ≠ run := by
        rintro rfl
        omega
      refine ⟨(hfreed' k e).trans hone, fun j => ?_⟩
      by_cases e' : j = i
      · rw [e', hself0]
        have := (h.fresh k (by omega)).1
        exact fun he => absurd he (by omega)
      · rw [hne j e']
        exact hno j }

/-- `sys_ring_attach` maps what its slot refers to now. -/
theorem mapConsumer (ht : s.calls t = some (.mapConsumer pid i))
    (hcalm : s.freed (s.rings i).ring_phys = 0) (pages : Nat) :
    RingInv ((s.startMap pid i .consumer).setCall t
      (some (.finishAttach pid i (s.rings i).ring_phys pages))) := by
  have hmap : RingInv (s.startMap pid i .consumer) := by
    unfold startMap
    split_ifs with hcount
    · exact h
    · obtain ⟨-, -, h1, h2⟩ := (h.slots i).resolve_left fun h0 => hcount (by rw [h0])
      exact h.addMap pid .consumer h1 h2 hcalm
  have hcall : (s.startMap pid i .consumer).calls = s.calls := by
    unfold startMap
    split_ifs <;> rfl
  refine hmap.setCall (fun c hc run hh => ?_) fun c hc => ?_
  · rw [hcall] at hc
    obtain rfl := Option.some.inj (ht.symm.trans hc)
    exact hh.elim
  · obtain rfl := Option.some.inj hc
    exact ⟨trivial, fun _ => nofun, fun _ => nofun⟩

theorem finishAttach {pages : Nat}
    (ht : s.calls t = some (.finishAttach pid i run pages)) (ok : Bool)
    (hcalm : ok = true → (s.rings i).consumer_pid = pid ∧ (s.rings i).state = .created) :
    RingInv (s.finishAttach t pid i run pages ok) := by
  have hold : ∀ c, s.calls t = some c → ∀ run, ¬c.Holds run := fun c hc => by
    obtain rfl := Option.some.inj (ht.symm.trans hc)
    exact fun _ => nofun
  unfold RingTable.finishAttach
  split
  · next hok =>
      obtain ⟨hpid, hstate⟩ := hcalm hok
      have hused : (s.rings i).state ≠ .free := by
        rw [hstate]
        exact nofun
      have hatt : s.attachConsumer i pid =
          some (s.setRing i { s.rings i with state := .attached, consumer_mapped := true }) := by
        rw [attachConsumer, if_neg (not_not_intro hpid), if_neg (not_not_intro hstate)]
      rw [hatt]
      refine RingInv.endCall (h.setFlags hused ?_ rfl rfl) hold
      exact fun e => nomatch e
  · exact (h.dropMap pid run).endCall hold

/-- **A calm step keeps the invariant.** -/
theorem step (r : RingStep T) (hc : RingCalm s r) :
    RingInv ((ringMachine T).step s r) := by
  cases r with
  | create t pid entry_size entry_count consumer_pid room =>
    simp only [ringMachine]
    split
    · next ht => exact h.allocateRing ht ..
    · exact h
  | attach t pid i =>
    simp only [ringMachine]
    split
    · next ht =>
        unfold RingTable.attach
        split_ifs
        · refine h.setCall (fun c hc => nomatch ht.symm.trans hc) fun c hc => ?_
          obtain rfl := Option.some.inj hc
          exact ⟨trivial, fun _ => nofun, fun _ => nofun⟩
        · exact h
    · exact h
  | advance t ok =>
    simp only [ringMachine]
    split
    · exact h
    next c ht =>
      have hcalm := hc c ht
      cases c with
      | place pid run entry_size entry_count consumer_pid => exact h.placeRing ht hcalm
      | errdefer run => exact (h.calls t _ ht).elim
      | mapProducer pid i run => exact h.mapProducer ht
      | finishCreate pid i run =>
        cases ok with
        | true =>
          obtain ⟨hused, -, -⟩ := h.calls t _ ht
          have hr : RingInv (s.setRing i { s.rings i with producer_mapped := true }) :=
            h.setFlags hused hused rfl rfl
          refine hr.endCall fun c hc => ?_
          obtain rfl := Option.some.inj (ht.symm.trans hc)
          exact fun _ => nofun
        | false => exact h.failCreate ht (hcalm rfl)
      | checkState pid i =>
        refine h.setCall (fun c hc run hh => ?_) fun c hc => ?_
        · obtain rfl := Option.some.inj (ht.symm.trans hc)
          exact hh.elim
        split at hc
        · obtain rfl := Option.some.inj hc
          exact ⟨trivial, fun _ => nofun, fun _ => nofun⟩
        · cases hc
      | mapConsumer pid i => exact h.mapConsumer ht hcalm _
      | finishAttach pid i run pages => exact h.finishAttach ht ok hcalm
  | detach pid i =>
    simp only [ringMachine]
    split_ifs with hfree
    · exact h
    · exact h.detachRing hfree (hc hfree)
  | cleanup pid =>
    simp only [ringMachine]
    exact h.cleanupByPid hc
  | exit pid => exact h.exit hc.1 hc.2.1 hc.2.2

end

end RingInv

/-! ## 5. Runs -/

/-- **In a run of calm steps the pages of every ring go back exactly once, never while a process has
    them mapped, and a creation that fails leaves the table and the allocator as they were.** -/
theorem ringLifetime [DecidableEq T] (s : RingTable T) (h : (ringMachine T).Reach RingCalm s) :
    RingsSafe s := by
  refine RingInv.safe (h.invariant ?_ fun s r _ hi hc => hi.step r hc)
  rintro s rfl
  exact RingInv.start

end Machine

/-- A producer and its consumer: the ring is created and attached to. -/
def attachedRing : List (RingStep Bool) :=
  [.create true 1 64 16 2 true, .advance true true, .advance true true, .advance true true,
    .attach false 2 ⟨0, by decide⟩, .advance false true, .advance false true, .advance false true]

theorem attachedRing_reach :
    (ringMachine Bool).Reach RingCalm ((ringMachine Bool).exec {} attachedRing) := by
  have hstart : (ringMachine Bool).start {} := rfl
  refine Machine.Reach.exec (.start hstart) ⟨trivial, ?_, ?_, ?_, trivial, ?_, ?_, ?_, trivial⟩
  · intro c hc
    obtain rfl : RingCall.place 1 1 64 16 2 = c := Option.some.inj hc
    exact fun h => absurd h (by decide)
  · intro c hc
    obtain rfl : RingCall.mapProducer 1 ⟨0, by decide⟩ 1 = c := Option.some.inj hc
    trivial
  · intro c hc
    obtain rfl : RingCall.finishCreate 1 ⟨0, by decide⟩ 1 = c := Option.some.inj hc
    exact nofun
  · intro c hc
    obtain rfl : RingCall.checkState 2 ⟨0, by decide⟩ = c := Option.some.inj hc
    trivial
  · intro c hc
    obtain rfl : RingCall.mapConsumer 2 ⟨0, by decide⟩ = c := Option.some.inj hc
    exact rfl
  · intro c hc
    obtain rfl : RingCall.finishAttach 2 ⟨0, by decide⟩ 1 1 = c := Option.some.inj hc
    exact fun _ => ⟨rfl, rfl⟩

/-- The ring of the two: mapped by both, and not freed. -/
theorem ringLifetime_attached : ∃ s : RingTable Bool,
    RingsSafe s ∧ (s.rings ⟨0, by decide⟩).state = .attached ∧ s.freed 1 = 0 :=
  ⟨(ringMachine Bool).exec {} attachedRing, ringLifetime _ attachedRing_reach, rfl, rfl⟩

/-- **A producer that detaches before its consumer attached frees the pages that it has mapped.** -/
theorem ringLifetime_refuted :
    ¬∀ s : RingTable Bool, (ringMachine Bool).Reachable s → RingsSafe s := by
  intro h
  have hstart : (ringMachine Bool).start {} := rfl
  have hsafe := h _ (Machine.Reachable.exec (.start hstart)
    [.create true 1 64 16 2 true, .advance true true, .advance true true, .advance true true,
      .detach 1 ⟨0, by decide⟩])
  have hmap : (1, RingSide.producer) ∈ ((ringMachine Bool).exec {}
      [.create true 1 64 16 2 true, .advance true true, .advance true true, .advance true true,
        .detach 1 ⟨0, by decide⟩]).maps 1 := mem_cons_self
  exact nomatch hsafe.mapped 1 ⟨1, _, hmap⟩

end Zigk.Ipc
