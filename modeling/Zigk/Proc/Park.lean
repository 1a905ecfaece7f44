/-
  Subject:   ONE THREAD AND ITS `block()`: the scheduler as those see it that keep a sleeper in a
             slot.

  * `Park` -- state and pending wakeup of a thread; `block`, `unblock`, `preempt`, `dispatch`;
    **`parks_refine`** -- this is what the scheduler does to every thread, whatever the calls;
  * `SlotInv` -- a slot that records one sleeper: whoever sleeps stands in it, and whoever is about
    to sleep stands in it or has a wakeup pending;
  * `SlotInv.publish`, `look`, `block`, `wake`, `milder` -- what keeps it: nobody takes the slot
    from another (`MayTake`), and a wakeup finds its thread running or asleep (`Finds`).
-/
import Zigk.Proc.SchedQueues

namespace Zigk.Sched

open Function

/-! ## 1. The thread alone -/

structure Park where
  state : ThreadState := .Running
  pending : Bool := false
  deriving DecidableEq, Repr

namespace Park

/-- `block()`: a pending wakeup is consumed, otherwise the thread is blocked. -/
def block (p : Park) : Park :=
  if p.pending then { p with pending := false } else { p with state := .Blocked }

def unblock (p : Park) : Park :=
  if p.state = .Blocked then { p with state := .Ready }
  else if p.state = .Running then { p with pending := true }
  else p

/-- The thread loses its CPU, or gets one. -/
def preempt (p : Park) : Park := if p.state = .Running then { p with state := .Ready } else p

def dispatch (p : Park) : Park := if p.state = .Ready then { p with state := .Running } else p

/-- What comes from outside: it blocks nobody and takes no pending wakeup away. -/
def Milder (p p' : Park) : Prop :=
  (p'.state = .Blocked → p.state = .Blocked) ∧ (p.pending = true → p'.pending = true)

theorem Milder.refl (p : Park) : p.Milder p := ⟨id, id⟩

theorem unblock_milder (p : Park) : p.Milder p.unblock := by
  unfold unblock
  split_ifs
  · exact ⟨nofun, id⟩
  · exact ⟨id, fun _ => rfl⟩
  · exact .refl p

theorem preempt_milder (p : Park) : p.Milder p.preempt := by
  unfold preempt
  split_ifs
  · exact ⟨nofun, id⟩
  · exact .refl p

theorem dispatch_milder (p : Park) : p.Milder p.dispatch := by
  unfold dispatch
  split_ifs
  · exact ⟨nofun, id⟩
  · exact .refl p

theorem milder_update {T : Type} [DecidableEq T] {parks : T → Park} {t : T} {p : Park}
    (h : (parks t).Milder p) (u : T) : (parks u).Milder (update parks t p u) := by
  by_cases e : u = t
  · subst e
    rwa [update_self]
  · rw [update_of_ne e]
    exact .refl _

theorem unblock_awake (p : Park) : p.unblock.state ≠ .Blocked := by
  unfold unblock
  split_ifs with hb
  · exact nofun
  · exact hb
  · exact hb

end Park

namespace Scheduler

variable (s : Scheduler) (c : CpuId) (t u : ThreadId)

/-- A thread of the scheduler. -/
def park : Park := ⟨s.state t, (s.threads t).pendingWakeup⟩

theorem park_mapThread (f : Thread → Thread) (hst : (f (s.threads t)).state = (s.threads t).state) :
    (s.mapThread t f).park u =
      if u = t then ⟨s.state t, (f (s.threads t)).pendingWakeup⟩ else s.park u := by
  unfold park mapThread state
  by_cases h : u = t
  · subst h
    simp only [update_self, if_true, hst]
  · simp only [update_of_ne h, if_neg h]

theorem park_setState (st : ThreadState) : (s.setState t st).park u =
    if u = t then ⟨st, (s.threads t).pendingWakeup⟩ else s.park u := by
  unfold park setState mapThread state
  by_cases h : u = t
  · subst h
    simp only [update_self, if_true]
  · simp only [update_of_ne h, if_neg h]

theorem park_removeFromSleepList : (s.removeFromSleepList t).park u = s.park u := by
  have h := park_mapThread s t u (fun th => { th with wakeTime := 0 }) rfl
  refine h.trans ?_
  split
  · next e => rw [e]; rfl
  · rfl

/-- **`block()` of the scheduler is that of the thread**, and concerns no other. -/
theorem park_block : (s.block t).park u = if u = t then (s.park t).block else s.park u := by
  unfold block Park.block
  by_cases hp : (s.threads t).pendingWakeup = true
  · rw [if_pos hp, park_mapThread s t u _ rfl]
    have hp' : (s.park t).pending = true := hp
    rw [if_pos hp']
    rfl
  have hp' : ¬(s.park t).pending = true := hp
  rw [if_neg hp, if_neg hp']
  unfold park mapThread state removeFromSleepList mapThread
  by_cases h : u = t
  · subst h
    simp only [update_self, if_true]
  · simp only [update_of_ne h, if_neg h]

/-- **`unblock()` of the scheduler is that of the thread.** -/
theorem park_unblock : (s.unblock c t).park u = if u = t then (s.park t).unblock else s.park u := by
  unfold unblock Park.unblock
  by_cases hb : s.state t = .Blocked
  · have hb' : (s.park t).state = .Blocked := hb
    rw [if_pos hb, if_pos hb']
    have hready : ((s.removeFromSleepList t).addToReadyQueue c t).park u =
        ((s.removeFromSleepList t).setState t .Ready).park u := rfl
    rw [hready, park_setState, park_removeFromSleepList]
    have hpend : ((s.removeFromSleepList t).threads t).pendingWakeup =
        (s.threads t).pendingWakeup := congrArg Park.pending (park_removeFromSleepList s t t)
    rw [hpend]
    rfl
  have hb' : ¬(s.park t).state = .Blocked := hb
  rw [if_neg hb, if_neg hb']
  by_cases hr : s.state t = .Running
  · have hr' : (s.park t).state = .Running := hr
    rw [if_pos hr, if_pos hr', park_mapThread s t u _ rfl]
    rfl
  have hr' : ¬(s.park t).state = .Running := hr
  rw [if_neg hr, if_neg hr']
  split
  · next e => rw [e]
  · rfl

end Scheduler

/-- A call of the scheduler, on whatever CPU, that concerns the parking of a thread. -/
inductive ParkCall where
  | block (t : ThreadId)
  | unblock (c : CpuId) (t : ThreadId)

def Scheduler.call (s : Scheduler) : ParkCall → Scheduler
  | .block t => s.block t
  | .unblock c t => s.unblock c t

/-- What a call is for the thread `u`. -/
def Park.call (u : ThreadId) (p : Park) : ParkCall → Park
  | .block t => if u = t then p.block else p
  | .unblock _ t => if u = t then p.unblock else p

theorem Scheduler.park_call (s : Scheduler) (u : ThreadId) (x : ParkCall) :
    (s.call x).park u = (s.park u).call u x := by
  cases x with
  | block t =>
    refine (s.park_block t u).trans ?_
    show _ = if u = t then (s.park u).block else s.park u
    split
    · next e => rw [e]
    · rfl
  | unblock c t =>
    refine (s.park_unblock c t u).trans ?_
    show _ = if u = t then (s.park u).unblock else s.park u
    split
    · next e => rw [e]
    · rfl

/-- Where a thread stands that waits: before it looks whether it was woken, before its `block()`, or
    inside. -/
inductive WaitStage where
  | check | before | inBlock
  deriving DecidableEq, Repr

variable {T : Type} {parks parks' : T → Park} {stage stage' : T → Option WaitStage}
  {slot : Option T} {woken : Bool} {t : T}

structure SlotInv (parks : T → Park) (stage : T → Option WaitStage) (slot : Option T)
    (woken : Bool) : Prop where
  awake : ∀ t w, stage t = some w → w ≠ .inBlock → (parks t).state ≠ .Blocked
  checks : ∀ t, stage t = some .check → slot = some t ∨ (parks t).pending = true ∨ woken = true
  heard : ∀ t, stage t = some .before → slot = some t ∨ (parks t).pending = true
  asleep : ∀ t, stage t = some .inBlock → (parks t).state = .Blocked → slot = some t

/-- A wakeup finds its thread: one that is about to sleep runs, or has a wakeup pending. -/
def Finds (parks : T → Park) (stage : T → Option WaitStage) (t : T) : Prop :=
  stage t = some .before → (parks t).state = .Running ∨ (parks t).pending = true

/-- A thread that does not need the slot: it has a wakeup pending, or was woken, or does not
    wait. -/
def Provided (parks : T → Park) (stage : T → Option WaitStage) (t : T) : Prop :=
  match stage t with
  | none => True
  | some .inBlock => (parks t).state ≠ .Blocked
  | some _ => (parks t).pending = true

/-- A thread may take the slot: nobody else stands in it, or has still to look whether it was woken,
    that is not provided for. -/
def MayTake (parks : T → Park) (stage : T → Option WaitStage) (slot : Option T) (t : T) : Prop :=
  ∀ u, u ≠ t → slot = some u ∨ stage u = some .check → Provided parks stage u

namespace SlotInv

/-- Nobody waits. -/
theorem idle (h : ∀ t, stage t = none) : SlotInv parks stage slot woken where
  awake t _ ht := nomatch (h t).symm.trans ht
  checks t ht := nomatch (h t).symm.trans ht
  heard t ht := nomatch (h t).symm.trans ht
  asleep t ht := nomatch (h t).symm.trans ht

/-- Threads leave, and milder things happen to them. -/
theorem milder (h : SlotInv parks stage slot woken) (hp : ∀ t, (parks t).Milder (parks' t))
    (hs : ∀ t, stage' t = none ∨ stage' t = stage t) : SlotInv parks' stage' slot woken := by
  have hst : ∀ t w, stage' t = some w → stage t = some w := fun t w ht =>
    ((hs t).resolve_left fun h0 => nomatch h0.symm.trans ht).symm.trans ht
  exact {
    awake := fun t w ht hw hb => h.awake t w (hst t _ ht) hw ((hp t).1 hb)
    checks := fun t ht => (h.checks t (hst t _ ht)).imp_right (Or.imp_left (hp t).2)
    heard := fun t ht => (h.heard t (hst t _ ht)).imp_right (hp t).2
    asleep := fun t ht hb => h.asleep t (hst t _ ht) ((hp t).1 hb) }

/-- Where nobody looks, it plays no part whether somebody was woken. -/
theorem anyWoken (h : SlotInv parks stage slot woken) (hno : ∀ t, stage t ≠ some .check)
    (w : Bool) : SlotInv parks stage slot w where
  awake := h.awake
  checks t ht := absurd ht (hno t)
  heard := h.heard
  asleep := h.asleep

variable [DecidableEq T]

/-- Who is somewhere after one thread has gone on, or was let go. -/
theorem of_goesOn {gone : Bool} {u : T} {v w : WaitStage}
    (hu : update stage t (if gone then none else some w) u = some v) :
    u = t ∧ gone = false ∧ v = w ∨ u ≠ t ∧ stage u = some v := by
  by_cases e : u = t
  · rw [e, update_self] at hu
    cases gone with
    | true => cases hu
    | false => exact .inl ⟨e, rfl, (Option.some.inj hu).symm⟩
  · rw [update_of_ne e] at hu
    exact .inr ⟨e, hu⟩

section

variable (h : SlotInv parks stage slot woken)
include h

/-- What happens to a thread that does not wait here. -/
theorem other (ht : stage t = none) (p : Park) :
    SlotInv (update parks t p) stage slot woken := by
  have hne : ∀ u w, stage u = some w → update parks t p u = parks u := by
    intro u w hu
    refine update_of_ne ?_ ..
    rintro rfl
    exact nomatch ht.symm.trans hu
  exact {
    awake := fun u w hu hw => hne u w hu ▸ h.awake u w hu hw
    checks := fun u hu => hne u _ hu ▸ h.checks u hu
    heard := fun u hu => hne u _ hu ▸ h.heard u hu
    asleep := fun u hu hb => h.asleep u hu (hne u _ hu ▸ hb) }

/-- A thread that does not wait stays so. -/
theorem leave (t : T) :
    SlotInv parks (update stage t none) slot woken := by
  refine h.milder (fun _ => .refl _) fun u => ?_
  by_cases e : u = t
  · rw [e, update_self]
    exact .inl rfl
  · exact .inr (update_of_ne e ..)

/-- A thread takes the slot; `w` is where it goes on. -/
theorem publish (hrun : (parks t).state = .Running)
    (hm : MayTake parks stage slot t) {w : WaitStage} (hw : w ≠ .inBlock) :
    SlotInv parks (update stage t (some w)) (some t) false := by
  have hother : ∀ u v, u ≠ t → stage u = some v → v ≠ .inBlock →
      slot = some u ∨ stage u = some .check → (parks u).pending = true := by
    intro u v hne hu hv hs
    have hp := hm u hne hs
    rw [Provided, hu] at hp
    cases v with
    | inBlock => exact absurd rfl hv
    | check => exact hp
    | before => exact hp
  exact {
    awake := fun u v hu hv => by
      by_cases e : u = t
      · rw [e, hrun]
        exact nofun
      · rw [update_of_ne e] at hu
        exact h.awake u v hu hv
    checks := fun u hu => by
      by_cases e : u = t
      · exact .inl (congrArg some e.symm)
      · rw [update_of_ne e] at hu
        exact .inr (.inl (hother u _ e hu nofun (.inr hu)))
    heard := fun u hu => by
      by_cases e : u = t
      · exact .inl (congrArg some e.symm)
      · rw [update_of_ne e] at hu
        exact .inr ((h.heard u hu).elim (fun hs => hother u _ e hu nofun (.inl hs)) id)
    asleep := fun u hu hb => by
      by_cases e : u = t
      · rw [e, update_self] at hu
        exact absurd (Option.some.inj hu) hw
      rw [update_of_ne e] at hu
      have hp := hm u e (.inl (h.asleep u hu hb))
      rw [Provided, hu] at hp
      exact absurd hb hp }

/-- A thread looks whether it was woken; otherwise its `block()` is next. -/
theorem look (ht : stage t = some .check) :
    SlotInv parks (update stage t (if woken then none else some .before)) slot woken where
  awake u v hu hv := by
    rcases of_goesOn hu with ⟨rfl, -, -⟩ | ⟨-, hu⟩
    · exact h.awake u .check ht nofun
    · exact h.awake u v hu hv
  checks u hu := by
    rcases of_goesOn hu with ⟨-, -, hv⟩ | ⟨-, hu⟩
    · cases hv
    · exact h.checks u hu
  heard u hu := by
    rcases of_goesOn hu with ⟨rfl, hw, -⟩ | ⟨-, hu⟩
    · exact (h.checks u ht).imp_right fun hp => hp.resolve_right (hw ▸ nofun)
    · exact h.heard u hu
  asleep u hu hb := by
    rcases of_goesOn hu with ⟨-, -, hv⟩ | ⟨-, hu⟩
    · cases hv
    · exact h.asleep u hu hb

/-- A thread that stands before its `block()` makes it; with a wakeup pending it goes on. -/
theorem block (ht : stage t = some .before) : SlotInv (update parks t (parks t).block)
      (update stage t (if (parks t).pending then none else some .inBlock)) slot woken where
  awake u v hu hv := by
    rcases of_goesOn hu with ⟨-, -, hv'⟩ | ⟨e, hu⟩
    · exact absurd hv' hv
    · rw [update_of_ne e]
      exact h.awake u v hu hv
  checks u hu := by
    rcases of_goesOn hu with ⟨-, -, hv⟩ | ⟨e, hu⟩
    · cases hv
    · rw [update_of_ne e]
      exact h.checks u hu
  heard u hu := by
    rcases of_goesOn hu with ⟨-, -, hv⟩ | ⟨e, hu⟩
    · cases hv
    · rw [update_of_ne e]
      exact h.heard u hu
  asleep u hu hb := by
    rcases of_goesOn hu with ⟨rfl, hp, -⟩ | ⟨e, hu⟩
    · exact (h.heard u ht).resolve_right (hp ▸ nofun)
    · rw [update_of_ne e] at hb
      exact h.asleep u hu hb

/-- The thread in the slot is woken, and the slot is free. -/
theorem wake (hslot : slot = some t) (hf : Finds parks stage t) :
    SlotInv (update parks t (parks t).unblock) stage none true := by
  exact {
    awake := fun u v hu hv => by
      by_cases e : u = t
      · rw [e, update_self]
        exact Park.unblock_awake _
      · rw [update_of_ne e]
        exact h.awake u v hu hv
    checks := fun _ _ => .inr (.inr rfl)
    heard := fun u hu => by
      refine .inr ?_
      by_cases e : u = t
      · subst e
        rw [update_self]
        have hb := h.awake u _ hu nofun
        rcases hf hu with hrun | hp
        · unfold Park.unblock
          rw [if_neg hb, if_pos hrun]
        · exact (Park.unblock_milder _).2 hp
      · rw [update_of_ne e]
        exact (h.heard u hu).resolve_left fun hs => e (Option.some.inj (hs.symm.trans hslot))
    asleep := fun u hu hb => by
      by_cases e : u = t
      · rw [e, update_self] at hb
        exact absurd hb (Park.unblock_awake _)
      · rw [update_of_ne e] at hb
        exact absurd (Option.some.inj (hslot.symm.trans (h.asleep u hu hb))).symm e }

end

end SlotInv

end Zigk.Sched
