/-
  Subject:   THE TIMER WHEEL of the reactor: three levels of 256 slots.

  * `TimerWheel.add`, `cancel`, `tick`, `cascade` -- the wheel, its slots as lists of requests;
  * `Filed` -- **where a request lies**: each request is in one slot, and the slot is the one that
    will be drained when `Alarm.fires` says;
  * **`timerWheel_exact`** -- so the wheel is exact in every run that adds no timeout of 256 ticks
    or more that is due at a multiple of 256.
-/
import Mathlib.Algebra.Ring.Nat
import Mathlib.Data.List.Nodup
import Zigk.Base.Machine

namespace Zigk.Io

open Function List Option

/-! ## 1. The wheel -/

/-- An I/O request, by its address. -/
abbrev ReqId := Nat

def SLOTS_PER_LEVEL : Nat := 256

def BITS_PER_LEVEL : Nat := 8

def NUM_LEVELS : Nat := 3

def MAX_TIMEOUT : Nat := 2 ^ (BITS_PER_LEVEL * NUM_LEVELS)

structure TimerStats where
  timersAdded : Nat := 0
  timersCancelled : Nat := 0
  timersExpired : Nat := 0
  deriving DecidableEq, Repr

/-- `expiry` is the field `op_data.timer.timeout_ns` of the requests, which the wheel reuses. -/
structure TimerWheel where
  slots : Nat → Nat → List ReqId
  positions : Nat → Nat
  currentTick : Nat
  expiry : ReqId → Nat
  stats : TimerStats

open TimerWheel

namespace TimerWheel

def init (expiry : ReqId → Nat) : TimerWheel :=
  { slots := fun _ _ => [], positions := fun _ => 0, currentTick := 0, expiry := expiry, stats := {} }

def setSlot (w : TimerWheel) (level slot : Nat) (l : List ReqId) : TimerWheel :=
  { w with slots := fun i j => if i = level ∧ j = slot then l else w.slots i j }

/-- Links a request at the head of a slot. -/
def push (w : TimerWheel) (level slot : Nat) (req : ReqId) : TimerWheel :=
  w.setSlot level slot (req :: w.slots level slot)

/-- Level and slot for a request that is due in `delta` ticks. -/
def calculateSlot (w : TimerWheel) (delta : Nat) : Nat × Nat :=
  if delta < SLOTS_PER_LEVEL then (0, (w.positions 0 + delta % 256) % 256)
  else if delta < SLOTS_PER_LEVEL * SLOTS_PER_LEVEL then
    (1, (w.positions 1 + (delta >>> BITS_PER_LEVEL) % 256) % 256)
  else (2, (w.positions 2 + (delta >>> (BITS_PER_LEVEL * 2)) % 256) % 256)

/-- `expiry -% current_tick`. -/
def ticksLeft (w : TimerWheel) (req : ReqId) : Nat :=
  (w.expiry req + 2 ^ 64 - w.currentTick) % 2 ^ 64

def add (w : TimerWheel) (req : ReqId) (timeout : Nat) : TimerWheel :=
  let clampedTimeout := min timeout (MAX_TIMEOUT - 1)
  let w := { w with
    expiry := update w.expiry req ((w.currentTick + clampedTimeout) % 2 ^ 64) }
  let levelSlot := w.calculateSlot (w.ticksLeft req)
  let w := w.push levelSlot.1 levelSlot.2 req
  { w with stats := { w.stats with timersAdded := w.stats.timersAdded + 1 } }

/-- All slots, in the order `cancel()` searches them. -/
def allSlots : List (Nat × Nat) :=
  (List.range NUM_LEVELS).flatMap fun level => (List.range SLOTS_PER_LEVEL).map fun slot => (level, slot)

def cancel (w : TimerWheel) (req : ReqId) : TimerWheel × Bool :=
  match allSlots.find? fun p => decide (req ∈ w.slots p.1 p.2) with
  | some p =>
    let w := w.setSlot p.1 p.2 ((w.slots p.1 p.2).erase req)
    ({ w with stats := { w.stats with timersCancelled := w.stats.timersCancelled + 1 } }, true)
  | none => (w, false)

/-- The next position of a level, and the requests of its slot, which is emptied. -/
def drain (w : TimerWheel) (level : Nat) : TimerWheel × List ReqId :=
  let pos := (w.positions level + 1) % 256
  let w := { w with positions := update w.positions level pos }
  (w.setSlot level pos [], w.slots level pos)

/-- Puts a request that was drained from a higher level in the slot for the ticks it has left. One
    that is due now, or overdue, goes in the current slot of the bottom level. -/
def reinsert (w : TimerWheel) (req : ReqId) : TimerWheel :=
  let delta := w.ticksLeft req
  if delta = 0 ∨ MAX_TIMEOUT < delta then w.push 0 (w.positions 0) req
  else
    let newSlot := w.calculateSlot delta
    w.push newSlot.1 newSlot.2 req

/-- `cascade()` with `left` levels from its level on. -/
def cascadeLeft (w : TimerWheel) : Nat → TimerWheel
  | 0 => w
  | left + 1 =>
    let level := NUM_LEVELS - (left + 1)
    let d := w.drain level
    let w := d.2.foldl reinsert d.1
    if w.positions level = 0 then w.cascadeLeft left else w

def cascade (w : TimerWheel) (level : Nat) : TimerWheel := w.cascadeLeft (NUM_LEVELS - level)

/-- The wheel and the list of the expired requests. -/
def tick (w : TimerWheel) : TimerWheel × List ReqId :=
  let w := { w with currentTick := (w.currentTick + 1) % 2 ^ 64 }
  let d := w.drain 0
  let expired := d.2
  let w := if d.1.positions 0 = 0 then d.1.cascade 1 else d.1
  let w := { w with
    stats := { w.stats with timersExpired := w.stats.timersExpired + expired.length } }
  (w, expired)

end TimerWheel

/-! ## 2. What the wheel is for -/

structure Alarm where
  /-- The tick count at which the request was added. -/
  added : Nat
  timeout : Nat

def Alarm.due (a : Alarm) : Nat := a.added + a.timeout

/-- The tick that returns the request. -/
def Alarm.fires (a : Alarm) : Nat :=
  if a.timeout < 256 ∨ a.due % 256 ≠ 0 then a.due else a.due + 256

/-- The ticks so far, not wrapped, and the requests that wait. -/
structure Alarms where
  now : Nat := 0
  armed : ReqId → Option Alarm := fun _ => none

inductive WheelOp where
  | add (req : ReqId) (timeout : Nat)
  | cancel (req : ReqId)
  | tick

def wheelStep (w : TimerWheel) : WheelOp → TimerWheel
  | .add req timeout => w.add req timeout
  | .cancel req => (w.cancel req).1
  | .tick => w.tick.1

/-- A request waits from `add` until it is cancelled or a tick has returned it. -/
def noteAlarms (h : Alarms) (w : TimerWheel) : WheelOp → Alarms
  | .add req timeout => { h with armed := update h.armed req (some ⟨h.now, timeout⟩) }
  | .cancel req => { h with armed := update h.armed req none }
  | .tick => { now := h.now + 1, armed := fun req => if req ∈ w.tick.2 then none else h.armed req }

/-- The wheel with its history, from a fresh wheel. -/
def wheel : Machine (TimerWheel × Alarms) WheelOp :=
  Machine.track { start := fun w => ∃ expiry, w = .init expiry, step := wheelStep } {} noteAlarms

/-- **The law**: the next tick returns exactly the requests that are due then, each once; nothing
    that waits is overdue; `cancel()` finds exactly the requests that wait. -/
structure ExactWheel (w : TimerWheel × Alarms) : Prop where
  tick : w.1.currentTick = w.2.now % 2 ^ 64
  once : w.1.tick.2.Nodup
  exact : ∀ req, req ∈ w.1.tick.2 ↔ ∃ a, w.2.armed req = some a ∧ a.due = w.2.now + 1
  notOverdue : ∀ req a, w.2.armed req = some a → w.2.now < a.due
  cancels : ∀ req, (w.1.cancel req).2 = (w.2.armed req).isSome

/-- The timeouts the wheel is made for, and requests that are not in the wheel. -/
def InRange (w : TimerWheel × Alarms) : WheelOp → Prop
  | .add req timeout => w.2.armed req = none ∧ 1 ≤ timeout ∧ timeout < 2 ^ 24
  | _ => True

/-- **A step that keeps the wheel exact.** -/
def KeepsExact (w : TimerWheel × Alarms) (op : WheelOp) : Prop :=
  InRange w op ∧
    match op with
    | .add _ timeout => timeout < 256 ∨ (w.2.now + timeout) % 256 ≠ 0
    | _ => True

/-! ## 3. Where a request lies -/

/-- A request in a slot of `level` that is drained when the level has advanced `m` times in all. -/
def Alarm.Lies (a : Alarm) : Nat → Nat → Prop
  | 0, m => m = a.fires
  | 1, m => 256 ≤ a.timeout ∧ 256 * m ≤ a.due ∧ a.due ≤ 256 * m + 510
  | 2, m => 256 ≤ a.timeout ∧ 65536 * m ≤ a.due ∧ a.due ≤ 65536 * m + 131070
  | _, _ => False

theorem Alarm.Lies.level_lt {a : Alarm} {level m : Nat} (h : a.Lies level m) :
    level < NUM_LEVELS := by
  match level with
  | 0 | 1 | 2 => decide
  | _ + 3 => exact h.elim

/-- **The waiting requests are filed**: level `l` has advanced `c l` times; every waiting request is
    in exactly one slot, which is drained within the round, or in the list `out` of those that are
    between two slots. -/
structure Filed (w : TimerWheel) (c : Nat → Nat) (armed : ReqId → Option Alarm)
    (out : List ReqId) : Prop where
  positions : ∀ l < NUM_LEVELS, w.positions l = c l % 256
  expiry : ∀ req a, armed req = some a → w.expiry req = a.due % 2 ^ 64
  slot : ∀ l s req, req ∈ w.slots l s →
    ∃ a m, armed req = some a ∧ m % 256 = s ∧ c l < m ∧ m ≤ c l + 256 ∧ a.Lies l m
  waits : ∀ req ∈ out, ∃ a, armed req = some a
  found : ∀ req a, armed req = some a → req ∈ out ∨ ∃ l s, req ∈ w.slots l s
  nodup : ∀ l s, (w.slots l s).Nodup
  outNodup : out.Nodup
  once : ∀ req l s l' s', req ∈ w.slots l s → req ∈ w.slots l' s' → l = l' ∧ s = s'
  apart : ∀ req ∈ out, ∀ l s, req ∉ w.slots l s

section Filing

variable {w : TimerWheel} {c : Nat → Nat} {armed : ReqId → Option Alarm} {out : List ReqId}
  {l s : Nat} {req : ReqId} {a : Alarm}

theorem mem_setSlot {x : List ReqId} {l' s' : Nat} : req ∈ (w.setSlot l s x).slots l' s' ↔
      (l' = l ∧ s' = s ∧ req ∈ x) ∨ (¬ (l' = l ∧ s' = s) ∧ req ∈ w.slots l' s') := by
  by_cases e : l' = l ∧ s' = s
  · simp [setSlot, e]
  · simp [setSlot, e, ← and_assoc]

theorem mem_push {req' : ReqId} {l' s' : Nat} : req' ∈ (w.push l s req).slots l' s' ↔
      req' ∈ w.slots l' s' ∨ (l' = l ∧ s' = s ∧ req' = req) := by
  rw [push, mem_setSlot]
  by_cases e : l' = l ∧ s' = s
  · obtain ⟨rfl, rfl⟩ := e
    simp [or_comm]
  · simp [e, ← and_assoc]

/-- A request of `out` goes into a slot. -/
theorem Filed.push (h : Filed w c armed (req :: out)) (ha : armed req = some a) {m : Nat}
    (hm : c l < m ∧ m ≤ c l + 256 ∧ a.Lies l m) (hs : m % 256 = s) :
    Filed (w.push l s req) c armed out := by
  have hreq := h.apart req mem_cons_self
  obtain ⟨hnot, hnodup⟩ := nodup_cons.mp h.outNodup
  refine ⟨h.positions, h.expiry, fun l' s' req' hr => ?_, fun req' hr => ?_, fun req' a' ha' => ?_,
    fun l' s' => ?_, hnodup, fun req' l₁ s₁ l₂ s₂ h₁ h₂ => ?_, fun req' hr l' s' hin => ?_⟩
  · rcases mem_push.mp hr with hr | ⟨rfl, rfl, rfl⟩
    · exact h.slot l' s' req' hr
    · exact ⟨a, m, ha, hs, hm⟩
  · exact h.waits req' (mem_cons_of_mem _ hr)
  · rcases h.found req' a' ha' with hr | ⟨l', s', hr⟩
    · rcases mem_cons.mp hr with rfl | hr
      · exact .inr ⟨l, s, mem_push.mpr (.inr ⟨rfl, rfl, rfl⟩)⟩
      · exact .inl hr
    · exact .inr ⟨l', s', mem_push.mpr (.inl hr)⟩
  · by_cases e : l' = l ∧ s' = s
    · obtain ⟨rfl, rfl⟩ := e
      have hslot : (w.push l' s' req).slots l' s' = req :: w.slots l' s' := by
        simp [TimerWheel.push, TimerWheel.setSlot]
      rw [hslot]
      exact nodup_cons.mpr ⟨hreq _ _, h.nodup _ _⟩
    · have hslot : (w.push l s req).slots l' s' = w.slots l' s' := by
        simp [TimerWheel.push, TimerWheel.setSlot, e]
      rw [hslot]
      exact h.nodup _ _
  · rcases mem_push.mp h₁ with i₁ | ⟨e₁, e₁', e⟩ <;> rcases mem_push.mp h₂ with i₂ | ⟨e₂, e₂', e'⟩
    · exact h.once req' _ _ _ _ i₁ i₂
    · exact absurd (e' ▸ i₁) (hreq _ _)
    · exact absurd (e ▸ i₂) (hreq _ _)
    · exact ⟨e₁.trans e₂.symm, e₁'.trans e₂'.symm⟩
  · rcases mem_push.mp hin with hin | ⟨rfl, rfl, rfl⟩
    · exact h.apart req' (mem_cons_of_mem _ hr) _ _ hin
    · exact hnot hr

/-- A level advances: the requests of its next slot come out, each at its own time. -/
theorem Filed.drain (h : Filed w c armed []) (hl : l < NUM_LEVELS) :
    Filed (w.drain l).1 (update c l (c l + 1)) armed (w.drain l).2 ∧
      ∀ req ∈ (w.drain l).2, ∃ a, armed req = some a ∧ a.Lies l (c l + 1) := by
  have hpos : (w.positions l + 1) % 256 = (c l + 1) % 256 := by rw [h.positions l hl]; omega
  have hexact : ∀ req, req ∈ w.slots l ((c l + 1) % 256) →
      ∃ a, armed req = some a ∧ a.Lies l (c l + 1) := by
    intro req hr
    obtain ⟨a, m, ha, hms, hlo, hhi, hlies⟩ := h.slot _ _ _ hr
    have : m = c l + 1 := by omega
    exact ⟨a, ha, this ▸ hlies⟩
  have hmem : ∀ l' s' req, req ∈ (w.drain l).1.slots l' s' ↔
      ¬ (l' = l ∧ s' = (c l + 1) % 256) ∧ req ∈ w.slots l' s' := by
    intro l' s' req
    rw [TimerWheel.drain, ← hpos, mem_setSlot]
    simp
  have hout : (w.drain l).2 = w.slots l ((c l + 1) % 256) := by rw [TimerWheel.drain, ← hpos]
  rw [hout]
  refine ⟨⟨fun l' hl' => ?_, h.expiry, fun l' s' req hr => ?_, fun req hr => ?_, fun req a ha => ?_,
    fun l' s' => ?_, h.nodup _ _, fun req l₁ s₁ l₂ s₂ h₁ h₂ => ?_, fun req hr l' s' hin => ?_⟩,
    hexact⟩
  · change update w.positions l ((w.positions l + 1) % 256) l' = _
    by_cases e : l' = l
    · rw [e, update_self, update_self, hpos]
    · rw [update_of_ne e, update_of_ne e, h.positions l' hl']
  · obtain ⟨hne, hr⟩ := (hmem _ _ _).mp hr
    obtain ⟨a, m, ha, hms, hlo, hhi, hlies⟩ := h.slot _ _ _ hr
    refine ⟨a, m, ha, hms, ?_, ?_, hlies⟩
    · by_cases e : l' = l
      · subst e
        rw [update_self]
        have : m ≠ c l' + 1 := fun e => hne ⟨rfl, by rw [← hms, e]⟩
        omega
      · rw [update_of_ne e]
        exact hlo
    · by_cases e : l' = l
      · subst e
        rw [update_self]
        omega
      · rw [update_of_ne e]
        exact hhi
  · obtain ⟨a, ha, -⟩ := hexact req hr
    exact ⟨a, ha⟩
  · obtain ⟨l', s', hr⟩ := (h.found req a ha).resolve_left not_mem_nil
    by_cases e : l' = l ∧ s' = (c l + 1) % 256
    · obtain ⟨rfl, rfl⟩ := e
      exact .inl hr
    · exact .inr ⟨l', s', (hmem _ _ _).mpr ⟨e, hr⟩⟩
  · by_cases e : l' = l ∧ s' = (w.positions l + 1) % 256
    · simp [TimerWheel.drain, TimerWheel.setSlot, e]
    · simpa [TimerWheel.drain, TimerWheel.setSlot, e] using h.nodup l' s'
  · exact h.once req _ _ _ _ ((hmem _ _ _).mp h₁).2 ((hmem _ _ _).mp h₂).2
  · obtain ⟨hne, hin⟩ := (hmem _ _ _).mp hin
    exact hne (h.once req _ _ _ _ hin hr)

/-- The requests between two slots are no longer waited for. -/
theorem Filed.disarm (h : Filed w c armed out) :
    Filed w c (fun req => if req ∈ out then none else armed req) [] := by
  have harmed : ∀ req a, (if req ∈ out then none else armed req) = some a ↔
      req ∉ out ∧ armed req = some a := by
    intro req a
    by_cases e : req ∈ out <;> simp [e]
  refine ⟨h.positions, fun req a ha => h.expiry req a ((harmed _ _).mp ha).2,
    fun l s req hr => ?_, fun req hr => (not_mem_nil hr).elim, fun req a ha => ?_, h.nodup,
    nodup_nil, h.once, fun req hr => (not_mem_nil hr).elim⟩
  · obtain ⟨a, m, ha, hm⟩ := h.slot l s req hr
    exact ⟨a, m, (harmed _ _).mpr ⟨fun ho => h.apart req ho _ _ hr, ha⟩, hm⟩
  · obtain ⟨hno, ha⟩ := (harmed _ _).mp ha
    exact .inr ((h.found req a ha).resolve_left hno)

/-! ## 4. The slot for the ticks that are left -/

/-- Where `calculateSlot` sends a request that is due within the range of the wheel. -/
theorem lies_calculateSlot (delta : Nat) (hpos : ∀ l < NUM_LEVELS, w.positions l = c l % 256)
    (hd : a.due = c 0 + delta) (hlt : delta < 2 ^ 24)
    (hlow : delta < 256 → 0 < delta ∧ a.fires = a.due)
    (hhigh : 256 ≤ delta → 256 ≤ a.timeout ∧ c 1 = c 0 / 256)
    (htop : 65536 ≤ delta → c 2 = c 0 / 65536) :
    ∃ m, (c (w.calculateSlot delta).1 < m ∧ m ≤ c (w.calculateSlot delta).1 + 256 ∧
      a.Lies (w.calculateSlot delta).1 m) ∧ m % 256 = (w.calculateSlot delta).2 := by
  have h0 := hpos 0 (by decide)
  have h1 := hpos 1 (by decide)
  have h2 := hpos 2 (by decide)
  unfold calculateSlot
  by_cases hb : delta < SLOTS_PER_LEVEL
  · rw [if_pos hb]
    have hb' : delta < 256 := hb
    obtain ⟨hpos', hf⟩ := hlow hb'
    refine ⟨c 0 + delta, ⟨by simp only; omega, by simp only; omega, hd ▸ hf.symm⟩, ?_⟩
    omega
  rw [if_neg hb]
  have hb' : 256 ≤ delta := Nat.le_of_not_lt hb
  obtain ⟨ht, hc1⟩ := hhigh hb'
  by_cases hm : delta < SLOTS_PER_LEVEL * SLOTS_PER_LEVEL
  · rw [if_pos hm]
    have hm' : delta < 65536 := hm
    have hshift : delta >>> BITS_PER_LEVEL = delta / 256 := Nat.shiftRight_eq_div_pow _ _
    refine ⟨c 1 + delta / 256, ⟨by simp only; omega, by simp only; omega, ht, by omega, by omega⟩, ?_⟩
    omega
  rw [if_neg hm]
  have hm' : 65536 ≤ delta := Nat.le_of_not_lt hm
  have hshift : delta >>> (BITS_PER_LEVEL * 2) = delta / 65536 := Nat.shiftRight_eq_div_pow _ _
  refine ⟨c 2 + delta / 65536, ⟨by simp only; omega, by simp only; omega, ht, by omega, by omega⟩, ?_⟩
  omega

/-- The ticks left of a filed request, when it is due within the range of the wheel. -/
theorem Filed.ticksLeft (h : Filed w c armed out) (ht : w.currentTick = c 0 % 2 ^ 64)
    (ha : armed req = some a) (hle : c 0 ≤ a.due) (hlt : a.due < c 0 + 2 ^ 24) :
    w.ticksLeft req = a.due - c 0 := by
  rw [TimerWheel.ticksLeft, h.expiry req a ha, ht]
  omega

/-- A request that comes out of a higher level at the tick `c 0`, a multiple of 256. -/
structure Comes (c : Nat → Nat) (a : Alarm) : Prop where
  timeout : 256 ≤ a.timeout
  low : c 0 ≤ a.due
  high : a.due < c 0 + 131072
  top : c 0 + 65536 ≤ a.due → c 2 = c 0 / 65536

/-- **A drained request goes where it is found in time**; the one that is due right now lies in the
    slot that has just been drained, and fires a round later. -/
theorem Filed.reinsert (h : Filed w c armed (req :: out)) (ht : w.currentTick = c 0 % 2 ^ 64)
    (ha : armed req = some a) (hc : Comes c a) (h0 : c 0 % 256 = 0) (h1 : c 1 = c 0 / 256) :
    Filed (w.reinsert req) c armed out := by
  have hlow := hc.low
  have hhigh := hc.high
  have hleft := h.ticksLeft ht ha hlow (by omega)
  have hmax : MAX_TIMEOUT = 16777216 := rfl
  unfold TimerWheel.reinsert
  rw [hleft]
  by_cases hz : a.due - c 0 = 0
  · rw [if_pos (.inl hz)]
    have hfires : a.fires = a.due + 256 := by
      have ht := hc.timeout
      exact if_neg (by omega)
    refine h.push ha (m := c 0 + 256) ⟨by omega, Nat.le_refl _, ?_⟩ ?_
    · change c 0 + 256 = a.fires
      omega
    · rw [h.positions 0 (by decide)]
      omega
  · rw [if_neg (by omega)]
    obtain ⟨m, hm, hs⟩ := lies_calculateSlot (a := a) (a.due - c 0) h.positions (by omega) (by omega)
      (fun hb => ⟨by omega, if_pos (.inr (by omega))⟩) (fun _ => ⟨hc.timeout, h1⟩)
      (fun hb => hc.top (by omega))
    exact h.push ha hm hs

theorem reinsert_eq_push (w : TimerWheel) (req : ReqId) : ∃ l s, w.reinsert req = w.push l s req := by
  by_cases hz : w.ticksLeft req = 0 ∨ MAX_TIMEOUT < w.ticksLeft req
  · exact ⟨0, w.positions 0, if_pos hz⟩
  · exact ⟨_, _, if_neg hz⟩

theorem reinsert_currentTick (w : TimerWheel) (req : ReqId) :
    (w.reinsert req).currentTick = w.currentTick := by
  obtain ⟨l, s, h⟩ := reinsert_eq_push w req
  rw [h]
  rfl

theorem foldl_reinsert_currentTick (w : TimerWheel) (l : List ReqId) :
    (l.foldl reinsert w).currentTick = w.currentTick := by
  induction l generalizing w with
  | nil => rfl
  | cons req l ih => rw [foldl_cons, ih, reinsert_currentTick]

theorem Filed.reinsertAll (h : Filed w c armed out) (ht : w.currentTick = c 0 % 2 ^ 64)
    (hc : ∀ req ∈ out, ∃ a, armed req = some a ∧ Comes c a) (h0 : c 0 % 256 = 0)
    (h1 : c 1 = c 0 / 256) : Filed (out.foldl TimerWheel.reinsert w) c armed [] := by
  induction out generalizing w with
  | nil => exact h
  | cons req out ih =>
    obtain ⟨a, ha, hca⟩ := hc req mem_cons_self
    refine ih (h.reinsert ht ha hca h0 h1) ?_ fun req' hr => hc req' (mem_cons_of_mem _ hr)
    rw [reinsert_currentTick, ht]

/-! ## 5. A tick -/

theorem cascadeLeft_currentTick (w : TimerWheel) (left : Nat) :
    (w.cascadeLeft left).currentTick = w.currentTick := by
  induction left generalizing w with
  | zero => rfl
  | succ left ih =>
    have hw : ((w.drain (NUM_LEVELS - (left + 1))).2.foldl reinsert
        (w.drain (NUM_LEVELS - (left + 1))).1).currentTick = w.currentTick :=
      foldl_reinsert_currentTick _ _
    unfold cascadeLeft
    simp only
    split
    · rw [ih, hw]
    · exact hw

/-- How often each level has advanced after `n` ticks. -/
def counts (n : Nat) : Nat → Nat
  | 0 => n
  | 1 => n / 256
  | 2 => n / 65536
  | _ => 0

theorem Filed.congr {c' : Nat → Nat} (h : Filed w c armed out) (hc : ∀ l < NUM_LEVELS, c' l = c l) :
    Filed w c' armed out := by
  refine { h with positions := fun l hl => ?_, slot := fun l s req hr => ?_ }
  · rw [h.positions l hl, hc l hl]
  · obtain ⟨a, m, ha, hs, hlo, hhi, hlies⟩ := h.slot l s req hr
    rw [hc l hlies.level_lt]
    exact ⟨a, m, ha, hs, hlo, hhi, hlies⟩

/-- One level of the cascade. -/
theorem Filed.cascadeLevel (h : Filed w c armed []) (ht : w.currentTick = c 0 % 2 ^ 64)
    (h0 : c 0 % 256 = 0) (hl : l = 1 ∧ 256 * (c 1 + 1) = c 0 ∨
      l = 2 ∧ 65536 * (c 2 + 1) = c 0 ∧ c 1 = c 0 / 256) :
    Filed ((w.drain l).2.foldl TimerWheel.reinsert (w.drain l).1)
      (update c l (c l + 1)) armed [] := by
  obtain ⟨hd, hexact⟩ := h.drain (l := l) (by rcases hl with ⟨rfl, -⟩ | ⟨rfl, -⟩ <;> decide)
  have hc0 : update c l (c l + 1) 0 = c 0 :=
    update_of_ne (by rcases hl with ⟨rfl, -⟩ | ⟨rfl, -⟩ <;> decide) _ _
  refine hd.reinsertAll (hc0 ▸ ht) (fun req hr => ?_) (hc0 ▸ h0) ?_
  · obtain ⟨a, ha, hlies⟩ := hexact req hr
    refine ⟨a, ha, ?_⟩
    rcases hl with ⟨rfl, hc⟩ | ⟨rfl, hc, -⟩
    · obtain ⟨hto, hlow, hhigh⟩ := hlies
      exact ⟨hto, by rw [hc0]; omega, by rw [hc0]; omega, fun hb => by rw [hc0] at hb; omega⟩
    obtain ⟨hto, hlow, hhigh⟩ := hlies
    refine ⟨hto, by rw [hc0]; omega, by rw [hc0]; omega, fun _ => ?_⟩
    rw [hc0, update_self]
    omega
  · rw [hc0]
    rcases hl with ⟨rfl, hc⟩ | ⟨rfl, -, hc⟩
    · rw [update_self]
      omega
    · rw [update_of_ne (by decide), hc]

/-- **The cascade** at a tick that is a multiple of 256 brings all levels up to it. -/
theorem Filed.cascade (h : Filed w c armed []) {n : Nat} (ht : w.currentTick = n % 2 ^ 64)
    (hn : 0 < n) (h0 : n % 256 = 0) (c0 : c 0 = n) (c1 : c 1 = (n - 1) / 256)
    (c2 : c 2 = (n - 1) / 65536) : Filed (w.cascade 1) (counts n) armed [] := by
  have hone := h.cascadeLevel (c0 ▸ ht) (c0 ▸ h0) (l := 1) (.inl ⟨rfl, by omega⟩)
  have hp := hone.positions 1 (by decide)
  rw [update_self] at hp
  have hstep : w.cascade 1 =
      if ((w.drain 1).2.foldl TimerWheel.reinsert (w.drain 1).1).positions 1 = 0 then
        ((w.drain 1).2.foldl TimerWheel.reinsert (w.drain 1).1).cascadeLeft 1
      else (w.drain 1).2.foldl TimerWheel.reinsert (w.drain 1).1 := rfl
  have htick : ((w.drain 1).2.foldl TimerWheel.reinsert (w.drain 1).1).currentTick = n % 2 ^ 64 := by
    rw [foldl_reinsert_currentTick]
    exact ht
  rw [hstep]
  generalize (w.drain 1).2.foldl TimerWheel.reinsert (w.drain 1).1 = w₁ at hone hp htick
  have hc0 : update c 1 (c 1 + 1) 0 = n := by rw [update_of_ne (by decide), c0]
  have hc1 : update c 1 (c 1 + 1) 1 = n / 256 := by rw [update_self]; omega
  have hc2 : update c 1 (c 1 + 1) 2 = (n - 1) / 65536 := by
    rw [update_of_ne (by decide), c2]
  by_cases hz : w₁.positions 1 = 0
  · rw [if_pos hz]
    have htwo := hone.cascadeLevel (hc0.symm ▸ htick) (hc0.symm ▸ h0) (l := 2)
      (.inr ⟨rfl, by rw [hc0, hc2]; omega, by rw [hc0, hc1]⟩)
    have hlast : w₁.cascadeLeft 1 = (w₁.drain 2).2.foldl TimerWheel.reinsert (w₁.drain 2).1 := by
      exact ite_self _
    rw [hlast]
    refine htwo.congr fun l hl => ?_
    match l, hl with
    | 0, _ => rw [update_of_ne (by decide), hc0]; rfl
    | 1, _ => rw [update_of_ne (by decide), hc1]; rfl
    | 2, _ => rw [update_self, hc2]; change n / 65536 = _; omega
  · rw [if_neg hz]
    refine hone.congr fun l hl => ?_
    match l, hl with
    | 0, _ => exact hc0.symm
    | 1, _ => exact hc1.symm
    | 2, _ => rw [hc2]; change n / 65536 = _; omega

end Filing

/-! ## 6. Every run -/

/-- The wheel and its history agree. -/
structure WheelInv (w : TimerWheel × Alarms) : Prop where
  tick : w.1.currentTick = w.2.now % 2 ^ 64
  filed : Filed w.1 (counts w.2.now) w.2.armed []

/-- A waiting request has not fired yet. -/
theorem WheelInv.fires_gt {w : TimerWheel × Alarms} (h : WheelInv w) {req : ReqId} {a : Alarm}
    (ha : w.2.armed req = some a) : w.2.now < a.fires := by
  obtain ⟨l, s, hr⟩ := (h.filed.found req a ha).resolve_left not_mem_nil
  obtain ⟨a', m, ha', -, hlo, -, hlies⟩ := h.filed.slot l s req hr
  obtain rfl : a = a' := Option.some.inj (ha.symm.trans ha')
  have hfires : a.fires = a.due ∨ 256 ≤ a.timeout ∧ a.due % 256 = 0 ∧ a.fires = a.due + 256 := by
    unfold Alarm.fires
    split <;> omega
  match l, hlies with
  | 0, hlies =>
    have hm : m = a.fires := hlies
    have hlo' : w.2.now < m := hlo
    omega
  | 1, ⟨_, hlow, _⟩ =>
    have hlo' : w.2.now / 256 < m := hlo
    omega
  | 2, ⟨_, hlow, _⟩ =>
    have hlo' : w.2.now / 65536 < m := hlo
    omega

theorem wheelInv_init (expiry : ReqId → Nat) : WheelInv (.init expiry, {}) := by
  refine ⟨rfl, ⟨fun l hl => ?_, fun _ _ h => (some_ne_none _ h.symm).elim,
    fun _ _ _ h => (not_mem_nil h).elim, fun _ h => (not_mem_nil h).elim,
    fun _ _ h => (some_ne_none _ h.symm).elim, fun _ _ => nodup_nil, nodup_nil,
    fun _ _ _ _ _ h => (not_mem_nil h).elim, fun _ h => (not_mem_nil h).elim⟩⟩
  match l, hl with
  | 0, _ => rfl
  | 1, _ =>
    change 0 = 0 / 256 % 256
    rfl
  | 2, _ =>
    change 0 = 0 / 65536 % 256
    rfl

/-- `add` files the request. -/
theorem WheelInv.add {w : TimerWheel × Alarms} (h : WheelInv w) {req : ReqId} {timeout : Nat}
    (hin : InRange w (.add req timeout)) : WheelInv (wheel.step w (.add req timeout)) := by
  obtain ⟨hnew, hlow, hhigh⟩ := hin
  obtain ⟨w, hist⟩ := w
  obtain ⟨htick, hf⟩ := h
  change w.currentTick = hist.now % 2 ^ 64 at htick
  refine ⟨htick, ?_⟩
  set armed' := update hist.armed req (some ⟨hist.now, timeout⟩) with harmed
  set expiry' := update w.expiry req ((w.currentTick + min timeout (MAX_TIMEOUT - 1)) % 2 ^ 64)
    with hexpiry
  have hmax : MAX_TIMEOUT = 16777216 := rfl
  have hfree : ∀ l s, req ∉ w.slots l s := by
    intro l s hr
    obtain ⟨a, -, ha, -⟩ := hf.slot l s req hr
    rw [hnew] at ha
    cases ha
  have hout : Filed { w with expiry := expiry' } (counts hist.now) armed' [req] := by
    refine ⟨hf.positions, fun req' a ha => ?_, fun l s req' hr => ?_, fun req' hr => ?_,
      fun req' a ha => ?_, hf.nodup, nodup_singleton _, hf.once, fun req' hr l s => ?_⟩
    · by_cases e : req' = req
      · subst e
        rw [harmed, update_self] at ha
        cases ha
        change update w.expiry req' _ req' = _
        rw [update_self, Alarm.due]
        simp only
        omega
      · rw [harmed, update_of_ne e] at ha
        change update w.expiry req _ req' = _
        rw [update_of_ne e]
        exact hf.expiry req' a ha
    · obtain ⟨a, m, ha, hm⟩ := hf.slot l s req' hr
      refine ⟨a, m, ?_, hm⟩
      have hne : req' ≠ req := fun e => by
        subst e
        exact hfree l s hr
      rw [harmed, update_of_ne hne, ha]
    · rw [mem_singleton.mp hr, harmed, update_self]
      exact ⟨_, rfl⟩
    · by_cases e : req' = req
      · exact .inl (mem_singleton.mpr e)
      · rw [harmed, update_of_ne e] at ha
        exact .inr ((hf.found req' a ha).resolve_left not_mem_nil)
    · rw [mem_singleton.mp hr]
      exact hfree l s
  have ha : armed' req = some ⟨hist.now, timeout⟩ := by rw [harmed, update_self]
  have hleft : ticksLeft { w with expiry := expiry' } req = timeout := by
    rw [hout.ticksLeft htick ha (Nat.le_add_right _ _) (Nat.add_lt_add_left hhigh _)]
    exact Nat.add_sub_cancel_left _ _
  obtain ⟨m, hm, hs⟩ := lies_calculateSlot (a := ⟨hist.now, timeout⟩) timeout hout.positions rfl
    hhigh (fun hb => ⟨hlow, if_pos (.inl hb)⟩) (fun hb => ⟨hb, rfl⟩) (fun _ => rfl)
  have hdone := hout.push ha hm hs
  rw [← hleft] at hdone
  exact ⟨hdone.positions, hdone.expiry, hdone.slot, hdone.waits, hdone.found, hdone.nodup,
    hdone.outNodup, hdone.once, hdone.apart⟩

theorem mem_allSlots {l s : Nat} : (l, s) ∈ allSlots ↔ l < NUM_LEVELS ∧ s < SLOTS_PER_LEVEL := by
  simp [allSlots]

section Cancel

variable {w : TimerWheel} {c : Nat → Nat} {armed : ReqId → Option Alarm} {req : ReqId}

/-- `cancel()` finds a request if and only if it waits. -/
theorem Filed.find (h : Filed w c armed []) :
    (∃ p ∈ allSlots, req ∈ w.slots p.1 p.2) ↔ (armed req).isSome = true := by
  constructor
  · rintro ⟨p, -, hr⟩
    obtain ⟨a, -, ha, -⟩ := h.slot _ _ _ hr
    rw [ha]
    rfl
  · intro ha
    obtain ⟨a, ha⟩ := isSome_iff_exists.mp ha
    obtain ⟨l, s, hr⟩ := (h.found req a ha).resolve_left not_mem_nil
    obtain ⟨a', m, -, hs, -, -, hlies⟩ := h.slot l s req hr
    refine ⟨(l, s), mem_allSlots.mpr ⟨hlies.level_lt, ?_⟩, hr⟩
    rw [← hs]
    exact Nat.mod_lt _ (by decide)

/-- What `cancel()` takes out no longer waits. -/
theorem Filed.erase (h : Filed w c armed []) {l s : Nat} (hr : req ∈ w.slots l s) :
    Filed (w.setSlot l s ((w.slots l s).erase req)) c (update armed req none) [] := by
  have hmem : ∀ l' s' req', req' ∈ (w.setSlot l s ((w.slots l s).erase req)).slots l' s' ↔
      req' ≠ req ∧ req' ∈ w.slots l' s' := by
    intro l' s' req'
    rw [mem_setSlot, (h.nodup l s).mem_erase_iff]
    constructor
    · rintro (⟨rfl, rfl, hin⟩ | ⟨hne, hin⟩)
      · exact hin
      · exact ⟨fun e => hne (h.once req _ _ _ _ (e ▸ hin) hr), hin⟩
    · rintro ⟨hne, hin⟩
      by_cases e : l' = l ∧ s' = s
      · obtain ⟨rfl, rfl⟩ := e
        exact .inl ⟨rfl, rfl, hne, hin⟩
      · exact .inr ⟨e, hin⟩
  have harmed : ∀ req' a, update armed req none req' = some a ↔
      req' ≠ req ∧ armed req' = some a := by
    intro req' a
    by_cases e : req' = req
    · subst e
      simp
    · simp [e]
  refine ⟨h.positions, fun req' a ha => h.expiry req' a ((harmed _ _).mp ha).2,
    fun l' s' req' hr' => ?_, fun _ hn => (not_mem_nil hn).elim, fun req' a ha => ?_,
    fun l' s' => ?_, nodup_nil,
    fun req' _ _ _ _ h₁ h₂ => h.once req' _ _ _ _ ((hmem _ _ _).mp h₁).2 ((hmem _ _ _).mp h₂).2,
    fun _ hn => (not_mem_nil hn).elim⟩
  · obtain ⟨hne, hin⟩ := (hmem _ _ _).mp hr'
    obtain ⟨a, m, ha, hm⟩ := h.slot l' s' req' hin
    exact ⟨a, m, (harmed _ _).mpr ⟨hne, ha⟩, hm⟩
  · obtain ⟨hne, ha⟩ := (harmed _ _).mp ha
    obtain ⟨l', s', hin⟩ := (h.found req' a ha).resolve_left not_mem_nil
    exact .inr ⟨l', s', (hmem _ _ _).mpr ⟨hne, hin⟩⟩
  · by_cases e : l' = l ∧ s' = s
    · obtain ⟨rfl, rfl⟩ := e
      simpa [setSlot] using (h.nodup l' s').erase req
    · simpa [setSlot, e] using h.nodup l' s'

end Cancel

theorem WheelInv.cancels {w : TimerWheel × Alarms} (h : WheelInv w) (req : ReqId) :
    (w.1.cancel req).2 = (w.2.armed req).isSome := by
  unfold cancel
  cases hp : allSlots.find? fun p => decide (req ∈ w.1.slots p.1 p.2) with
  | some p =>
    have hr := find?_some hp
    exact (h.filed.find.mp ⟨p, mem_of_find?_eq_some hp, of_decide_eq_true hr⟩).symm
  | none =>
    have hno := find?_eq_none.mp hp
    refine (Bool.eq_false_iff.mpr fun ha => ?_).symm
    obtain ⟨p, hin, hr⟩ := h.filed.find.mpr ha
    exact hno p hin (decide_eq_true hr)

theorem WheelInv.cancel {w : TimerWheel × Alarms} (h : WheelInv w) (req : ReqId) :
    WheelInv (wheel.step w (.cancel req)) := by
  have hfound := h.cancels req
  obtain ⟨w, hist⟩ := w
  obtain ⟨htick, hf⟩ := h
  change WheelInv ((w.cancel req).1, { hist with armed := update hist.armed req none })
  unfold TimerWheel.cancel at hfound ⊢
  cases hp : TimerWheel.allSlots.find? fun p => decide (req ∈ w.slots p.1 p.2) with
  | some p =>
    have hin := find?_some hp
    have hdone := hf.erase (of_decide_eq_true hin)
    exact ⟨htick, hdone.positions, hdone.expiry, hdone.slot, hdone.waits, hdone.found, hdone.nodup,
      hdone.outNodup, hdone.once, hdone.apart⟩
  | none =>
    rw [hp] at hfound
    have hnone : hist.armed req = none := not_isSome_iff_eq_none.mp fun e => by
      rw [e] at hfound
      cases hfound
    refine ⟨htick, ?_⟩
    simp only
    rw [← hnone, update_eq_self]
    exact hf

/-- What the next tick takes out of the bottom level. -/
theorem WheelInv.expired {w : TimerWheel × Alarms} (h : WheelInv w) (req : ReqId) :
    req ∈ w.1.tick.2 ↔ ∃ a, w.2.armed req = some a ∧ a.fires = w.2.now + 1 := by
  have hout : w.1.tick.2 = w.1.slots 0 ((w.1.positions 0 + 1) % 256) := rfl
  have hpos : w.1.positions 0 = w.2.now % 256 := h.filed.positions 0 (by decide)
  rw [hout, hpos]
  constructor
  · intro hr
    obtain ⟨a, m, ha, hs, hlo, hhi, hlies⟩ := h.filed.slot _ _ _ hr
    have hm : m = a.fires := hlies
    change w.2.now < m at hlo
    change m ≤ w.2.now + 256 at hhi
    exact ⟨a, ha, by omega⟩
  · rintro ⟨a, ha, hfires⟩
    obtain ⟨l, s, hr⟩ := (h.filed.found req a ha).resolve_left not_mem_nil
    obtain ⟨a', m, ha', hs, hlo, -, hlies⟩ := h.filed.slot l s req hr
    obtain rfl : a = a' := Option.some.inj (ha.symm.trans ha')
    have hcases : a.fires = a.due ∧ (a.timeout < 256 ∨ a.due % 256 ≠ 0) ∨ a.fires = a.due + 256 := by
      unfold Alarm.fires
      split
      · exact .inl ⟨rfl, by assumption⟩
      · exact .inr rfl
    match l, hlies with
    | 0, hlies =>
      have hm : m = a.fires := hlies
      have hslot : s = (w.2.now % 256 + 1) % 256 := by omega
      exact hslot ▸ hr
    | 1, ⟨hto, hlow, _⟩ =>
      have hlo' : w.2.now / 256 < m := hlo
      omega
    | 2, ⟨hto, hlow, _⟩ =>
      have hlo' : w.2.now / 65536 < m := hlo
      omega

theorem WheelInv.tickStep {w : TimerWheel × Alarms} (h : WheelInv w) :
    WheelInv (wheel.step w .tick) := by
  obtain ⟨w, hist⟩ := w
  obtain ⟨htick, hf⟩ := h
  change w.currentTick = hist.now % 2 ^ 64 at htick
  have hnext : (w.currentTick + 1) % 2 ^ 64 = (hist.now + 1) % 2 ^ 64 := by omega
  have hw : Filed { w with currentTick := (w.currentTick + 1) % 2 ^ 64 } (counts hist.now)
      hist.armed [] := { hf with }
  have hdrained := (hw.drain (l := 0) (by decide)).1.disarm
  have hlist : (drain { w with currentTick := (w.currentTick + 1) % 2 ^ 64 } 0).2 =
      w.tick.2 := rfl
  rw [hlist] at hdrained
  set d := (drain { w with currentTick := (w.currentTick + 1) % 2 ^ 64 } 0).1 with hd
  have hdt : d.currentTick = (hist.now + 1) % 2 ^ 64 := hnext
  have hp := hdrained.positions 0 (by decide)
  rw [update_self] at hp
  have hp' : d.positions 0 = (hist.now + 1) % 256 := hp
  have hfinal : Filed (if d.positions 0 = 0 then d.cascade 1 else d) (counts (hist.now + 1))
      (fun req => if req ∈ w.tick.2 then none else hist.armed req) [] := by
    by_cases hz : d.positions 0 = 0
    · rw [if_pos hz]
      refine hdrained.cascade hdt (Nat.succ_pos _) (hp'.symm.trans hz) ?_ ?_ ?_
      · rw [update_self]; rfl
      · rw [update_of_ne (by decide)]; rfl
      · rw [update_of_ne (by decide)]; rfl
    rw [if_neg hz]
    refine hdrained.congr fun l hl => ?_
    match l, hl with
    | 0, _ => rw [update_self]; rfl
    | 1, _ =>
      change (hist.now + 1) / 256 = hist.now / 256
      omega
    | 2, _ =>
      rw [update_of_ne (by decide)]
      change (hist.now + 1) / 65536 = hist.now / 65536
      omega
  refine ⟨?_, ⟨hfinal.positions, hfinal.expiry, hfinal.slot, hfinal.waits, hfinal.found,
    hfinal.nodup, hfinal.outNodup, hfinal.once, hfinal.apart⟩⟩
  change (if d.positions 0 = 0 then d.cascade 1 else d).currentTick = (hist.now + 1) % 2 ^ 64
  split
  · exact (cascadeLeft_currentTick _ _).trans hdt
  · exact hdt

/-- In every run the wheel and its history agree. -/
theorem wheelInv_reach {w : TimerWheel × Alarms} (h : wheel.Reach InRange w) : WheelInv w := by
  refine h.invariant (fun w hw => ?_) fun w op _ hi hin => ?_
  · obtain ⟨⟨expiry, he⟩, hh⟩ := hw
    obtain ⟨w, hist⟩ := w
    cases he
    cases hh
    exact wheelInv_init expiry
  · cases op with
    | add req timeout => exact hi.add hin
    | cancel req => exact hi.cancel req
    | tick => exact hi.tickStep

/-- **When a request fires, whatever the run**: the next tick returns exactly the requests whose
    `Alarm.fires` it is, each once. -/
theorem wheel_fires {w : TimerWheel × Alarms} (h : wheel.Reach InRange w) : w.1.tick.2.Nodup ∧
      ∀ req, req ∈ w.1.tick.2 ↔ ∃ a, w.2.armed req = some a ∧ a.fires = w.2.now + 1 :=
  have hi := wheelInv_reach h
  ⟨hi.filed.nodup _ _, hi.expired⟩

/-- A request fires when it is due, unless a timeout of 256 or more ends at a multiple of 256. -/
theorem Alarm.fires_eq_due_iff (a : Alarm) : a.fires = a.due ↔ a.timeout < 256 ∨ a.due % 256 ≠ 0 := by
  unfold Alarm.fires
  split <;> simp_all

/-- In a run of exact steps every waiting request fires when it is due. -/
theorem fires_eq_due {w : TimerWheel × Alarms} (h : wheel.Reach KeepsExact w) :
    ∀ req a, w.2.armed req = some a → a.fires = a.due := by
  refine h.invariant (I := fun w => ∀ req a, w.2.armed req = some a → a.fires = a.due)
    (fun w hw req a ha => ?_) fun w op _ hi hk req a ha => ?_
  · rw [hw.2] at ha
    cases ha
  cases op with
  | add req' timeout =>
    change update w.2.armed req' (some ⟨w.2.now, timeout⟩) req = some a at ha
    by_cases e : req = req'
    · rw [e, update_self] at ha
      cases ha
      exact (Alarm.fires_eq_due_iff _).mpr hk.2
    · rw [update_of_ne e] at ha
      exact hi req a ha
  | cancel req' =>
    change update w.2.armed req' none req = some a at ha
    by_cases e : req = req'
    · rw [e, update_self] at ha
      cases ha
    · rw [update_of_ne e] at ha
      exact hi req a ha
  | tick =>
    change (if req ∈ w.1.tick.2 then none else w.2.armed req) = some a at ha
    by_cases e : req ∈ w.1.tick.2
    · rw [if_pos e] at ha
      cases ha
    · rw [if_neg e] at ha
      exact hi req a ha

/-- **The wheel is exact in every run of such steps.** -/
theorem timerWheel_exact {w : TimerWheel × Alarms} (h : wheel.Reach KeepsExact w) :
    ExactWheel w := by
  have hr : wheel.Reach InRange w := h.mono fun _ _ hk => hk.1
  have hi := wheelInv_reach hr
  have hdue := fires_eq_due h
  refine ⟨hi.tick, (wheel_fires hr).1, fun req => ?_, fun req a ha => ?_, hi.cancels⟩
  · rw [(wheel_fires hr).2 req]
    constructor
    · rintro ⟨a, ha, hf⟩
      exact ⟨a, ha, by rw [← hdue req a ha, hf]⟩
    · rintro ⟨a, ha, hf⟩
      exact ⟨a, ha, by rw [hdue req a ha, hf]⟩
  · rw [← hdue req a ha]
    exact hi.fires_gt ha

theorem wheel_start : wheel.start (.init fun _ => 0, {}) := ⟨⟨_, rfl⟩, rfl⟩

/-- Ticks meet the condition. -/
theorem ticks_along (C : TimerWheel × Alarms → WheelOp → Prop) (hC : ∀ w, C w .tick) (n : Nat)
    (w : TimerWheel × Alarms) : wheel.Along C w (List.replicate n .tick) := by
  induction n generalizing w with
  | zero => trivial
  | succ n ih => exact ⟨hC w, ih _⟩

/-- Until it fires, a request keeps waiting through the ticks. -/
theorem armed_ticks {w : TimerWheel × Alarms} {req : ReqId} {a : Alarm} (h : wheel.Reach InRange w)
    (ha : w.2.armed req = some a) {n : Nat} (hn : w.2.now + n < a.fires) :
    (wheel.exec w (List.replicate n .tick)).2.armed req = some a ∧
      (wheel.exec w (List.replicate n .tick)).2.now = w.2.now + n := by
  induction n generalizing w with
  | zero => exact ⟨ha, rfl⟩
  | succ n ih =>
    have hnot : req ∉ w.1.tick.2 := fun hr => by
      obtain ⟨a', ha', hf⟩ := ((wheel_fires h).2 req).mp hr
      rw [ha] at ha'
      cases ha'
      omega
    have hnow : (wheel.step w .tick).2.now = w.2.now + 1 := rfl
    have harmed : (wheel.step w .tick).2.armed req = some a := (if_neg hnot).trans ha
    obtain ⟨h₁, h₂⟩ := ih (h.step .tick trivial) harmed (by rw [hnow]; omega)
    exact ⟨h₁, h₂.trans (by rw [hnow]; omega)⟩

/-- A timeout of 300 ticks, up to the tick before it is due. -/
theorem timerWheel_exact_threeHundred :
    ExactWheel (wheel.exec (.init fun _ => 0, {}) (.add 7 300 :: List.replicate 299 .tick)) :=
  timerWheel_exact (Machine.Reach.exec (.start wheel_start)
    ⟨⟨⟨rfl, by decide, by decide⟩, .inr (by decide)⟩, ticks_along KeepsExact (fun _ => ⟨trivial, trivial⟩) _ _⟩)

/-- **The wheel is not exact in every run**: 256 ticks after a timeout of 256 ticks was added to a
    fresh wheel, the tick does not return the request. -/
theorem timerWheel_refuted : ¬ ∀ w, wheel.Reach InRange w → ExactWheel w := by
  intro hall
  have hstart : wheel.Reach InRange (wheel.step (.init fun _ => 0, {}) (.add 7 256)) :=
    (Machine.Reach.start wheel_start).step _ ⟨rfl, by decide, by decide⟩
  have hfires : Alarm.fires ⟨0, 256⟩ = 512 := rfl
  have hwaits : (wheel.step (.init fun _ => 0, {}) (.add 7 256)).2.armed 7 = some ⟨0, 256⟩ := rfl
  obtain ⟨ha, hnow⟩ := armed_ticks hstart hwaits (n := 255) (by decide)
  have hreach := Machine.Reach.exec hstart (ticks_along InRange (fun _ => trivial) 255 _)
  have hret := ((hall _ hreach).exact 7).mpr ⟨⟨0, 256⟩, ha, by rw [hnow]; rfl⟩
  obtain ⟨a, ha', hf⟩ := ((wheel_fires hreach).2 7).mp hret
  rw [ha] at ha'
  cases ha'
  rw [hnow, hfires] at hf
  exact absurd hf (by decide)

end Zigk.Io
