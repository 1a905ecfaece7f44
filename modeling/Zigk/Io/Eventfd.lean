/-
  Subject:   EVENTFD (syscall/io/eventfd.zig): the counter against what was written and read, and
             who sleeps.

  * `Eventfd`, `readSection`, `writeSection` -- the two calls under the lock; `eventStep` -- all
    threads, from one section to the next, and what the scheduler does with them;
  * `EventHistory` -- the initial value, the sums of the writes and of the reads;
  * `EventfdLaw` -- no value is lost or made up, the counter stays below its bound, and at rest
    nobody sleeps in a call that could go on;
  * **`eventfd`** -- the law, in every run of calm steps from an initial value within the bound.

  Left out: the close of the file and its flag, the reference counts, and `poll`.
-/
import Zigk.Proc.Park

namespace Zigk.Io

open Function Bool
open Sched

/-! ## 1. eventfd.zig -/

def MAX_COUNTER : Nat := 0xfffffffffffffffe

/-- Where a thread stands in `eventfdRead` or `eventfdWrite`. -/
inductive EventCall where
  /-- At the head of the loop. -/
  | read
  | write (value : Nat)
  /-- Waiting: before the look at the flag, before `block()`, or inside. -/
  | readWait (w : WaitStage)
  | writeWait (value : Nat) (w : WaitStage)
  deriving DecidableEq, Repr

open EventCall

structure Eventfd (T : Type) where
  counter : Nat
  semaphore_mode : Bool
  blocked_readers : Option T := none
  blocked_writers : Option T := none
  reader_woken : Bool := false
  writer_woken : Bool := false
  parks : T → Park := fun _ => {}
  calls : T → Option EventCall := fun _ => none

namespace Eventfd

variable {T : Type} [DecidableEq T] (s : Eventfd T)

def setCall (t : T) (c : Option EventCall) : Eventfd T :=
  { s with calls := update s.calls t c }

def setPark (t : T) (p : Park) : Eventfd T := { s with parks := update s.parks t p }

def setCounter (n : Nat) : Eventfd T := { s with counter := n }

/-- `sched.unblock`. -/
def unblock (t : T) : Eventfd T := s.setPark t (s.parks t).unblock

def wakeReader : Eventfd T :=
  match s.blocked_readers with
  | some t => { s with blocked_readers := none, reader_woken := true }.unblock t
  | none => s

def wakeWriter : Eventfd T :=
  match s.blocked_writers with
  | some t => { s with blocked_writers := none, writer_woken := true }.unblock t
  | none => s

/-- What a read takes, and what it leaves. -/
def readValue : Nat × Nat := if s.semaphore_mode then (1, s.counter - 1) else (s.counter, 0)

/-- One round of `eventfdRead` under the lock; `nonblock` is the flag of the descriptor. -/
def readSection (t : T) (nonblock : Bool) : Eventfd T :=
  if s.counter > 0 then ((s.setCounter s.readValue.2).wakeWriter).setCall t none
  else if nonblock then s.setCall t none
  else { s with blocked_readers := some t, reader_woken := false }.setCall t
    (some (.readWait .check))

/-- The sum neither overflows nor passes `MAX_COUNTER`. -/
def fits (value : Nat) : Bool :=
  s.counter + value < 2 ^ 64 && s.counter + value ≤ MAX_COUNTER

/-- One round of `eventfdWrite` under the lock. -/
def writeSection (t : T) (value : Nat) (nonblock : Bool) : Eventfd T :=
  if s.fits value then ((s.setCounter (s.counter + value)).wakeReader).setCall t none
  else if nonblock then s.setCall t none
  else { s with blocked_writers := some t, writer_woken := false }.setCall t
    (some (.writeWait value .check))

/-- A thread that waits: it looks at the flag, makes its `block()`, or goes back to the head of
    its loop; `wait` is its call at a stage. -/
def waitNext (t : T) (woken : Bool) (again : EventCall) (wait : WaitStage → EventCall) :
    WaitStage → Eventfd T
  | .check => s.setCall t (some (if woken then again else wait .before))
  | .before => (s.setPark t (s.parks t).block).setCall t
      (some (if (s.parks t).pending then again else wait .inBlock))
  | .inBlock => s.setCall t (some again)

/-- The next section of a thread that runs. -/
def next (t : T) (nonblock : Bool) : EventCall → Eventfd T
  | .read => s.readSection t nonblock
  | .write value => s.writeSection t value nonblock
  | .readWait w => s.waitNext t s.reader_woken .read .readWait w
  | .writeWait value w => s.waitNext t s.writer_woken (.write value) (.writeWait value) w

end Eventfd

inductive EventStep (T : Type) where
  | read (t : T) (len : Nat)
  | write (t : T) (value : BitVec 64) (len : Nat)
  /-- The thread goes on; `nonblock` is the flag of its descriptor now. -/
  | next (t : T) (nonblock : Bool)
  | preempt (t : T)
  | dispatch (t : T)
  /-- A wakeup from elsewhere, such as a signal. -/
  | unblock (t : T)

variable {c : Option EventCall} {value : Nat}

section Machine

variable {T : Type} [DecidableEq T]

/-- A thread that runs outside of the two calls. -/
def Eventfd.idle (s : Eventfd T) (t : T) : Bool := s.calls t = none ∧ (s.parks t).state = .Running

def eventStep (s : Eventfd T) : EventStep T → Eventfd T
  | .read t len => if s.idle t ∧ 8 ≤ len then s.setCall t (some .read) else s
  | .write t value len =>
    if s.idle t ∧ 8 ≤ len ∧ value ≠ 0xffffffffffffffff#64 then
      s.setCall t (some (.write value.toNat))
    else s
  | .next t nonblock =>
    match s.calls t with
    | some c => if (s.parks t).state = .Running then s.next t nonblock c else s
    | none => s
  | .preempt t => s.setPark t (s.parks t).preempt
  | .dispatch t => s.setPark t (s.parks t).dispatch
  | .unblock t => s.unblock t

/-- `sys_eventfd2` takes any initial value. -/
def eventMachine (T : Type) [DecidableEq T] : Machine (Eventfd T) (EventStep T) where
  start s := s.counter < 2 ^ 64 ∧ s.blocked_readers = none ∧ s.blocked_writers = none ∧
    ∀ t, s.calls t = none
  step := eventStep

/-! ## 2. The law -/

structure EventHistory where
  initval : Nat
  written : Nat := 0
  returned : Nat := 0

/-- What a round under the lock adds to the sums. -/
def EventHistory.after (h : EventHistory) (s : Eventfd T) : EventStep T → EventHistory
  | .next t _ =>
    if (s.parks t).state = .Running then
      match s.calls t with
      | some .read =>
        if s.counter > 0 then { h with returned := h.returned + s.readValue.1 } else h
      | some (.write value) =>
        if s.fits value then { h with written := h.written + value } else h
      | _ => h
    else h
  | _ => h

def eventTracked (T : Type) [DecidableEq T] : Machine (Eventfd T × EventHistory) (EventStep T) :=
  (eventMachine T).trackFrom (fun s => ⟨s.counter, 0, 0⟩) EventHistory.after

/-- Every thread is outside of the calls, or asleep. -/
def Eventfd.Quiet (s : Eventfd T) : Prop :=
  ∀ t c, s.calls t = some c → (s.parks t).state = .Blocked ∧
    (c = .readWait .inBlock ∨ ∃ value, c = .writeWait value .inBlock)

structure EventfdLaw (x : Eventfd T × EventHistory) : Prop where
  conserved : x.2.initval + x.2.written = x.2.returned + x.1.counter
  bounded : x.1.counter ≤ MAX_COUNTER
  readers : x.1.Quiet → ∀ t, x.1.calls t = some (.readWait .inBlock) → x.1.counter = 0
  writers : x.1.Quiet → ∀ t value, x.1.calls t = some (.writeWait value .inBlock) →
    x.1.fits value = false

/-! ## 3. Calm steps -/

def EventCall.readStage : Option EventCall → Option WaitStage
  | some (.readWait w) => some w
  | _ => none

def EventCall.writeStage : Option EventCall → Option WaitStage
  | some (.writeWait _ w) => some w
  | _ => none

def Eventfd.readStage (s : Eventfd T) (t : T) : Option WaitStage := EventCall.readStage (s.calls t)

def Eventfd.writeStage (s : Eventfd T) (t : T) : Option WaitStage :=
  EventCall.writeStage (s.calls t)

/-- A round that changes the counter finds whom it wakes; one that is to sleep may take its slot. -/
def EventCalm (s : Eventfd T) : EventStep T → Prop
  | .next t nonblock =>
    match s.calls t with
    | some .read =>
      if s.counter > 0 then ∀ u, s.blocked_writers = some u → Finds s.parks s.writeStage u
      else nonblock = false → MayTake s.parks s.readStage s.blocked_readers t
    | some (.write value) =>
      if s.fits value then ∀ u, s.blocked_readers = some u → Finds s.parks s.readStage u
      else nonblock = false → MayTake s.parks s.writeStage s.blocked_writers t
    | _ => True
  | _ => True

/-! ## 4. The invariant -/

structure EventInv (s : Eventfd T) : Prop where
  readers : SlotInv s.parks s.readStage s.blocked_readers s.reader_woken
  writers : SlotInv s.parks s.writeStage s.blocked_writers s.writer_woken
  empty : s.blocked_readers ≠ none → s.counter = 0
  full : ∀ t value w, s.blocked_writers = some t → s.calls t = some (.writeWait value w) →
    s.fits value = false

namespace EventInv

open Eventfd

variable {s : Eventfd T} {t : T}

theorem readStage_setCall (s : Eventfd T) (t : T) (c : Option EventCall) :
    (s.setCall t c).readStage = update s.readStage t (EventCall.readStage c) := by
  funext u
  unfold Eventfd.readStage setCall
  by_cases h : u = t
  · subst h
    simp only [update_self]
  · simp only [update_of_ne h]

theorem writeStage_setCall (s : Eventfd T) (t : T) (c : Option EventCall) :
    (s.setCall t c).writeStage = update s.writeStage t (EventCall.writeStage c) := by
  funext u
  unfold Eventfd.writeStage setCall
  by_cases h : u = t
  · subst h
    simp only [update_self]
  · simp only [update_of_ne h]

/-- Milder things happen to a thread. -/
theorem setPark (h : EventInv s) {p : Park} (hp : (s.parks t).Milder p) :
    EventInv (s.setPark t p) where
  readers := h.readers.milder (Park.milder_update hp) fun _ => .inr rfl
  writers := h.writers.milder (Park.milder_update hp) fun _ => .inr rfl
  empty := h.empty
  full := h.full

theorem calls_setCall {u : T} {d : EventCall} (h : (s.setCall t c).calls u = some d) :
    u = t ∧ c = some d ∨ u ≠ t ∧ s.calls u = some d := by
  change update s.calls t c u = some d at h
  by_cases e : u = t
  · subst e
    exact .inl ⟨rfl, by rwa [update_self] at h⟩
  · exact .inr ⟨e, by rwa [update_of_ne e] at h⟩

/-- A thread goes on to another place of its call, or to its end, with what its `block()` did. -/
theorem moved (h : EventInv s) {p : Park} (hr : SlotInv (update s.parks t p)
      (update s.readStage t (readStage c)) s.blocked_readers s.reader_woken)
    (hw : SlotInv (update s.parks t p)
      (update s.writeStage t (writeStage c)) s.blocked_writers s.writer_woken)
    (hf : ∀ value w, s.blocked_writers = some t → c = some (.writeWait value w) →
      s.fits value = false) : EventInv ((s.setPark t p).setCall t c) where
  readers := by
    rw [readStage_setCall]
    exact hr
  writers := by
    rw [writeStage_setCall]
    exact hw
  empty := h.empty
  full u value w hs hc := by
    rcases calls_setCall hc with ⟨e, hc'⟩ | ⟨-, hc'⟩
    · exact hf value w (e ▸ hs) hc'
    · exact h.full u value w hs hc'

theorem setPark_self (s : Eventfd T) (t : T) : s.setPark t (s.parks t) = s := by
  unfold Eventfd.setPark
  rw [update_eq_self]

/-- The same without a `block()`. -/
theorem went (h : EventInv s)
    (hr : SlotInv s.parks (update s.readStage t (readStage c)) s.blocked_readers
      s.reader_woken) (hw : SlotInv s.parks (update s.writeStage t (writeStage c))
      s.blocked_writers s.writer_woken)
    (hf : ∀ value w, s.blocked_writers = some t → c = some (.writeWait value w) →
      s.fits value = false) : EventInv (s.setCall t c) := by
  rw [← update_eq_self t s.parks] at hr hw
  have hm := h.moved hr hw hf
  rwa [setPark_self] at hm

/-- A thread goes to a place where it does not wait. -/
theorem gone (h : EventInv s) (t : T) (hr : readStage c = none)
    (hw : writeStage c = none) : EventInv (s.setCall t c) :=
  h.went (hr ▸ h.readers.leave t) (hw ▸ h.writers.leave t) fun _ _ _ hc => by
    rw [hc] at hw
    cases hw

theorem readWait (h : EventInv s) {w : WaitStage} (ht : s.calls t = some (.readWait w)) :
    EventInv (s.waitNext t s.reader_woken .read .readWait w) := by
  have hst : s.readStage t = some w := by
    rw [Eventfd.readStage, ht]
    rfl
  have hno : s.writeStage t = none := by
    rw [Eventfd.writeStage, ht]
    rfl
  cases w with
  | check =>
    have hl := h.readers.look hst
    refine h.went ?_ ?_ ?_
    · cases hw : s.reader_woken <;> (rw [hw] at hl; exact hl)
    · cases s.reader_woken <;> exact h.writers.leave t
    · cases s.reader_woken <;> exact fun _ _ _ hc => nomatch hc
  | before =>
    have hb := h.readers.block hst
    have hw := (h.writers.other hno (s.parks t).block).leave t
    refine h.moved ?_ ?_ ?_
    · cases hp : (s.parks t).pending <;> (rw [hp] at hb; exact hb)
    · cases (s.parks t).pending <;> exact hw
    · cases (s.parks t).pending <;> exact fun _ _ _ hc => nomatch hc
  | inBlock => exact h.gone t rfl rfl

theorem writeWait (h : EventInv s) {w : WaitStage} (ht : s.calls t = some (.writeWait value w)) :
    EventInv (s.waitNext t s.writer_woken (.write value) (.writeWait value) w) := by
  have hst : s.writeStage t = some w := by
    rw [Eventfd.writeStage, ht]
    rfl
  have hno : s.readStage t = none := by
    rw [Eventfd.readStage, ht]
    rfl
  have hfull : s.blocked_writers = some t → s.fits value = false := fun hs =>
    h.full t value w hs ht
  have hsame : ∀ {b : Bool} {v : Nat} {w w' : WaitStage}, s.blocked_writers = some t →
      some (if b then .write value else .writeWait value w) = some (EventCall.writeWait v w') →
        s.fits v = false := by
    intro b v w w' hs hc
    cases b with
    | true => exact nomatch hc
    | false =>
      obtain ⟨rfl, -⟩ := EventCall.writeWait.inj (Option.some.inj hc)
      exact hfull hs
  cases w with
  | check =>
    have hl := h.writers.look hst
    refine h.went ?_ ?_ fun v w' hs hc => hsame hs hc
    · cases s.writer_woken <;> exact h.readers.leave t
    · cases hw : s.writer_woken <;> (rw [hw] at hl; exact hl)
  | before =>
    have hb := h.writers.block hst
    have hr := (h.readers.other hno (s.parks t).block).leave t
    refine h.moved ?_ ?_ fun v w' hs hc => hsame hs hc
    · cases (s.parks t).pending <;> exact hr
    · cases hp : (s.parks t).pending <;> (rw [hp] at hb; exact hb)
  | inBlock => exact h.gone t rfl rfl

omit [DecidableEq T] in
theorem fits_iff (s : Eventfd T) (value : Nat) :
    s.fits value = true ↔ s.counter + value ≤ MAX_COUNTER := by
  have hmax : MAX_COUNTER < 2 ^ 64 := by decide
  rw [Eventfd.fits, and_eq_true, decide_eq_true_iff, decide_eq_true_iff]
  omega

omit [DecidableEq T] in
/-- The sum of a value that does not fit does not fit with more in the counter. -/
theorem fits_mono {s s' : Eventfd T} (hc : s.counter ≤ s'.counter)
    (h : s.fits value = false) : s'.fits value = false := by
  rw [← Bool.not_eq_true, fits_iff] at h ⊢
  omega

/-- The reader in the slot is woken; the counter has grown. -/
theorem wakeReader (h : EventInv s) {n : Nat} (hn : s.counter ≤ n)
    (hf : ∀ u, s.blocked_readers = some u → Finds s.parks s.readStage u) :
    EventInv ((s.setCounter n).wakeReader) := by
  have hfull : ∀ u value w, s.blocked_writers = some u → s.calls u = some (.writeWait value w) →
      ∀ s' : Eventfd T, s'.counter = n → s'.fits value = false := fun u value w hs hc s' hs' =>
    fits_mono (hs' ▸ hn) (h.full u value w hs hc)
  unfold Eventfd.wakeReader
  split
  · next u hu =>
      have hu' : s.blocked_readers = some u := hu
      exact {
        readers := h.readers.wake hu' (hf u hu')
        writers := h.writers.milder (Park.milder_update (Park.unblock_milder _)) fun _ => .inr rfl
        empty := fun hne => absurd rfl hne
        full := fun v value w hs hc => hfull v value w hs hc _ rfl }
  next hnone =>
    have hnone' : s.blocked_readers = none := hnone
    exact {
      readers := h.readers
      writers := h.writers
      empty := fun hne => absurd hnone' hne
      full := fun v value w hs hc => hfull v value w hs hc _ rfl }

/-- The writer in the slot is woken; the counter has been read. -/
theorem wakeWriter (h : EventInv s) {n : Nat} (hpos : s.counter > 0)
    (hf : ∀ u, s.blocked_writers = some u → Finds s.parks s.writeStage u) :
    EventInv ((s.setCounter n).wakeWriter) := by
  have hempty : s.blocked_readers = none := by
    by_contra hne
    have := h.empty hne
    omega
  unfold Eventfd.wakeWriter
  split
  · next u hu =>
      have hu' : s.blocked_writers = some u := hu
      exact {
        readers := h.readers.milder (Park.milder_update (Park.unblock_milder _)) fun _ => .inr rfl
        writers := h.writers.wake hu' (hf u hu')
        empty := fun hne => absurd hempty hne
        full := fun _ _ _ hs => nomatch hs }
  next hnone =>
    have hnone' : s.blocked_writers = none := hnone
    exact {
      readers := h.readers
      writers := h.writers
      empty := fun hne => absurd hempty hne
      full := fun _ _ _ hs => nomatch hnone'.symm.trans hs }

/-- A reader that finds nothing takes the slot. -/
theorem sleepRead (h : EventInv s) (hrun : (s.parks t).state = .Running) (hzero : s.counter = 0)
    (hm : MayTake s.parks s.readStage s.blocked_readers t) :
    EventInv ({ s with blocked_readers := some t, reader_woken := false }.setCall t
      (some (.readWait .check))) where
  readers := by
    rw [readStage_setCall]
    exact h.readers.publish hrun hm (fun e => nomatch e)
  writers := by
    rw [writeStage_setCall]
    exact h.writers.leave t
  empty _ := hzero
  full u value w hs hc := by
    rcases calls_setCall hc with ⟨-, hc'⟩ | ⟨-, hc'⟩
    · cases hc'
    · exact h.full u value w hs hc'

/-- A writer whose value does not fit takes the slot. -/
theorem sleepWrite (h : EventInv s) (hrun : (s.parks t).state = .Running)
    (hfit : s.fits value = false) (hm : MayTake s.parks s.writeStage s.blocked_writers t) :
    EventInv ({ s with blocked_writers := some t, writer_woken := false }.setCall t
      (some (.writeWait value .check))) where
  readers := by
    rw [readStage_setCall]
    exact h.readers.leave t
  writers := by
    rw [writeStage_setCall]
    exact h.writers.publish hrun hm (fun e => nomatch e)
  empty := h.empty
  full u v w hs hc := by
    rcases calls_setCall hc with ⟨-, hc'⟩ | ⟨e, -⟩
    · obtain ⟨rfl, -⟩ := writeWait.inj (Option.some.inj hc')
      exact hfit
    · exact absurd (Option.some.inj hs).symm e

/-- **A calm step keeps the invariant.** -/
theorem step (h : EventInv s) (i : EventStep T) (hc : EventCalm s i) :
    EventInv (eventStep s i) := by
  cases i with
  | read t len =>
    rw [eventStep]
    split_ifs
    · exact h.gone t rfl rfl
    · exact h
  | write t value len =>
    rw [eventStep]
    split_ifs
    · exact h.gone t rfl rfl
    · exact h
  | next t nonblock =>
    rw [eventStep]
    cases ht : s.calls t with
    | none => exact h
    | some c =>
      simp only
      split_ifs with hrun
      · rw [EventCalm, ht] at hc
        cases c with
        | read =>
          simp only [Eventfd.next, readSection] at hc ⊢
          split_ifs at hc ⊢ with hpos hnb
          · exact (h.wakeWriter hpos hc).gone t rfl rfl
          · exact h.gone t rfl rfl
          · exact h.sleepRead hrun (Nat.eq_zero_of_not_pos hpos)
              (hc (eq_false_iff.2 hnb))
        | write value =>
          simp only [Eventfd.next, writeSection] at hc ⊢
          split_ifs at hc ⊢ with hfit hnb
          · exact (h.wakeReader (Nat.le_add_right ..) hc).gone t rfl rfl
          · exact h.gone t rfl rfl
          · exact h.sleepWrite hrun (eq_false_iff.2 hfit)
              (hc (eq_false_iff.2 hnb))
        | readWait w => exact h.readWait ht
        | writeWait value w => exact h.writeWait ht
      · exact h
  | preempt t => exact h.setPark (Park.preempt_milder _)
  | dispatch t => exact h.setPark (Park.dispatch_milder _)
  | unblock t => exact h.setPark (Park.unblock_milder _)

end EventInv

/-! ## 5. The sums -/

/-- What was written is returned or still there. -/
structure Balanced (x : Eventfd T × EventHistory) : Prop where
  conserved : x.2.initval + x.2.written = x.2.returned + x.1.counter
  bounded : x.2.initval ≤ MAX_COUNTER → x.1.counter ≤ MAX_COUNTER

theorem counter_wakeReader (s : Eventfd T) : s.wakeReader.counter = s.counter := by
  unfold Eventfd.wakeReader
  split <;> rfl

theorem counter_wakeWriter (s : Eventfd T) : s.wakeWriter.counter = s.counter := by
  unfold Eventfd.wakeWriter
  split <;> rfl

theorem counter_waitNext (s : Eventfd T) (t : T) (woken : Bool) (again : EventCall)
    (wait : WaitStage → EventCall) (w : WaitStage) :
    (s.waitNext t woken again wait w).counter = s.counter := by
  cases w <;> rfl

omit [DecidableEq T] in
theorem readValue_sum (s : Eventfd T) (h : s.counter > 0) :
    s.readValue.1 + s.readValue.2 = s.counter := by
  unfold Eventfd.readValue
  split <;> simp only <;> omega

/-- **Every step keeps the balance.** -/
theorem Balanced.step {x : Eventfd T × EventHistory} (h : Balanced x) (i : EventStep T) :
    Balanced ((eventTracked T).step x i) := by
  obtain ⟨s, y⟩ := x
  have hcons := h.conserved
  have hbound := h.bounded
  have hsame : ∀ s' : Eventfd T, s'.counter = s.counter → Balanced (s', y) := fun s' hs' =>
    ⟨hs' ▸ hcons, fun hi => hs' ▸ hbound hi⟩
  cases i with
  | next t nonblock =>
    change Balanced (eventStep s (.next t nonblock), y.after s (.next t nonblock))
    rw [eventStep, EventHistory.after]
    by_cases hrun : (s.parks t).state = .Running
    · rw [if_pos hrun]
      cases ht : s.calls t with
      | none => exact h
      | some c =>
        simp only [if_pos hrun]
        cases c with
        | read =>
          simp only [Eventfd.next, Eventfd.readSection]
          by_cases hpos : s.counter > 0
          · rw [if_pos hpos, if_pos hpos]
            have hsum := readValue_sum s hpos
            have hc : (((s.setCounter s.readValue.2).wakeWriter).setCall t none).counter =
                s.readValue.2 := counter_wakeWriter _
            refine ⟨?_, fun hi => ?_⟩
            · rw [hc]
              simp only at hcons ⊢
              omega
            rw [hc]
            have := hbound hi
            simp only at this
            omega
          · rw [if_neg hpos, if_neg hpos]
            split_ifs <;> exact hsame _ rfl
        | write value =>
          simp only [Eventfd.next, Eventfd.writeSection]
          by_cases hfit : s.fits value = true
          · rw [if_pos hfit, if_pos hfit]
            have hc : (((s.setCounter (s.counter + value)).wakeReader).setCall t
                none).counter = s.counter + value := counter_wakeReader _
            refine ⟨?_, fun _ => ?_⟩
            · rw [hc]
              simp only at hcons ⊢
              omega
            · rw [hc]
              exact (EventInv.fits_iff s value).1 hfit
          · rw [if_neg hfit, if_neg hfit]
            split_ifs <;> exact hsame _ rfl
        | readWait w => exact hsame _ (counter_waitNext ..)
        | writeWait value w => exact hsame _ (counter_waitNext ..)
    · rw [if_neg hrun]
      cases s.calls t with
      | none => exact h
      | some c =>
        simp only [if_neg hrun]
        exact h
  | read t len =>
    refine hsame (eventStep s (.read t len)) ?_
    rw [eventStep]
    split_ifs <;> rfl
  | write t value len =>
    refine hsame (eventStep s (.write t value len)) ?_
    rw [eventStep]
    split_ifs <;> rfl
  | preempt t => exact hsame (eventStep s (.preempt t)) rfl
  | dispatch t => exact hsame (eventStep s (.dispatch t)) rfl
  | unblock t => exact hsame (eventStep s (.unblock t)) rfl

/-- **No value is lost, the counter keeps its bound, and at rest nobody sleeps that could go on**,
    in a run of calm steps from an initial value within the bound. -/
theorem eventfd (x : Eventfd T × EventHistory)
    (hx : (eventTracked T).Reach (fun x i => EventCalm x.1 i) x)
    (hinit : x.2.initval ≤ MAX_COUNTER) : EventfdLaw x := by
  have hinv : EventInv x.1 := by
    refine hx.forgetFrom.invariant (I := EventInv) ?_ fun s i _ hi hc => hi.step i hc
    rintro s ⟨-, hr, hw, hcalls⟩
    have hrs : ∀ t, s.readStage t = none := fun t => by rw [Eventfd.readStage, hcalls]; rfl
    have hws : ∀ t, s.writeStage t = none := fun t => by rw [Eventfd.writeStage, hcalls]; rfl
    exact ⟨.idle hrs, .idle hws, fun hne => absurd hr hne, fun t _ _ _ hc =>
      nomatch (hcalls t).symm.trans hc⟩
  have hbal : Balanced x := by
    refine hx.invariant (I := Balanced) ?_ fun x i _ hi _ => hi.step i
    rintro ⟨s, y⟩ ⟨-, hy⟩
    obtain rfl : y = ⟨s.counter, 0, 0⟩ := hy
    exact ⟨by simp, fun hi => hi⟩
  exact {
    conserved := hbal.conserved
    bounded := hbal.bounded hinit
    readers := fun hq t ht => by
      have hst : x.1.readStage t = some .inBlock := by rw [Eventfd.readStage, ht]; rfl
      have hslot := hinv.readers.asleep t hst (hq t _ ht).1
      exact hinv.empty (hslot ▸ nofun)
    writers := fun hq t value ht => by
      have hst : x.1.writeStage t = some .inBlock := by rw [Eventfd.writeStage, ht]; rfl
      exact hinv.full t value _ (hinv.writers.asleep t hst (hq t _ ht).1) ht }

/-- An eventfd with nothing in it. -/
def emptyEventfd (T : Type) : Eventfd T × EventHistory := (⟨0, false, none, none, false, false,
  fun _ => {}, fun _ => none⟩, ⟨0, 0, 0⟩)

theorem emptyEventfd_start : (eventTracked T).start (emptyEventfd T) := by
  have hstart : (eventMachine T).start (emptyEventfd T).1 :=
    ⟨Nat.two_pow_pos 64, rfl, rfl, fun _ => rfl⟩
  exact ⟨hstart, rfl⟩

end Machine

/-- A reader goes to sleep, and a writer comes. -/
def readThenWrite : List (EventStep Bool) :=
  [.read true 8, .next true false, .write false 5 8, .next false false]

/-- Nothing of the 5 is lost. -/
theorem eventfd_readThenWrite : ∃ x : Eventfd Bool × EventHistory,
    EventfdLaw x ∧ x.2.written = 5 ∧ x.1.counter = 5 := by
  refine ⟨(eventTracked Bool).exec (emptyEventfd Bool) readThenWrite, eventfd _ ?_ (by decide),
    by decide, by decide⟩
  refine Machine.Reach.exec (.start emptyEventfd_start)
    ⟨trivial, ?_, trivial, ?_, trivial⟩
  · intro _ u hne hu
    cases u with
    | true => exact absurd rfl hne
    | false => trivial
  · intro u hu
    obtain rfl : true = u := Option.some.inj hu
    exact fun h => nomatch h

def asleep (t : Fin 3) : List (EventStep (Fin 3)) :=
  [.read t 8, .next t false, .next t false, .next t false]

def writeFive : List (EventStep (Fin 3)) := [.write (Fin.last 2) 5 8, .next (Fin.last 2) false]

/-- **Two readers sleep, and only the second is ever woken**: at rest the counter is 5 and the first
    sleeps on. -/
theorem eventfd_refuted : ¬∀ x : Eventfd (Fin 3) × EventHistory,
    (eventTracked (Fin 3)).Reachable x → x.2.initval ≤ MAX_COUNTER → EventfdLaw x := by
  intro h
  have hlaw := h _ (Machine.Reachable.exec (.start emptyEventfd_start)
    (asleep 0 ++ asleep 1 ++ writeFive ++ [.dispatch 1, .next 1 false, .next 1 false] ++ writeFive))
    (by decide)
  generalize hx : (eventTracked (Fin 3)).exec (emptyEventfd (Fin 3)) (asleep 0 ++ asleep 1 ++
    writeFive ++ [.dispatch 1, .next 1 false, .next 1 false] ++ writeFive) = x at hlaw
  have hcalls : x.1.calls 0 = some (.readWait .inBlock) ∧ ∀ t, t ≠ 0 → x.1.calls t = none := by
    subst hx
    decide
  have hpark : (x.1.parks 0).state = .Blocked ∧ x.1.counter = 5 := by
    subst hx
    decide
  have hquiet : x.1.Quiet := by
    intro t c hc
    by_cases ht : t = 0
    · subst ht
      exact ⟨hpark.1, .inl (Option.some.inj (hc.symm.trans hcalls.1))⟩
    · exact nomatch (hcalls.2 t ht).symm.trans hc
  exact nomatch hpark.2.symm.trans (hlaw.readers hquiet 0 hcalls.1)

end Zigk.Io
