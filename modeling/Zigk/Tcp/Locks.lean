/-
  Subject:   SEVERAL CPUS IN THE TCP MODULE: incoming segments, `connect`, `listen` and the timers,
             interleaved at the acquisitions of the state lock and of the TCB mutexes.

  What is done between two acquisitions is one step. `Pc` says where a CPU stands: which lock it
  waits for and which it holds follow from that (`wantsState`, `holdsState`, `wantsMutex`,
  `holdsMutex`). The timers only try the mutexes and wait for none.

  * `locking` -- the machine; `waitsFor`, `Deadlocked`;
  * **`locksSafe`** -- in a run of such steps the connections are unique and no two CPUs wait for
    each other; `locksSafe_refuted` -- two SYNs for one listener on two CPUs, a SYN and a `connect`.
-/
import Zigk.Tcp.Tables

namespace Zigk.Tcp

open Function List

/-! ## 1. CPUs -/

/-- The entry points. -/
inductive Task where
  | packet (p : Packet)
  | connect (e : Endpoints) (o : SocketSettings)
  | listen (localAddr : IpAddr) (localPort : BitVec 16) (sock : Nat) (append : Bool)
  | timers

/-- Where a CPU stands. -/
inductive Pc where
  | idle
  /-- Waits for the state lock to begin. -/
  | start (t : Task)
  /-- `processPacket` has found a TCB: holds the state lock, waits for the mutex of the TCB. -/
  | atTcb (i : TcbId) (p : Packet)
  /-- Holds the mutex of the TCB. -/
  | inTcb (i : TcbId) (p : Packet)
  /-- `handleSynReceivedEstablished`. -/
  | accepting (i : TcbId)
  /-- Waits for the state lock to count an accepted connection. -/
  | counting (parent : Option Nat)
  /-- Waits for the state lock to free a TCB, `checked` if it is still live. -/
  | freeing (i : TcbId) (checked : Bool)
  /-- `processPacket` has found a listener: holds the state lock, waits for the listener's mutex. -/
  | atListener (l : TcbId) (p : Packet)
  /-- `processListenPacket` with a SYN: holds the listener's mutex, waits for the state lock. -/
  | inListener (l : TcbId) (p : Packet)
  /-- Holds the listener's mutex and sends the SYN-ACK. -/
  | answering (l i : TcbId) (p : Packet)
  /-- Holds the listener's mutex, waits for the state lock to free the TCB again. -/
  | unanswered (l i : TcbId)

namespace Pc

def wantsState : Pc → Bool
  | start _ | counting _ | freeing .. | inListener .. | unanswered .. => true
  | _ => false

def holdsState : Pc → Bool
  | atTcb .. | atListener .. => true
  | _ => false

def wantsMutex : Pc → Option TcbId
  | atTcb i _ | atListener i _ => some i
  | _ => none

def holdsMutex : Pc → Option TcbId
  | inTcb i _ | inListener i _ | answering i .. | unanswered i _ => some i
  | _ => none

/-- The listener that a CPU has found. -/
def listener : Pc → Option TcbId
  | atListener l _ | inListener l _ | answering l _ _ | unanswered l _ => some l
  | _ => none

end Pc

structure Smp (n : Nat) where
  mod : Module
  pc : Fin n → Pc

namespace Smp

variable {n : Nat} (w : Smp n)

/-- The state lock is free, or the mutex of `i`. -/
def stateFree : Bool := decide (∀ d, (w.pc d).holdsState = false)

def mutexFree (i : TcbId) : Bool := decide (∀ d, (w.pc d).holdsMutex ≠ some i)

/-- The CPU waits for a lock that another one holds. -/
def blocked (c : Fin n) : Bool :=
  ((w.pc c).wantsState && !w.stateFree) || (w.pc c).wantsMutex.any fun i => !w.mutexFree i

/-- What a CPU meets: taken are the mutexes that the CPUs hold. -/
def around (s : Surroundings) : Surroundings := { s with busy := fun i => !w.mutexFree i }

end Smp

/-! ## 2. The steps -/

/-- `processPacket` under the state lock, up to the next acquisition. -/
def lookUp (m : Module) (p : Packet) : Pc :=
  if p.valid then
    match m.findTcbIp p.endpoints with
    | some i => if (m.tcb i).closing then .idle else .atTcb i p
    | none =>
      match m.findListeningTcbIp p.endpoints.localPort p.endpoints.localAddr with
      | some l => if (m.tcb l).closing then .idle else .atListener l p
      | none => .idle
  else .idle

/-- A task, once it has the state lock. -/
def runTask (m : Module) (s : Surroundings) : Task → Module × Pc
  | .packet p => (m, lookUp m p)
  | .connect e o => (m.connectIp s e o, .idle)
  | .listen a port sock append => (m.listenIp s a port sock append, .idle)
  | .timers => (m.processTimers s, .idle)

/-- With both locks a half-open connection is handled at once; else the state lock is released. -/
def enterTcb (m : Module) (s : Surroundings) (i : TcbId) (p : Packet) : Module × Pc :=
  if (m.tcb i).state = .SynReceived then
    let r := processSynReceivedLocked (m.env s i) { tcb := m.tcb i } p
    if r.2 then ((m.leaveHalfOpen i).settle i (r.1, false), .accepting i)
    else (m.settle i (r.1, false), .idle)
  else (m, .inTcb i p)

/-- The handlers run under the mutex of the TCB alone. -/
def runHandler (m : Module) (s : Surroundings) (i : TcbId) (p : Packet) : Module × Pc :=
  let r := processEstablishedPacket (m.env s i) { tcb := m.tcb i } p
  (m.settle i (r.1, false), if r.2 = .FreeTcb then .freeing i true else .idle)

/-- No lock is held while the connection is handed to the listening socket. -/
def runAccept (m : Module) (s : Surroundings) (i : TcbId) : Module × Pc :=
  let r := handleSynReceivedEstablished (m.env s i) { tcb := m.tcb i }
  (m.settle i (r.1, false),
    if r.2 = .FreeTcb then .freeing i false
    else if s.queued then .counting (m.tcb i).parentSocket else .idle)

/-- `processListenPacket` with the state lock. -/
def runListener (m : Module) (s : Surroundings) (l : TcbId) (p : Packet) : Module × Pc :=
  match m.admitSyn s (m.tcb l) p with
  | (m, some i) => (m, .answering l i p)
  | (m, none) => (m, .idle)

def runAnswer (m : Module) (s : Surroundings) (l i : TcbId) (p : Packet) : Module × Pc :=
  let r := answerSyn (m.env s i) { tcb := m.tcb i } p
  (m.settle i (r.1, false), if r.2 then .idle else .unanswered l i)

/-- What a CPU does once it has the lock it waits for; `task` is what an idle one begins. -/
def advance (m : Module) (s : Surroundings) (task : Task) : Pc → Module × Pc
  | .idle => (m, .start task)
  | .start t => runTask m s t
  | .atTcb i p => enterTcb m s i p
  | .inTcb i p => runHandler m s i p
  | .accepting i => runAccept m s i
  | .counting parent => (m.countAccept parent, .idle)
  | .freeing i checked => (if checked && decide (i ∉ m.pool) then m else m.freeTcb i, .idle)
  | .atListener l p => (m, if opensConnection p then .inListener l p else .idle)
  | .inListener l p => runListener m s l p
  | .answering l i p => runAnswer m s l i p
  | .unanswered _ i => (m.freeTcb i, .idle)

/-- Which CPU moves, what it meets, and what it begins if it is idle. -/
structure Turn (n : Nat) where
  cpu : Fin n
  surroundings : Surroundings := {}
  task : Task := .timers

variable {n : Nat}

def smpStep (w : Smp n) (x : Turn n) : Smp n :=
  if w.mod.panicked || w.blocked x.cpu then w
  else
    let r := advance w.mod (w.around x.surroundings) x.task (w.pc x.cpu)
    { mod := r.1, pc := update w.pc x.cpu r.2 }

def locking (n : Nat) : Machine (Smp n) (Turn n) where
  start w := (∃ ticksPerSec, w.mod = Module.init ticksPerSec) ∧ ∀ c, w.pc c = .idle
  step := smpStep

/-! ## 3. Safety -/

/-- `c` waits for a lock that `d` holds. -/
def Smp.waitsFor (w : Smp n) (c d : Fin n) : Prop :=
  ((w.pc c).wantsState = true ∧ (w.pc d).holdsState = true) ∨
    ∃ i, (w.pc c).wantsMutex = some i ∧ (w.pc d).holdsMutex = some i

def Smp.Deadlocked (w : Smp n) : Prop := ∃ c d, c ≠ d ∧ w.waitsFor c d ∧ w.waitsFor d c

/-- No two live TCBs other than listeners have the same addresses and ports. -/
def UniqueConnections (m : Module) : Prop :=
  ∀ i ∈ m.pool, ∀ j ∈ m.pool, i ∉ m.listenTcbs → j ∉ m.listenTcbs →
    (m.tcb i).endpoints = (m.tcb j).endpoints → i = j

structure LocksSafe (w : Smp n) : Prop where
  unique : UniqueConnections w.mod
  free : ¬ w.Deadlocked

/-- **A step that keeps the locks safe.** Nobody goes for a listener's mutex whose holder has yet to
    take the state lock, and no holder comes to need it while somebody waits; and when
    `processListenPacket` has the state lock there is still no connection with these addresses. -/
def KeepsLocks (w : Smp n) (x : Turn n) : Prop :=
  match w.pc x.cpu with
  | .start (.packet p) =>
    w.stateFree = true → ∀ l ∈ (lookUp w.mod p).listener,
      ∀ d, (w.pc d).holdsMutex = some l → (w.pc d).wantsState = false
  | .inListener _ p => w.stateFree = true → w.mod.findTcbIp p.endpoints = none
  | .answering l i p =>
    (answerSyn (w.mod.env x.surroundings i) { tcb := w.mod.tcb i } p).2 = false →
      ∀ d, (w.pc d).wantsMutex ≠ some l
  | _ => True

instance (w : Smp n) (x : Turn n) : Decidable (KeepsLocks w x) := by
  unfold KeepsLocks
  split
  · infer_instance
  · infer_instance
  · infer_instance
  · exact .isTrue trivial

/-! ## 4. What a step of a CPU does -/

variable {m : Module} {w : Smp n} {x : Turn n} (s : Surroundings) (task : Task)

theorem enterTcb_tables (h : TablesOk m) (i : TcbId) (p : Packet) :
    TableStep m (enterTcb m s i p).1 := by
  have hkept := processSynReceivedLocked_endpoints (m.env s i) { tcb := m.tcb i } p
  unfold enterTcb
  split
  · dsimp only
    split
    · have hleave : TablesOk (m.leaveHalfOpen i) :=
        ⟨h.poolNodup, h.hashNodup, h.listenNodup, h.named, h.split, h.apart, h.unique⟩
      have hsettle : TableStep (m.leaveHalfOpen i) ((m.leaveHalfOpen i).settle i (_, false)) :=
        hleave.settle hkept
      exact ⟨hsettle.ok, hsettle.later, hsettle.hash⟩
    · change TableStep m (m.settle i (_, false))
      exact h.settle hkept
  · exact h.stay

/-- **The tables stay in order**, if a SYN is admitted for no connection that exists. -/
theorem advance_tables (h : TablesOk m) {pc : Pc}
    (hnew : ∀ l p, pc = .inListener l p → m.findTcbIp p.endpoints = none) :
    TableStep m (advance m s task pc).1 := by
  unfold advance
  cases pc with
  | idle => exact h.stay
  | start t =>
    cases t with
    | packet p => exact h.stay
    | connect e o => exact h.connectIp s e o
    | listen a port sock append => exact h.listenIp s a port sock append
    | timers => exact h.processTimers s
  | atTcb i p => exact enterTcb_tables s h i p
  | inTcb i p =>
    change TableStep m (m.settle i (_, false))
    exact h.settle (processEstablishedPacket_endpoints _ { tcb := m.tcb i } p)
  | accepting i =>
    change TableStep m (m.settle i (_, false))
    refine h.settle ?_
    unfold handleSynReceivedEstablished
    split <;> rfl
  | counting parent => exact h.countAccept parent
  | freeing i checked =>
    dsimp only
    split
    · exact h.stay
    · exact h.free
  | atListener l p => exact h.stay
  | inListener l p =>
    have hadmit := h.admitSyn s (m.tcb l) (hnew l p rfl)
    dsimp only
    unfold runListener
    split
    · rename_i m' i heq
      rw [heq] at hadmit
      exact hadmit
    · rename_i m' heq
      rw [heq] at hadmit
      exact hadmit
  | answering l i p =>
    change TableStep m (m.settle i (_, false))
    exact h.settle (answerSyn_endpoints _ { tcb := m.tcb i } p)
  | unanswered l i => exact h.free

/-- The hash table is changed under the state lock only. -/
theorem advance_hash {pc : Pc} (hwants : pc.wantsState = false) (hholds : pc.holdsState = false) :
    (advance m s task pc).1.hash = m.hash := by
  cases pc with
  | idle | inTcb | accepting | answering => rfl
  | start | counting | freeing | inListener | unanswered => cases hwants
  | atTcb | atListener => cases hholds

theorem findListening_cases {p : Packet} {pc : Pc} (h : lookUp m p = pc) :
    (pc = .idle) ∨ (∃ i ∈ m.hash, pc = .atTcb i p) ∨ ∃ l ∈ m.listenTcbs, pc = .atListener l p := by
  subst h
  unfold lookUp
  split
  · split
    · rename_i i hi
      split
      · exact .inl rfl
      · exact .inr (.inl ⟨i, findTcbIp_mem hi, rfl⟩)
    split
    · rename_i l hl
      split
      · exact .inl rfl
      · exact .inr (.inr ⟨l, findListeningTcbIp_mem hl, rfl⟩)
    · exact .inl rfl
  · exact .inl rfl

/-- The state lock is held on by a packet that was looked up. -/
theorem advance_holdsState {pc : Pc} (h : (advance m s task pc).2.holdsState = true) :
    ∃ p, pc = .start (.packet p) ∧ (advance m s task pc).2 = lookUp m p := by
  cases pc with
  | start t =>
    cases t with
    | packet p => exact ⟨p, rfl, rfl⟩
    | connect | listen | timers => cases h
  | idle => cases h
  | atTcb i p =>
    change (enterTcb m s i p).2.holdsState = true at h
    unfold enterTcb at h
    dsimp only at h
    split_ifs at h <;> cases h
  | inTcb i p =>
    change (if _ then Pc.freeing i true else .idle).holdsState = true at h
    split_ifs at h <;> cases h
  | accepting i =>
    change (if _ then Pc.freeing i false else if _ then Pc.counting _ else .idle).holdsState = true
      at h
    split_ifs at h <;> cases h
  | counting parent => cases h
  | freeing i checked => cases h
  | atListener l p =>
    change (if _ then Pc.inListener l p else .idle).holdsState = true at h
    split_ifs at h <;> cases h
  | inListener l p =>
    change (runListener m s l p).2.holdsState = true at h
    unfold runListener at h
    split at h <;> cases h
  | answering l i p =>
    change (if _ then Pc.idle else .unanswered l i).holdsState = true at h
    split_ifs at h <;> cases h
  | unanswered l i => cases h

/-- A listener is held on to, or was just found. -/
theorem advance_listener {pc : Pc} {l : TcbId} (h : (advance m s task pc).2.listener = some l) :
    pc.listener = some l ∨ l ∈ m.listenTcbs := by
  cases pc with
  | start t =>
    cases t with
    | packet p =>
      obtain he | ⟨i, -, he⟩ | ⟨l', hl, he⟩ := findListening_cases (m := m) (p := p) rfl
      all_goals
        change (lookUp m p).listener = some l at h
        rw [he] at h
        cases h
      exact .inr hl
    | connect | listen | timers => cases h
  | idle => cases h
  | atTcb i p =>
    change (enterTcb m s i p).2.listener = some l at h
    unfold enterTcb at h
    dsimp only at h
    split_ifs at h <;> cases h
  | inTcb i p =>
    change (if _ then Pc.freeing i true else .idle).listener = some l at h
    split_ifs at h <;> cases h
  | accepting i =>
    change (if _ then Pc.freeing i false else if _ then Pc.counting _
      else .idle).listener = some l at h
    split_ifs at h <;> cases h
  | counting parent => cases h
  | freeing i checked => cases h
  | atListener l' p =>
    change (if _ then Pc.inListener l' p else .idle).listener = some l at h
    split_ifs at h
    · cases h
      exact .inl rfl
    · cases h
  | inListener l' p =>
    change (runListener m s l' p).2.listener = some l at h
    unfold runListener at h
    split at h
    · cases h
      exact .inl rfl
    · cases h
  | answering l' i p =>
    change (if _ then Pc.idle else .unanswered l' i).listener = some l at h
    split_ifs at h
    · cases h
    · cases h
      exact .inl rfl
  | unanswered l i => cases h

/-- A CPU with a mutex goes for the state lock once it has the listener, or where its SYN-ACK did
    not get out. -/
theorem advance_wantsBoth {pc : Pc} {l : TcbId} (hwants : (advance m s task pc).2.wantsState = true)
    (hholds : (advance m s task pc).2.holdsMutex = some l) :
    (∃ p, pc = .atListener l p) ∨
      ∃ i p, pc = .answering l i p ∧ (answerSyn (m.env s i) { tcb := m.tcb i } p).2 = false := by
  cases pc with
  | start t =>
    cases t with
    | packet p =>
      obtain he | ⟨i, -, he⟩ | ⟨l', hl, he⟩ := findListening_cases (m := m) (p := p) rfl
      all_goals
        change (lookUp m p).wantsState = true at hwants
        rw [he] at hwants
        cases hwants
    | connect | listen | timers => cases hwants
  | idle => cases hholds
  | atTcb i p =>
    change (enterTcb m s i p).2.wantsState = true at hwants
    unfold enterTcb at hwants
    dsimp only at hwants
    split_ifs at hwants <;> cases hwants
  | inTcb i p =>
    change (if _ then Pc.freeing i true else .idle).holdsMutex = some l at hholds
    split_ifs at hholds <;> cases hholds
  | accepting i =>
    change (if _ then Pc.freeing i false else if _ then Pc.counting _
      else .idle).holdsMutex = some l at hholds
    split_ifs at hholds <;> cases hholds
  | counting parent => cases hholds
  | freeing i checked => cases hholds
  | atListener l' p =>
    change (if _ then Pc.inListener l' p else .idle).holdsMutex = some l at hholds
    split_ifs at hholds
    · cases hholds
      exact .inl ⟨p, rfl⟩
    · cases hholds
  | inListener l' p =>
    change (runListener m s l' p).2.wantsState = true at hwants
    unfold runListener at hwants
    split at hwants <;> cases hwants
  | answering l' i p =>
    change (if (answerSyn (m.env s i) { tcb := m.tcb i } p).2 = true then Pc.idle
      else .unanswered l' i).holdsMutex = some l at hholds
    split_ifs at hholds with hsent
    · cases hholds
    · cases hholds
      exact .inr ⟨i, p, rfl, Bool.eq_false_of_not_eq_true hsent⟩
  | unanswered l i => cases hholds

/-- A CPU that waits stays where it is. Another one has the lock it asked for, and moves alone. -/
theorem smpStep_cases (w : Smp n) (x : Turn n) :
    smpStep w x = w ∨
      ((w.pc x.cpu).wantsState = true → w.stateFree = true) ∧
        (smpStep w x).mod = (advance w.mod (w.around x.surroundings) x.task (w.pc x.cpu)).1 ∧
        (smpStep w x).pc x.cpu =
          (advance w.mod (w.around x.surroundings) x.task (w.pc x.cpu)).2 ∧
        ∀ c ≠ x.cpu, (smpStep w x).pc c = w.pc c := by
  unfold smpStep
  split_ifs with hblocked
  · exact .inl rfl
  refine .inr ⟨fun hwants => ?_, rfl, update_self ..,
    fun c hc => update_of_ne hc ..⟩
  rw [Bool.or_eq_true, not_or] at hblocked
  refine Bool.of_not_eq_false fun hs => hblocked.2 ?_
  unfold Smp.blocked
  rw [hwants, hs]
  rfl

/-! ## 5. Runs -/

/-- What a run keeps. -/
structure Ordered (w : Smp n) : Prop where
  tables : TablesOk w.mod
  alone : ∀ c d, (w.pc c).holdsState = true → (w.pc d).holdsState = true → c = d
  found : ∀ c i p, w.pc c = .atTcb i p → i ∈ w.mod.hash
  listener : ∀ c l, (w.pc c).listener = some l → l ≤ w.mod.generation ∧ l ∉ w.mod.hash
  calm : ∀ c d l p, (w.pc c).holdsMutex = some l → (w.pc c).wantsState = true →
    w.pc d ≠ .atListener l p

namespace Ordered

theorem safe (h : Ordered w) : LocksSafe w := by
  refine ⟨fun i hi j hj hil hjl he => ?_, ?_⟩
  · exact h.tables.unique i (((h.tables.split i).1 hi).resolve_right hil) j
      (((h.tables.split j).1 hj).resolve_right hjl) he
  -- whoever waits for the state lock with a mutex in hand has a listener
  have hcross : ∀ c d i, (w.pc c).wantsState = true → (w.pc c).holdsMutex = some i →
      (w.pc d).wantsMutex ≠ some i := by
    intro c d i hwants hholds hmutex
    have hlistener : (w.pc c).listener = some i := by
      cases hc : w.pc c with
      | inListener l p => rw [hc] at hholds; exact hholds
      | unanswered l k => rw [hc] at hholds; exact hholds
      | inTcb | answering => rw [hc] at hwants; cases hwants
      | idle | start | atTcb | accepting | counting | freeing | atListener =>
        rw [hc] at hholds; cases hholds
    cases hd : w.pc d with
    | atTcb k p =>
      rw [hd] at hmutex
      cases hmutex
      exact (h.listener c i hlistener).2 (h.found d i p hd)
    | atListener l p =>
      rw [hd] at hmutex
      cases hmutex
      exact h.calm c d i p hholds hwants hd
    | idle | start | inTcb | accepting | counting | freeing | inListener | answering | unanswered =>
      rw [hd] at hmutex
      cases hmutex
  have hboth : ∀ c, (w.pc c).wantsMutex.isSome → (w.pc c).holdsMutex = none ∧
      (w.pc c).wantsState = false := by
    intro c hmutex
    cases hc : w.pc c with
    | atTcb | atListener => exact ⟨rfl, rfl⟩
    | idle | start | inTcb | accepting | counting | freeing | inListener | answering | unanswered =>
      rw [hc] at hmutex
      cases hmutex
  rintro ⟨c, d, -, ⟨hc, hd⟩ | ⟨i, hc, hd⟩, ⟨hd', hc'⟩ | ⟨j, hd', hc'⟩⟩
  · cases hpc : w.pc d with
    | atTcb | atListener => rw [hpc] at hd'; cases hd'
    | idle | start | inTcb | accepting | counting | freeing | inListener | answering | unanswered =>
      rw [hpc] at hd
      cases hd
  · exact hcross c d j hc hc' hd'
  · exact hcross d c i hd' hd hc
  · rw [(hboth c (by rw [hc]; rfl)).1] at hc'
    cases hc'

theorem step (h : Ordered w) (x : Turn n) (hkeep : KeepsLocks w x) : Ordered (smpStep w x) := by
  rcases smpStep_cases w x with hstay | ⟨hfree, hmod, hself, hother⟩
  · rw [hstay]
    exact h
  generalize smpStep w x = w' at hmod hself hother ⊢
  unfold KeepsLocks at hkeep
  generalize hs : w.around x.surroundings = s at hmod hself
  have htables : TableStep w.mod w'.mod := by
    rw [hmod]
    refine advance_tables s x.task h.tables fun l p hpc => ?_
    rw [hpc] at hkeep hfree
    exact hkeep (hfree rfl)
  -- whoever is to hold the state lock has just been given it
  have hgiven : (w'.pc x.cpu).holdsState = true →
      ∃ p, w.pc x.cpu = .start (.packet p) ∧ w'.pc x.cpu = lookUp w.mod p ∧
        ∀ d, (w.pc d).holdsState = false := by
    intro hholds
    rw [hself] at hholds ⊢
    obtain ⟨p, hpc, hlook⟩ := advance_holdsState s x.task hholds
    rw [hpc] at hfree
    exact ⟨p, hpc, hlook, of_decide_eq_true (hfree rfl)⟩
  refine ⟨htables.ok, ?_, ?_, ?_, ?_⟩
  · intro c d hc hd
    by_cases hcx : c = x.cpu
    · subst hcx
      by_cases hdx : d = x.cpu
      · exact hdx.symm
      · obtain ⟨-, -, -, hnone⟩ := hgiven hc
        rw [hother d hdx, hnone d] at hd
        cases hd
    rw [hother c hcx] at hc
    by_cases hdx : d = x.cpu
    · subst hdx
      obtain ⟨-, -, -, hnone⟩ := hgiven hd
      rw [hnone c] at hc
      cases hc
    · rw [hother d hdx] at hd
      exact h.alone c d hc hd
  · intro c i p hc
    have hholds : (w'.pc c).holdsState = true := by
      rw [hc]
      rfl
    by_cases hcx : c = x.cpu
    · subst hcx
      obtain ⟨p', hpc, hlook, -⟩ := hgiven hholds
      rw [hmod, hpc]
      obtain he | ⟨j, hj, he⟩ | ⟨l, -, he⟩ := findListening_cases hlook.symm
      all_goals
        rw [hc] at he
        cases he
      exact hj
    rw [hother c hcx] at hc hholds
    have hwants : (w.pc x.cpu).wantsState = false := by
      refine Bool.eq_false_of_not_eq_true fun hw => ?_
      have hnone := of_decide_eq_true (hfree hw) c
      rw [hholds] at hnone
      cases hnone
    have hstands : (w.pc x.cpu).holdsState = false :=
      Bool.eq_false_of_not_eq_true fun hh => hcx (h.alone c x.cpu hholds hh)
    rw [hmod, advance_hash s x.task hwants hstands]
    exact h.found c i p hc
  · intro c l hc
    have hold : l ≤ w.mod.generation ∧ l ∉ w.mod.hash := by
      by_cases hcx : c = x.cpu
      · subst hcx
        rw [hself] at hc
        rcases advance_listener s x.task hc with hold | hnew
        · exact h.listener _ l hold
        · exact ⟨h.tables.named l ((h.tables.split l).2 (.inr hnew)),
            fun hl => h.tables.apart l hl hnew⟩
      · rw [hother c hcx] at hc
        exact h.listener c l hc
    -- a listener is no new name, so it is not what enters the hash table
    refine ⟨hold.1.trans htables.later, fun hl => ?_⟩
    rcases htables.hash l hl with hl | hnew
    · exact hold.2 hl
    · exact absurd hold.1 (Nat.not_le.2 hnew)
  · intro c d l p hmutex hwants hd
    by_cases hcx : c = x.cpu
    · subst hcx
      by_cases hdx : d = x.cpu
      · subst hdx
        rw [hd] at hmutex
        cases hmutex
      rw [hself] at hmutex hwants
      rw [hother d hdx] at hd
      rcases advance_wantsBoth s x.task hwants hmutex with ⟨p', hpc⟩ | ⟨i, p', hpc, hfailed⟩
      · exact hdx (h.alone d x.cpu (by rw [hd]; rfl) (by rw [hpc]; rfl))
      · rw [hpc] at hkeep
        subst hs
        exact hkeep hfailed d (by rw [hd]; rfl)
    rw [hother c hcx] at hmutex hwants
    by_cases hdx : d = x.cpu
    · subst hdx
      obtain ⟨p', hpc, hlook, -⟩ := hgiven (by rw [hd]; rfl)
      rw [hpc] at hkeep hfree
      have hfound : (lookUp w.mod p').listener = some l := by
        rw [← hlook, hd]
        rfl
      rw [hkeep (hfree rfl) l hfound c hmutex] at hwants
      cases hwants
    · rw [hother d hdx] at hd
      exact h.calm c d l p hmutex hwants hd

theorem start (hw : (locking n).start w) : Ordered w := by
  obtain ⟨⟨ticksPerSec, hm⟩, hidle⟩ := hw
  refine ⟨?_, fun c d hc => ?_, fun c i p hc => ?_, fun c l hc => ?_, fun c d l p hc => ?_⟩
  · rw [hm]
    exact ⟨nodup_nil, nodup_nil, nodup_nil, fun i hi => absurd hi not_mem_nil,
      fun i => by simp [Module.init], fun i hi => absurd hi not_mem_nil,
      fun i hi => absurd hi not_mem_nil⟩
  all_goals
    rw [hidle] at hc
    cases hc

end Ordered

/-- **In a run of such steps no connection exists twice, and no two CPUs wait for each other.** -/
theorem locksSafe (h : (locking n).Reach KeepsLocks w) : LocksSafe w :=
  (h.invariant (I := Ordered) (fun _ => Ordered.start) fun _ x _ hw hk => hw.step x hk).safe

/-! ## 6. Two CPUs -/

/-- A client's SYN for port 80. -/
def clientSyn : Packet where
  ip := .v4 5 0 40 2 1
  tcp :=
    { srcPort := 5
      dstPort := 80
      seqNum := 0
      ackNum := 0
      dataOffset := 5
      flags := { syn := true }
      window := 1000 }
  rest := []

def twoCpus : Smp 2 := { mod := Module.init 100, pc := fun _ => .idle }

/-- A listener on port 80, and CPU 0 with the SYN of the client in `processListenPacket`. -/
def synArrives : List (Turn 2) :=
  let cpu : Fin 2 := ⟨0, Nat.two_pos⟩
  [{ cpu, task := .listen (.v4 1) 80 0 true }, { cpu }, { cpu, task := .packet clientSyn }, { cpu },
    { cpu }]

/-- CPU 0 is done before CPU 1 has the SYN again. -/
theorem locksSafe_synTwice : LocksSafe ((locking 2).exec twoCpus (synArrives ++
    [{ cpu := 0 }, { cpu := 0 }, { cpu := 1, task := .packet clientSyn }, { cpu := 1 },
      { cpu := 1 }])) := by
  have hstart : (locking 2).start twoCpus := ⟨⟨100, rfl⟩, fun _ => rfl⟩
  exact locksSafe ((Machine.Reach.start hstart).exec (by decide +kernel))

/-- If CPU 1 has the SYN too soon, both wait for ever; if CPU 1 connects to the client meanwhile,
    the connection exists twice. -/
theorem locksSafe_refuted :
    (∃ w : Smp 2, (locking 2).Reachable w ∧ w.Deadlocked) ∧
      ∃ w : Smp 2, (locking 2).Reachable w ∧ ¬ UniqueConnections w.mod := by
  have hstart : (locking 2).Reachable twoCpus := .start ⟨⟨100, rfl⟩, fun _ => rfl⟩
  refine ⟨⟨_, hstart.exec (synArrives ++
      [{ cpu := 1, task := .packet clientSyn }, { cpu := 1 }]), 0, 1, by decide, ?_, ?_⟩,
    ⟨_, hstart.exec (synArrives ++
      [{ cpu := 1, task := .connect clientSyn.endpoints ⟨0, false, 0, 0⟩ }, { cpu := 1 },
        { cpu := 0 }]), ?_⟩⟩
  · exact .inl (by decide +kernel)
  · exact .inr ⟨1, by decide +kernel⟩
  intro h
  have hsame := h 2 (by decide +kernel) 3 (by decide +kernel) (by decide +kernel)
    (by decide +kernel) (by decide +kernel)
  exact absurd hsame (by decide)

end Zigk.Tcp
