/-
  Subject:   THE BOOKS OF THE HALF-OPEN CONNECTIONS over whole runs of the TCP module.

  * `KeepsHalfOpen` -- where a step keeps them: no TCB in SynReceived is given up by a timer, by an
    ICMP error, by `close` or `shutdown`. All four write the new state first, so that `freeTcb` does
    not see a half-open TCB any more, or do not touch the list at all;
  * **`halfOpenBooks`** -- in a run of such steps the books are right in every state.
-/
import Zigk.Tcp.Module
import Zigk.Tcp.Handshake

namespace Zigk.Tcp

open Function List Bool Zigk.Tcp.Module

/-! ## 1. The books -/

/-- `l` is what the half-open list holds, and the counter counts it. -/
structure HalfOpenReads (m : Module) (l : List TcbId) : Prop where
  linked : m.halfOpen.Linked l
  exact : ∀ i, i ∈ l ↔ i ∈ m.pool ∧ (m.tcb i).state = .SynReceived
  count : m.halfOpenCount = l.length

/-- **The books are right**, and from the head only live TCBs are reached. -/
structure HalfOpenBooks (m : Module) : Prop where
  reads : ∃ l, HalfOpenReads m l
  live : ∀ i, m.halfOpen.Reaches i → i ∈ m.pool

/-- The timers give the TCB up in this tick. -/
def timersGiveUp (env : Env) (t : Tcb) : Bool := expires env t || exhausted env t

/-- **A step that keeps the books.** -/
def KeepsHalfOpen (m : Module) (x : Surroundings × ModuleEvent) : Prop :=
  match x.2 with
  | .tick =>
    ∀ i ∈ m.pool, (m.tcb i).state = .SynReceived → x.1.busy i = false →
      timersGiveUp { x.1.env i with now := m.now + m.msPerTick, msPerTick := m.msPerTick }
        (m.tcb i) = false
  | .icmp e icmpType seqNum =>
    ∀ i, m.findTcbIp e = some i → (m.tcb i).state = .SynReceived →
      icmpAborts (m.tcb i) icmpType seqNum = false
  | .call i e =>
    i ∈ m.pool → (m.tcb i).state = .SynReceived →
      e ≠ .close ∧ (e = .shutdown → (m.tcb i).closing = true)
  | _ => True

/-! ## 2. What the handlers do with the state SynReceived -/

theorem wakeBlocked_state (c : Ctx) : c.wakeBlocked.tcb.state = c.tcb.state :=
  congrArg Core.state (wakeBlocked_core c)

/-- Only the three ways to give a TCB up free it, and all close it first. -/
theorem processEstablishedPacket_freed (env : Env) (c : Ctx) (p : Packet) :
    (processEstablishedPacket env c p).2 = .FreeTcb →
      (processEstablishedPacket env c p).1.tcb.state = .Closed := by
  have hrst : ∀ c : Ctx, (handleRst c).1.tcb.state = .Closed := fun c =>
    congrArg Core.state (handleRst_core c)
  unfold processEstablishedPacket
  simp only
  split
  · split
    · exact fun _ => hrst c
    unfold processSynSent
    split
    · exact nofun
    split
    · intro _
      refine (wakeBlocked_state _).trans ?_
      exact congrArg Tcb.state (completePendingConnect_tcb _ false)
    · exact nofun
  split
  · exact nofun
  split
  · exact nofun
  split
  · split
    · exact fun _ => hrst _
    · exact nofun
  unfold dispatch
  split <;> try (intro h; cases h)
  unfold processLastAck
  split
  · exact fun _ => rfl
  · exact nofun

/-- A TCB outside SynReceived does not get there by a packet. -/
theorem processEstablishedPacket_state (env : Env) {t : Tcb} {p : Packet} (hv : p.valid = true)
    (hc : t.closing = false) (hs : t.state ≠ .SynReceived) :
    (processEstablishedPacket env { tcb := t } p).1.tcb.state ≠ .SynReceived := by
  have heq : Tcp.processPacket env { tcb := t } p = processEstablishedPacket env { tcb := t } p := by
    rw [Tcp.processPacket, if_pos hv, processSegment, if_neg (by rw [hc]; decide), if_neg hs]
  cases hf : (processEstablishedPacket env { tcb := t } p).2 with
  | FreeTcb =>
    rw [processEstablishedPacket_freed env _ p hf]
    decide
  | Continue =>
    intro hst
    have hkept : (handle env t (.packet p)).2 = false := by
      simp only [handle, heq, hf]
      rfl
    have hstate : (handle env t (.packet p)).1.tcb.state = .SynReceived := by
      simp only [handle, heq]
      exact hst
    exact hs (handle_synReceived hkept hstate)

theorem transmitPendingData_state (env : Env) (c : Ctx) :
    (transmitPendingData env c).tcb.state = c.tcb.state := by
  obtain ⟨n, hn⟩ := transmitPendingData_core env c
  exact congrArg Core.state hn

theorem retransmitOnTimeout_state (env : Env) (c : Ctx) :
    (retransmitOnTimeout env c).tcb.state = c.tcb.state := by
  rcases retransmitOnTimeout_cases env c with ⟨hcore, -⟩ | ⟨-, -, h⟩ | ⟨-, h, -⟩
  · exact congrArg Core.state hcore
  · rw [h]
    exact transmitPendingData_state env _
  · rw [h]

/-- The timers close the TCB or leave its state alone. -/
theorem processTcbTimers_state (env : Env) (t : Tcb) :
    (processTcbTimers env { tcb := t }).1.tcb.state =
      if timersGiveUp env t then .Closed else t.state := by
  have hgive : ∀ c : Ctx, (giveUp c).tcb.state = .Closed := fun c => wakeBlocked_state _
  obtain ⟨hout, hex, -⟩ := persistStep_timer env { tcb := t }
  have hstate : (persistStep env (delayedAck env { tcb := t })).tcb.state = t.state :=
    congrArg Core.state ((persistStep_core env _).trans (delayedAck_core env _))
  unfold processTcbTimers timersGiveUp
  cases he : expires env t with
  | true => exact hgive _
  | false =>
    simp only [false_eq_true, if_false, Bool.false_or]
    unfold retransStep
    split
    · rename_i h0
      have hno : exhausted env t = false := by
        rw [← hex, exhausted, timesOut, h0]
        rfl
      rw [hno]
      exact hstate
    split
    · rw [hex]
      split
      · exact hgive _
      · exact (retransmitOnTimeout_state env _).trans hstate
    rename_i hno
    have hno : exhausted env t = false := by
      rw [exhausted, ← hout, eq_false_iff.mpr hno]
      rfl
    rw [hno]
    exact hstate

/-- A call of the socket layer other than `close` and `shutdown` leaves a half-open TCB half-open. -/
theorem handle_call_state (env : Env) {t : Tcb} {e : Event} (hs : t.state = .SynReceived)
    (hcall : e.isCall = true) (hclose : e ≠ .close) (hshut : e = .shutdown → t.closing = true) :
    (handle env t e).1.tcb.state = .SynReceived := by
  cases e with
  | packet | tick | icmp => cases hcall
  | close => exact absurd rfl hclose
  | send data =>
    rcases send_cases env { tcb := t } data with ⟨h, -⟩ | ⟨-, -, -, -, he, -⟩
    · simp only [handle, h]
      exact hs
    · rw [hs] at he
      rcases he with he | he <;> cases he
  | recv bufLen =>
    simp only [handle]
    unfold recv
    split
    · exact hs
    simp only
    split
    · exact (congrArg Core.state (windowUpdate_core env _ _)).trans hs
    · exact hs
  | shutdown =>
    simp only [handle]
    rw [sendFinPacket, if_pos (hshut rfl)]
    exact hs
  | setsockopt o =>
    rcases setsockopt_cases env { tcb := t } o with ⟨h, -⟩ | ⟨-, h⟩
    · exact (congrArg Core.state h).trans hs
    · simp only [handle, h]
      exact (transmitPendingData_state env _).trans hs
  | block thread => exact hs

/-! ## 3. What the tables keep -/

/-- The books, and what the tables need to keep them. -/
structure HalfOpenInv (m : Module) : Prop where
  poolNodup : m.pool.Nodup
  hashNodup : m.hash.Nodup
  named : ∀ i ∈ m.pool, i ≤ m.generation
  hashLive : ∀ i ∈ m.hash, i ∈ m.pool
  reads : ∃ l, HalfOpenReads m l

section Tables

variable {m : Module} {i : TcbId} {t : Tcb} {r : Ctx × Bool} (h : HalfOpenInv m)

include h

theorem HalfOpenInv.books : HalfOpenBooks m := by
  obtain ⟨l, hl⟩ := h.reads
  exact ⟨h.reads, fun i hi => ((hl.exact i).mp (Links.linked_reaches hl.linked hi)).1⟩

/-- The state SynReceived is neither entered nor left. -/
theorem HalfOpenInv.put (hs : t.state = .SynReceived ↔ (m.tcb i).state = .SynReceived) :
    HalfOpenInv (m.put i t) := by
  obtain ⟨l, hl⟩ := h.reads
  refine ⟨h.poolNodup, h.hashNodup, h.named, h.hashLive, l, hl.linked, fun j => ?_, hl.count⟩
  rw [hl.exact j]
  by_cases hj : j = i
  · subst hj
    simp only [Module.put, update_self, hs]
  · simp only [Module.put, update_of_ne hj]

/-- A half-open TCB leaves the list and the state together. -/
theorem HalfOpenInv.leave (hi : i ∈ m.pool) (hs : (m.tcb i).state = .SynReceived)
    (ht : t.state ≠ .SynReceived) : HalfOpenInv ((m.leaveHalfOpen i).put i t) := by
  obtain ⟨l, hl⟩ := h.reads
  have hmem : i ∈ l := (hl.exact i).mpr ⟨hi, hs⟩
  have hnd := hl.linked.nodup
  refine ⟨h.poolNodup, h.hashNodup, h.named, h.hashLive, l.erase i,
    Links.linked_remove hl.linked hmem, fun j => ?_, ?_⟩
  · rw [hnd.mem_erase_iff, hl.exact j]
    by_cases hj : j = i
    · subst hj
      simp [Module.put, ht]
    · simp [Module.put, Module.leaveHalfOpen, hj]
  · rw [length_erase_of_mem hmem]
    exact congrArg (· - 1) hl.count

/-- `freeTcb` takes the TCB out of the pool, and out of the list where it still looks half-open. -/
theorem HalfOpenInv.free (hi : i ∈ m.pool) : HalfOpenInv (m.freeTcb i) := by
  have hout : ∀ m' : Module, HalfOpenInv m' → (m'.tcb i).state ≠ .SynReceived →
      HalfOpenInv { m'.put i Tcb.init with
        hash := m'.hash.erase i
        listenTcbs := Module.removeFrom m'.listenTcbs i
        pool := Module.removeFrom m'.pool i
        halfOpen := (m'.halfOpen.setNext i none).setPrev i none } := by
    intro m' h' hs'
    obtain ⟨l, hl⟩ := h'.reads
    have hnot : i ∉ l := fun hmem => hs' ((hl.exact i).mp hmem).2
    refine ⟨nodup_removeFrom h'.poolNodup, h'.hashNodup.erase i, fun j hj => ?_, fun j hj => ?_, l,
      ?_, fun j => ?_, hl.count⟩
    · exact h'.named j ((mem_removeFrom h'.poolNodup).mp hj).1
    · obtain ⟨hne, hj⟩ := (h'.hashNodup.mem_erase_iff).mp hj
      exact (mem_removeFrom h'.poolNodup).mpr ⟨h'.hashLive j hj, hne⟩
    · have hne : ∀ j ∈ l, j ≠ i := fun j hj e => hnot (e ▸ hj)
      exact Links.linked_congr hl.linked rfl rfl (fun j hj => update_of_ne (hne j hj) _ _)
        fun j hj => update_of_ne (hne j hj) _ _
    · rw [mem_removeFrom h'.poolNodup, hl.exact j]
      by_cases hj : j = i
      · subst hj
        simp [hs']
      · simp [Module.put, hj]
  unfold Module.freeTcb
  split
  · rename_i hs
    have hgone := h.leave (t := Tcb.init) hi hs (by decide)
    have hend := hout _ hgone (by simp [Module.put, Tcb.init])
    simp only [Module.put, update_idem] at hend ⊢
    exact hend
  · rename_i hs
    exact hout m h hs

omit h in
theorem settle_of_put (hi : i ∈ m.pool) (h : HalfOpenInv (m.put i r.1.tcb)) :
    HalfOpenInv (m.settle i r) := by
  obtain ⟨h1, h2, h3, h4, l, hl⟩ := h
  have hput : HalfOpenInv { m.put i r.1.tcb with panicked := m.panicked || r.1.panicked } :=
    ⟨h1, h2, h3, h4, l, hl.linked, hl.exact, hl.count⟩
  unfold settle
  simp only
  split
  · exact hput.free hi
  · exact hput

/-- A handler that is done with a TCB. -/
theorem HalfOpenInv.settle (hi : i ∈ m.pool)
    (hs : r.1.tcb.state = .SynReceived ↔ (m.tcb i).state = .SynReceived) :
    HalfOpenInv (m.settle i r) := settle_of_put hi (h.put hs)

/-- Eviction frees the oldest half-open TCB. -/
theorem HalfOpenInv.evict (busy : TcbId → Bool) :
    HalfOpenInv (m.evictOldestHalfOpenTcbUnlocked busy).1 := by
  obtain ⟨l, hl⟩ := h.reads
  unfold evictOldestHalfOpenTcbUnlocked
  split
  · exact h
  rename_i i hhead
  obtain ⟨hi, hs⟩ := (hl.exact i).mp (mem_of_head? (hl.linked.head.symm.trans hhead))
  rw [if_neg (not_not.mpr hs)]
  split
  · exact h
  · exact (h.put (t := { m.tcb i with closing := true }) .rfl).free hi

/-- A new TCB has a new name and is not half-open. -/
theorem HalfOpenInv.allocate {create : Bool} {e : Endpoints} {m' : Module}
    (ha : m.allocateTcb create e = some (i, m')) :
    HalfOpenInv m' ∧ i ∈ m'.pool ∧ i ∉ m'.hash ∧ (m'.tcb i).state = .Closed := by
  unfold Module.allocateTcb at ha
  split at ha
  · cases ha
  split at ha
  · simp only [Option.some.injEq, Prod.mk.injEq] at ha
    obtain ⟨rfl, rfl⟩ := ha
    have hnew : m.generation + 1 ∉ m.pool := fun hm => Nat.not_succ_le_self _ (h.named _ hm)
    obtain ⟨l, hl⟩ := h.reads
    refine ⟨⟨?_, h.hashNodup, fun j hj => ?_, fun j hj => ?_, l, hl.linked, fun j => ?_, hl.count⟩,
      by simp, fun hm => hnew (h.hashLive _ hm), by simp [Module.put, newTcb, Tcb.init]⟩
    · exact nodup_append.mpr ⟨h.poolNodup, nodup_singleton _, fun a ha b hb e =>
        hnew (by rw [mem_singleton] at hb; rwa [← hb, ← e])⟩
    · rcases mem_append.mp hj with hj | hj
      · exact (h.named j hj).trans (Nat.le_succ _)
      · rw [mem_singleton.mp hj]
    · exact mem_append_left _ (h.hashLive j hj)
    · rw [hl.exact j, mem_append, mem_singleton]
      by_cases hj : j = m.generation + 1
      · subst hj
        simp [Module.put, hnew, newTcb, Tcb.init]
      · simp [Module.put, hj]
  · cases ha

/-- A TCB enters the list and the state together, and the hash table. -/
theorem HalfOpenInv.enter (hi : i ∈ m.pool) (hhash : i ∉ m.hash)
    (hs : (m.tcb i).state ≠ .SynReceived) (ht : t.state = .SynReceived) :
    HalfOpenInv (Module.insertTcbIntoHash { m.put i t with
      halfOpenCount := m.halfOpenCount + 1
      halfOpen := m.halfOpen.insertTail i } i) := by
  obtain ⟨l, hl⟩ := h.reads
  have hnot : i ∉ l := fun hmem => hs ((hl.exact i).mp hmem).2
  refine ⟨h.poolNodup, nodup_cons.mpr ⟨hhash, h.hashNodup⟩, h.named,
    forall_mem_cons.mpr ⟨hi, h.hashLive⟩, l ++ [i], Links.linked_insertTail hl.linked hnot,
    fun j => ?_, ?_⟩
  · rw [mem_append, mem_singleton, hl.exact j]
    by_cases hj : j = i
    · subst hj
      simp [Module.insertTcbIntoHash, Module.put, hi, ht]
    · simp [Module.insertTcbIntoHash, Module.put, hj]
  · rw [length_append, length_singleton]
    exact congrArg (· + 1) hl.count

theorem HalfOpenInv.insert (hi : i ∈ m.pool) (hhash : i ∉ m.hash) :
    HalfOpenInv (m.insertTcbIntoHash i) := by
  obtain ⟨l, hl⟩ := h.reads
  exact ⟨h.poolNodup, nodup_cons.mpr ⟨hhash, h.hashNodup⟩, h.named,
    forall_mem_cons.mpr ⟨hi, h.hashLive⟩, l, hl.linked, hl.exact, hl.count⟩

/-- What is found in the hash table is live. -/
theorem HalfOpenInv.found {e : Endpoints} (hf : m.findTcbIp e = some i) : i ∈ m.pool :=
  h.hashLive i (mem_of_find?_eq_some hf)

end Tables

/-! ## 4. The entry points -/

section Entries

variable {m : Module} (s : Surroundings) (h : HalfOpenInv m)

include h

theorem HalfOpenInv.admit (listener : Tcb) (p : Packet) : HalfOpenInv (m.admitSyn s listener p).1 ∧
      ∀ i, (m.admitSyn s listener p).2 = some i → i ∈ (m.admitSyn s listener p).1.pool := by
  have hroom : HalfOpenInv (m.makeRoom s.busy).1 := by
    unfold makeRoom
    split
    · exact h.evict s.busy
    · exact h
  unfold admitSyn
  simp only
  split
  · split
    · exact ⟨hroom, nofun⟩
    rename_i i m' ha
    obtain ⟨h', hi, hhash, hst⟩ := hroom.allocate ha
    have henter := h'.enter (t := passiveTcb (m'.tcb i) listener p s.iss) hi hhash
      (by rw [hst]; decide) rfl
    refine ⟨henter, fun j hj => ?_⟩
    cases hj
    exact hi
  · exact ⟨hroom, nofun⟩

theorem HalfOpenInv.answer {i : TcbId} (hi : i ∈ m.pool) (p : Packet) :
    HalfOpenInv (m.answer s i p) := by
  obtain ⟨k, hk⟩ := answerSyn_core (m.env s i) { tcb := m.tcb i } p
  refine h.settle hi ?_
  rw [show (answerSyn (m.env s i) { tcb := m.tcb i } p).1.tcb.state = (m.tcb i).state from
    congrArg Core.state hk]

theorem HalfOpenInv.listenPacket (l : TcbId) (p : Packet) :
    HalfOpenInv (m.processListenPacket s l p) := by
  obtain ⟨hadm, hpool⟩ := h.admit s (m.tcb l) p
  unfold processListenPacket
  split
  · split
    · rename_i m' he
      rw [he] at hadm
      exact hadm
    · rename_i m' i he
      rw [he] at hadm hpool
      exact hadm.answer s (hpool i rfl) p
  · exact h

theorem HalfOpenInv.countAccept (parent : Option Nat) : HalfOpenInv (m.countAccept parent) := by
  unfold Module.countAccept
  split
  · exact h.put .rfl
  · exact h

omit h in
/-- The connection that left the list is kept or reset. -/
theorem acceptOrReset_inv {i : TcbId} (hi : i ∈ m.pool) {c : Ctx} (h : HalfOpenInv (m.put i c.tcb)) :
    HalfOpenInv (m.acceptOrReset s i c) := by
  have htcb : (handleSynReceivedEstablished (m.env s i) c).1.tcb = c.tcb := by
    unfold handleSynReceivedEstablished
    split <;> rfl
  have hset : HalfOpenInv (m.settle i ((handleSynReceivedEstablished (m.env s i) c).1,
      decide ((handleSynReceivedEstablished (m.env s i) c).2 = .FreeTcb))) := by
    refine settle_of_put hi ?_
    rw [htcb]
    exact h
  unfold acceptOrReset
  simp only
  split
  · exact hset.countAccept c.tcb.parentSocket
  · exact hset

/-- A segment for a live TCB. -/
theorem HalfOpenInv.receiveFor {i : TcbId} (hi : i ∈ m.pool) {p : Packet} (hv : p.valid = true) :
    HalfOpenInv (m.receiveFor s i p) := by
  unfold Module.receiveFor
  simp only
  cases hc : (m.tcb i).closing with
  | true => exact h
  | false =>
  simp only [false_eq_true, if_false]
  split
  · rename_i hs
    have hstay : ∀ c : Ctx, c.tcb = m.tcb i → HalfOpenInv (m.settle i (c, false)) := by
      intro c hc
      refine h.settle hi ?_
      rw [hc]
    unfold processSynReceivedLocked
    split
    · exact hstay _ rfl
    split
    · exact hstay _ rfl
    · simp only [if_true]
      refine acceptOrReset_inv (m := m.leaveHalfOpen i) s hi ?_
      exact h.leave hi hs nofun
  · rename_i hs
    refine h.settle hi ⟨fun hst => ?_, fun hst => absurd hst hs⟩
    exact absurd hst (processEstablishedPacket_state (m.env s i) hv hc hs)

theorem HalfOpenInv.packet (p : Packet) : HalfOpenInv (m.processPacket s p) := by
  unfold Module.processPacket
  split
  · rename_i hv
    split
    · rename_i i hf
      exact h.receiveFor s (h.found hf) hv
    split
    · split
      · exact h
      · exact h.listenPacket s _ p
    · exact h
  · exact h

theorem HalfOpenInv.connect (e : Endpoints) (o : SocketSettings) :
    HalfOpenInv (m.connectIp s e o) := by
  unfold connectIp
  split
  · exact h
  split
  · exact h
  rename_i i m' ha
  obtain ⟨h', hi, hhash, hst⟩ := h.allocate ha
  have hput := h'.put (t := activeTcb (m'.tcb i) s.iss) (i := i)
    ⟨nofun, fun hs => by rw [hst] at hs; cases hs⟩
  have hin := hput.insert hi hhash
  simp only
  refine hin.settle hi ?_
  have hcore := sendFirstSyn_core (((m'.put i (activeTcb (m'.tcb i) s.iss)).insertTcbIntoHash i).env s i)
    { tcb := ((m'.put i (activeTcb (m'.tcb i) s.iss)).insertTcbIntoHash i).tcb i }
  rw [← show _ = (((m'.put i (activeTcb (m'.tcb i) s.iss)).insertTcbIntoHash i).tcb i).state from
    congrArg Core.state hcore]
  split <;> exact .rfl

theorem HalfOpenInv.listen (a : IpAddr) (port : BitVec 16) (sock : Nat) (append : Bool) :
    HalfOpenInv (m.listenIp s a port sock append) := by
  unfold listenIp
  split
  · exact h
  rename_i i m' ha
  obtain ⟨h', hi, -, hst⟩ := h.allocate ha
  have hput := h'.put (i := i) (t := { m'.tcb i with state := .Listen, parentSocket := some sock })
    ⟨nofun, fun hs => by rw [hst] at hs; cases hs⟩
  simp only
  split
  · obtain ⟨h1, h2, h3, h4, l, hl⟩ := hput
    exact ⟨h1, h2, h3, h4, l, hl.linked, hl.exact, hl.count⟩
  · exact hput.free hi

end Entries

/-! ## 5. The timers -/

section Timers

variable {m : Module} (s : Surroundings)

/-- No half-open TCB below place `n` of the pool is given up. -/
def SparesHalfOpen (m : Module) (n : Nat) : Prop :=
  ∀ k < n, ∀ i, m.pool[k]? = some i → (m.tcb i).state = .SynReceived → s.busy i = false →
    timersGiveUp (m.env s i) (m.tcb i) = false

/-- What is done to the TCB at place `n` does not concern the places below. -/
theorem timersAt_below (hnd : m.pool.Nodup) {n k : Nat} (hk : k < n) :
    (m.timersAt s n).pool[k]? = m.pool[k]? ∧
      ∀ i, m.pool[k]? = some i → (m.timersAt s n).tcb i = m.tcb i ∧
        (m.timersAt s n).env s i = m.env s i := by
  unfold timersAt
  split
  · exact ⟨rfl, fun _ _ => ⟨rfl, rfl⟩⟩
  rename_i j hj
  have hne : ∀ i, m.pool[k]? = some i → i ≠ j := by
    rintro i hi rfl
    obtain ⟨h1, e1⟩ := List.getElem?_eq_some_iff.mp hi
    obtain ⟨h2, e2⟩ := List.getElem?_eq_some_iff.mp hj
    have := hnd.getElem_inj_iff.mp (e1.trans e2.symm)
    omega
  split
  · exact ⟨rfl, fun _ _ => ⟨rfl, rfl⟩⟩
  generalize processTcbTimers (m.env s j) { tcb := m.tcb j } = r
  obtain ⟨c, freed⟩ := r
  cases freed with
  | false =>
    rw [settle_kept]
    exact ⟨rfl, fun i hi => ⟨update_of_ne (hne i hi) _ _, rfl⟩⟩
  | true =>
    rw [settle_freed, freeTcb_pool, freeTcb_tcb]
    refine ⟨getElem?_removeFrom hnd hj hk, fun i hi => ⟨?_, freeTcb_env _ _ _ _⟩⟩
    rw [update_of_ne (hne i hi)]
    exact update_of_ne (hne i hi) _ _

theorem HalfOpenInv.timersAt (h : HalfOpenInv m) {n : Nat} (hs : SparesHalfOpen s m (n + 1)) :
    HalfOpenInv (m.timersAt s n) := by
  unfold Module.timersAt
  split
  · exact h
  rename_i i hi
  split
  · exact h
  rename_i hb
  refine h.settle (mem_of_getElem? hi) ?_
  rw [processTcbTimers_state]
  by_cases hst : (m.tcb i).state = .SynReceived
  · rw [hs n (Nat.lt_succ_self n) i hi hst (eq_false_iff.mpr hb)]
    exact .rfl
  refine ⟨fun hst' => ?_, fun hst' => absurd hst' hst⟩
  split at hst'
  · cases hst'
  · exact absurd hst' hst

/-- **The loop over the pool keeps the books** where it gives no half-open TCB up. -/
theorem HalfOpenInv.timersBelow (h : HalfOpenInv m) {n : Nat} (hs : SparesHalfOpen s m n) :
    HalfOpenInv (m.timersBelow s n) := by
  induction n generalizing m with
  | zero => exact h
  | succ n ih =>
    refine ih (h.timersAt s hs) fun k hk i hi hst hb => ?_
    obtain ⟨hpool, htcb⟩ := timersAt_below s h.poolNodup hk
    rw [hpool] at hi
    obtain ⟨ht, he⟩ := htcb i hi
    rw [ht] at hst ⊢
    rw [he]
    exact hs k (by omega) i hi hst hb

end Timers

/-! ## 6. The books over whole runs -/

theorem halfOpenInv_start {m : Module} (h : tcpModule.start m) : HalfOpenInv m := by
  obtain ⟨ticksPerSec, rfl⟩ := h
  exact ⟨.nil, .nil, nofun, nofun, [], Links.linked_empty, fun i => ⟨nofun, fun h => nomatch h.1⟩, rfl⟩

theorem halfOpenInv_step {m : Module} {x : Surroundings × ModuleEvent} (h : HalfOpenInv m)
    (hk : KeepsHalfOpen m x) : HalfOpenInv (moduleStep m x) := by
  obtain ⟨s, e⟩ := x
  unfold moduleStep
  split
  · exact h
  cases e with
  | segment p => exact h.packet s p
  | tick =>
    have hclock : HalfOpenInv { m with now := m.now + m.msPerTick } := by
      obtain ⟨h1, h2, h3, h4, l, hl⟩ := h
      exact ⟨h1, h2, h3, h4, l, hl.linked, hl.exact, hl.count⟩
    exact hclock.timersBelow s fun k _ i hi => hk i (mem_of_getElem? hi)
  | icmp e icmpType seqNum =>
    show HalfOpenInv (m.handleIcmpErrorIp e icmpType seqNum)
    unfold handleIcmpErrorIp
    split
    · exact h
    rename_i i hf
    refine h.settle (h.found hf) ?_
    unfold handleIcmpError
    split
    · rename_i ha
      have hclosed : (Ctx.upd { tcb := m.tcb i } fun t =>
          { t with state := .Closed }).wakeBlocked.tcb.state = .Closed := wakeBlocked_state _
      refine ⟨fun hst => ?_, fun hst => ?_⟩
      · exact absurd (hclosed.symm.trans hst) (by decide)
      · rw [hk i hf hst] at ha
        cases ha
    · exact .rfl
  | connect e o => exact h.connect s e o
  | listen a port sock append => exact h.listen s a port sock append
  | call i e =>
    show HalfOpenInv (m.call s i e)
    unfold call
    split
    · rename_i hc
      simp only [and_eq_true, decide_eq_true_eq] at hc
      obtain ⟨hcall, hi⟩ := hc
      refine h.settle hi ⟨fun hst => ?_, fun hst => ?_⟩
      · by_contra hs
        cases hf : (handle (m.env s i) (m.tcb i) e).2 with
        | false => exact hs (handle_synReceived hf hst)
        | true =>
          cases e with
          | close => cases hst
          | packet | tick | icmp => cases hcall
          | send | recv | shutdown | setsockopt | block => cases hf
      · obtain ⟨hclose, hshut⟩ := hk hi hst
        exact handle_call_state (m.env s i) hst hcall hclose hshut
    · exact h

/-- **In a run whose steps keep the books, the half-open list is exact in every state.** -/
theorem halfOpenBooks {m : Module} (h : tcpModule.Reach KeepsHalfOpen m) : HalfOpenBooks m :=
  HalfOpenInv.books
    (h.invariant (I := HalfOpenInv) (fun _ => halfOpenInv_start) fun _ _ _ hm hk => halfOpenInv_step hm hk)

theorem tcpModule_start : tcpModule.start (init 1000) := ⟨1000, rfl⟩

/-- A socket listens and a SYN arrives. -/
def firstListen : Surroundings × ModuleEvent := ({}, .listen (.v4 2) 4000 0 true)

def firstSyn : Surroundings × ModuleEvent :=
  ({ iss := 100 }, .segment (plainSegment { syn := true } 500 0 8192 []))

/-- A tick later the handshake is completed. -/
def oneHandshake : List (Surroundings × ModuleEvent) :=
  [firstListen, firstSyn, ({}, .tick),
    ({}, .segment (plainSegment { ack := true } 501 101 8192 []))]

theorem oneHandshake_tick :
    KeepsHalfOpen (tcpModule.exec (init 1000) [firstListen, firstSyn]) ({}, .tick) := by
  simp only [KeepsHalfOpen]
  decide +kernel

theorem halfOpenBooks_oneHandshake :
    HalfOpenBooks (tcpModule.exec (init 1000) oneHandshake) :=
  halfOpenBooks (Machine.Reach.exec (.start tcpModule_start)
    ⟨trivial, trivial, oneHandshake_tick, trivial, trivial⟩)

/-- The SYN was answered, and the peer's address is reported unreachable. -/
def synThenIcmp : List (Surroundings × ModuleEvent) :=
  [firstListen, firstSyn, ({}, .icmp ⟨.v4 2, 4000, .v4 1, 80⟩ 3 none)]

/-- **Not in every run**: the ICMP error frees the TCB, and the list still begins with it. -/
theorem halfOpenBooks_refuted : ¬ ∀ m, tcpModule.Reachable m → HalfOpenBooks m := by
  intro h
  have hbooks := h _ (Machine.Reachable.exec (.start tcpModule_start) synThenIcmp)
  have hlive := hbooks.live 2 (.head (by decide +kernel))
  exact absurd hlive (by decide +kernel)

end Zigk.Tcp
