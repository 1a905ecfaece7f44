/-
  Subject:   UNDER WHICH NUMBER A FIN IS SENT, and which ACK it waits for, over whole runs.

  The FIN comes after the last byte of the stream (`finSeq`). The code always sends it under
  `snd_nxt`, which is that number only where everything written has been transmitted once and
  nothing was rewound (`FinInOrder`):

  * **`finSequence`** -- in a run that sends its FINs there, all of them carry `finSeq`, and the
    states that wait for the acknowledgement move on exactly for `finSeq + 1`.
-/
import Zigk.Tcp.SendStream

namespace Zigk.Tcp

open List Bool SendCore

open Serial (dist place)

/-! ## 1. The number of the FIN -/

/-- The number just after the last byte that the application wrote. -/
def finSeq (iss : Seq) (written : List Byte) : Seq := place (iss + 1) written.length

/-- Every FIN of the step is sent where the stream ends. -/
def FinInOrder (k : Conn) (i : Env × Event) : Prop :=
  SendsFin (k.env i) k.tcb i.2 → k.tcb.sndNxt = finSeq k.tcb.iss k.written

/-- Before the FIN none was sent; after it `snd_nxt` is one past it and all were sent there. -/
structure FinInv (written : List Byte) (log : List Segment) (t : Tcb) : Prop where
  before : ¬ NoData t.state → ∀ s ∈ log, s.flags.fin = false
  after : NoData t.state → t.sndNxt = finSeq t.iss written + 1
  log : ∀ s ∈ log, s.flags.fin = true → s.seq = finSeq t.iss written

/-- A segment that may be sent at any time: no FIN. -/
theorem Retransmits.notFin {t : Tcb} {s : Segment} (h : Retransmits t s) : s.flags.fin = false := by
  obtain ⟨off, len, hp, -⟩ := h
  exact hp.notFin

theorem transmitPendingData_notFin (env : Env) (c : Ctx) :
    c.Adds (fun s => s.flags.fin = false) (transmitPendingData env c) := by
  rcases transmitPendingData_cases env c with ⟨-, h⟩ | ⟨len, s, -, h, hp, -⟩
  · exact .of_out_eq h
  refine ⟨[.segment s], h, fun s' hs' => ?_⟩
  rw [segments_segment, mem_singleton] at hs'
  rw [hs']
  exact hp.notFin

/-! ## 2. Steps and runs -/

section Steps

variable {env : Env} {t : Tcb} {e : Event} {written : List Byte} {log : List Segment} {c' : Ctx}

/-- A step that sends no FIN and leaves `snd_nxt` alone where a FIN was sent. -/
theorem FinInv.without (h : FinInv written log t) (hiss : c'.tcb.iss = t.iss)
    (hst : NoData c'.tcb.state ↔ NoData t.state)
    (hn : NoData t.state → c'.tcb.sndNxt = t.sndNxt ∧ e.accepted env t = [])
    (hadds : Ctx.Adds (fun s => s.flags.fin = false) { tcb := t } c') :
    FinInv (written ++ e.accepted env t) (log ++ segments c'.out) c'.tcb := by
  have hnew := hadds.segments rfl
  refine ⟨fun hb s hs => ?_, fun ha => ?_, fun s hs hf => ?_⟩
  · rw [mem_append] at hs
    rcases hs with hs | hs
    · exact h.before (fun hn => hb (hst.mpr hn)) s hs
    · exact hnew s hs
  · obtain ⟨h1, h2⟩ := hn (hst.mp ha)
    rw [h1, h2, append_nil, hiss]
    exact h.after (hst.mp ha)
  rw [mem_append] at hs
  rcases hs with hs | hs
  · by_cases hnd : NoData t.state
    · rw [(hn hnd).2, append_nil, hiss]
      exact h.log s hs hf
    · rw [h.before hnd s hs] at hf
      cases hf
  · rw [hnew s hs] at hf
    cases hf

/-- **One event**: the FINs it sends are in order. -/
theorem finInv_step (h : FinInv written log t) (hstep : SendStep env t e c')
    (hc : SendsFin env t e → t.sndNxt = finSeq t.iss written) :
    FinInv (written ++ e.accepted env t) (log ++ segments c'.out) c'.tcb ∧ c'.tcb.iss = t.iss := by
  have hre : ∀ s, s.Control ∨ Retransmits t s → s.flags.fin = false :=
    fun s hs => hs.elim (fun h => h.2) fun h => h.notFin
  cases hstep with
  | quiet acc snd count state adds =>
    have hiss : c'.tcb.iss = t.iss := congrArg iss snd
    exact ⟨h.without hiss (quiet_noData state) (fun _ => ⟨congrArg sndNxt snd, acc⟩)
      (adds.mono hre), hiss⟩
  | opens p he ho state count snd adds =>
    have hiss : c'.tcb.iss = t.iss := congrArg iss snd
    have hst : ¬ NoData t.state := by
      rcases ho with ho | ho
      · simp only [opensActive, and_eq_true, decide_eq_true_eq] at ho
        exact fun hn => hn.1 ho.1.1.1
      · simp only [opensPassive, and_eq_true, decide_eq_true_eq] at ho
        exact fun hn => hn.2.1 ho.1.1
    have hst' : ¬ NoData c'.tcb.state := fun hn => hn.2.2.1 state
    exact ⟨h.without hiss ⟨fun hn => absurd hn hst', fun hn => absurd hn hst⟩
      (fun hn => absurd hn hst) (adds.mono fun s hs => hs.2), hiss⟩
  | transmits c1 point adds1 snd count state adds =>
    obtain ⟨n, hn⟩ := transmitPendingData_core env c1
    have hiss : c'.tcb.iss = t.iss := by
      have e : c'.tcb.iss = (transmitPendingData env c1).tcb.iss := congrArg iss snd
      exact e.trans ((congrArg (·.snd.iss) hn).trans point.iss)
    refine ⟨h.without hiss (quiet_noData state) (fun hnd => ?_) ?_, hiss⟩
    · have hs1 : ¬ (c1.tcb.state = .Established ∨ c1.tcb.state = .CloseWait) := by
        rw [point.state]
        exact fun hs => hs.elim (absurd · hnd.2.2.1) (absurd · hnd.2.2.2)
      obtain ⟨hsame, hacc⟩ := point.noStream hs1
      refine ⟨?_, hacc⟩
      have e : c'.tcb.core.snd = t.core.snd := by
        rw [snd, (transmit_noStream env hs1).1, hsame]
      exact congrArg sndNxt e
    · exact ((adds1.mono hre).trans (transmitPendingData_notFin env c1)).trans
        (adds.mono fun s hs => hs.2)
  | closeWaitAck p he hr hst hn snd count state out =>
    have hiss : c'.tcb.iss = t.iss := congrArg iss snd
    have hst0 : ¬ NoData t.state := fun hn => hn.2.2.2 hst
    have hst1 : ¬ NoData c'.tcb.state := fun hn => hn.2.2.2 state
    exact ⟨h.without hiss ⟨fun hn => absurd hn hst1, fun hn => absurd hn hst0⟩
      (fun hn => absurd hn hst0) (.of_out_eq out), hiss⟩
  | fin hf he snd count state adds =>
    have hiss : c'.tcb.iss = t.iss := congrArg iss snd
    have hnxt : c'.tcb.sndNxt = t.sndNxt + 1 := congrArg sndNxt snd
    have hacc : e.accepted env t = [] := accepted_eq_nil (by rw [he]; simp)
    have hst0 : ¬ NoData t.state := by
      rcases hf with ⟨-, hs | hs | hs⟩ | ⟨ht, -⟩
      · exact fun hn => hn.2.1 hs
      · exact fun hn => hn.2.2.1 hs
      · exact fun hn => hn.2.2.2 hs
      · rw [he] at ht
        cases ht
    have hst1 : NoData c'.tcb.state := by
      rcases state with hs | hs <;> rw [hs] <;> simp [NoData]
    rw [hacc, append_nil]
    refine ⟨⟨fun hn => absurd hst1 hn, fun _ => ?_, fun s hs hfin => ?_⟩, hiss⟩
    · rw [hnxt, hiss, hc hf]
    rw [mem_append] at hs
    rcases hs with hs | hs
    · rw [h.before hst0 s hs] at hfin
      cases hfin
    · rw [(adds.segments rfl s hs).seq, hiss]
      exact hc hf
  | finAgain hf he hst snd count state adds =>
    have hiss : c'.tcb.iss = t.iss := congrArg iss snd
    have hnd : NoData t.state := by rw [hst]; simp [NoData]
    -- `snd_nxt` already lies one past the FIN, so this FIN cannot be in order
    have h1 := h.after hnd
    rw [hc hf] at h1
    exact absurd h1 (by simp)

end Steps

/-- The law for a connection: every FIN ever sent is in order. -/
structure FinOk (k : Conn) : Prop where
  inv : k.live = true → FinInv k.written k.log k.tcb
  log : ∀ s ∈ k.log, s.flags.fin = true → s.seq = finSeq k.tcb.iss k.written

theorem finOk_start {k : Conn} (h : Opens k) : FinOk k := by
  obtain ⟨⟨st, iss, irs, rcvNxt, sackOk, parent, hst, hcore⟩, -, -, -, hlog⟩ := h.fresh
  have hs : k.tcb.state = st := congrArg Core.state hcore
  have hno : ∀ s ∈ k.log, s.flags.fin = true → s.seq = finSeq k.tcb.iss k.written := by
    intro s hs hf
    rw [(hlog s hs).1.2] at hf
    cases hf
  refine ⟨fun _ => ⟨fun _ s hs => (hlog s hs).1.2, fun hn => ?_, hno⟩, hno⟩
  rw [hs] at hn
  rcases hst with rfl | ⟨rfl, -⟩
  · exact absurd rfl hn.1
  · exact absurd rfl hn.2.1

theorem finOk_step {k : Conn} {i : Env × Event} (h : FinOk k) (hc : FinInOrder k i) :
    FinOk (connStep k i) := by
  cases hlive : k.live with
  | false =>
    rw [connStep_dead hlive]
    exact h
  | true =>
    have hinv := h.inv hlive
    cases hf : (handle (k.env i) k.tcb i.2).2 with
    | false =>
      obtain ⟨hi, -⟩ := finInv_step hinv (handle_send (k.env i) k.tcb i.2 hf) hc
      rw [connStep_live hlive]
      exact ⟨fun _ => hi, hi.log⟩
    | true =>
      obtain ⟨hadds, hiss, hacc⟩ := handle_freed (k.env i) k.tcb i.2 hf
      have hnew := hadds.segments rfl
      rw [connStep_live hlive]
      refine ⟨fun hl => ?_, fun s hs hfin => ?_⟩
      · simp only [hf, Bool.not_true, Bool.false_and, false_eq_true] at hl
      simp only at hs ⊢
      rw [hacc, append_nil, hiss]
      rw [mem_append] at hs
      rcases hs with hs | hs
      · exact h.log s hs hfin
      rcases hnew s hs with hs | hs | ⟨hsf, hs⟩
      · rw [hs.1.2] at hfin
        cases hfin
      · rw [hs.notFin] at hfin
        cases hfin
      · exact hs.seq.trans (hc hsf)

theorem finOk_reach {k : Conn} (h : connection.Reach FinInOrder k) : FinOk k :=
  h.invariant (I := FinOk) (fun _ h => finOk_start h) fun _ _ _ h hc => finOk_step h hc

/-! ## 3. The acknowledgement of the FIN -/

/-- The moves of the states that wait for the acknowledgement of the FIN. -/
def FinAcknowledged : TcpState → TcpState → Prop
  | .FinWait1, s => s = .FinWait2 ∨ s = .TimeWait
  | .Closing, s => s = .TimeWait
  | .LastAck, s => s = .Closed
  | _, _ => False

def WaitsForAck (s : TcpState) : Prop := s = .FinWait1 ∨ s = .Closing ∨ s = .LastAck

/-- The waiting states move on exactly for an acknowledgement of `snd_nxt`. -/
theorem finAcknowledged_nextState {t : Tcb} {p : Packet} (hw : WaitsForAck t.state) :
    FinAcknowledged t.state (nextState t p) ↔ acksAll t p = true := by
  rcases hw with hs | hs | hs <;> simp only [FinAcknowledged, nextState, hs] <;>
    cases acksAll t p <;> cases p.tcp.flags.fin <;> simp

/-- The state after a packet that reaches the handler of a waiting state. -/
theorem state_of_waiting {k : Conn} (env : Env) {p : Packet} (hlive : k.live = true)
    (hw : WaitsForAck k.tcb.state) (hr : reachesHandler k.tcb p = true) :
    (connStep k (env, .packet p)).tcb.state = nextState k.tcb p := by
  have hcore := noteTimestamp_core k.tcb p
  have hst : (noteTimestamp k.tcb p).state = k.tcb.state := congrArg Core.state hcore
  have hne : k.tcb.state ≠ .Established ∧ k.tcb.state ≠ .CloseWait := by
    rcases hw with hs | hs | hs <;> rw [hs] <;> simp
  have hd := (dispatch_closing (k.env (env, .packet p)) { tcb := noteTimestamp k.tcb p } p
    (by rw [hst]; exact hne.1) (by rw [hst]; exact hne.2)).1
  have hn : nextState (noteTimestamp k.tcb p) p = nextState k.tcb p := by
    have h1 : (noteTimestamp k.tcb p).sndNxt = k.tcb.sndNxt := congrArg (·.snd.sndNxt) hcore
    unfold nextState acksAll
    rw [hst, h1]
  rw [connStep_live hlive, ← hn]
  show (processPacket (k.env (env, .packet p)) { tcb := k.tcb } p).1.tcb.state = _
  rw [processPacket_handler (k.env (env, .packet p)) (c := { tcb := k.tcb }) hr]
  exact congrArg Core.state hd

/-- **In a run that sends its FINs where the stream ends, all FINs carry that number, and exactly
    its acknowledgement moves the waiting states on.** -/
theorem finSequence (k : Conn) (h : connection.Reach FinInOrder k) :
    (∀ s ∈ k.log, s.flags.fin = true → s.seq = finSeq k.tcb.iss k.written) ∧
      (k.live = true → WaitsForAck k.tcb.state → ∀ env p, reachesHandler k.tcb p = true →
        (FinAcknowledged k.tcb.state (connStep k (env, .packet p)).tcb.state ↔
          p.tcp.flags.ack = true ∧ p.tcp.ackNum = finSeq k.tcb.iss k.written + 1)) := by
  have hok := finOk_reach h
  refine ⟨hok.log, fun hlive hw env p hr => ?_⟩
  have hnd : NoData k.tcb.state := by
    rcases hw with hs | hs | hs <;> rw [hs] <;> simp [NoData]
  rw [state_of_waiting env hlive hw hr, finAcknowledged_nextState hw, acksAll,
    (hok.inv hlive).after hnd, and_eq_true, decide_eq_true_eq]

/-- A byte, its acknowledgement, the shutdown, the acknowledgement of the FIN. -/
def orderlyClose : List (Env × Event) :=
  [plainSynAck 8192, ({}, .send [97]), ({}, .packet (plainSegment { ack := true } 501 102 8192 [])),
    ({}, .shutdown)]

theorem orderlyClose_order : connection.Along FinInOrder (plainClient 1000) orderlyClose := by
  refine ⟨fun h => ?_, fun h => ?_, fun h => ?_, fun _ => by decide +kernel, trivial⟩ <;>
    rcases h with ⟨h | h, -⟩ | ⟨h, -⟩ <;> cases h

/-- There the FIN goes out under 102, and its acknowledgement leads to FinWait2. -/
theorem finSequence_orderlyClose :
    (∀ s ∈ (connection.exec (plainClient 1000) orderlyClose).log, s.flags.fin = true →
        s.seq = finSeq 100 [97]) ∧
      FinAcknowledged .FinWait1 (connStep (connection.exec (plainClient 1000) orderlyClose)
          ({}, .packet (plainSegment { ack := true } 501 103 8192 []))).tcb.state :=
  ⟨(finSequence _ (Machine.Reach.exec (.start (plainClient_opens 1000)) orderlyClose_order)).1,
    ((finSequence _ (Machine.Reach.exec (.start (plainClient_opens 1000)) orderlyClose_order)).2
      (by decide +kernel) (.inl (by decide +kernel)) {} (plainSegment { ack := true } 501 103 8192 [])
      (by decide +kernel)).mpr ⟨rfl, by decide +kernel⟩⟩

/-- The peer closes first, then this side; the timeout of LastAck comes before any answer. -/
def lostLastAck : List (Env × Event) :=
  [plainSynAck 8192, ({}, .packet (plainSegment { ack := true, fin := true } 501 101 8192 [])),
    ({}, .shutdown), ({}, .tick false)]

/-- **Not every run sends its FINs there**: the retransmission from LastAck has another number. -/
theorem finSequence_refuted : ¬ ∀ k, connection.Reachable k → ∀ s ∈ k.log, s.flags.fin = true →
        s.seq = finSeq k.tcb.iss k.written := by
  intro h
  have hrun := h _ (Machine.Reachable.exec (.start (plainClient_opens 1)) lostLastAck)
  have hmem : ((102 : Seq), true) ∈
      (connection.exec (plainClient 1) lostLastAck).log.map fun s => (s.seq, s.flags.fin) := by
    decide +kernel
  obtain ⟨s, hs, he⟩ := mem_map.mp hmem
  have hseq : s.seq = 102 := congrArg Prod.fst he
  have hfin : finSeq (connection.exec (plainClient 1) lostLastAck).tcb.iss
      (connection.exec (plainClient 1) lostLastAck).written = 101 := by decide +kernel
  have := hrun s hs (congrArg Prod.snd he)
  rw [hseq, hfin] at this
  exact absurd this (by decide)

end Zigk.Tcp
