/-
  Subject:   WHICH BYTES GO OUT UNDER WHICH NUMBERS: the law of the send stream over whole runs.

  What the application writes is a stream whose first byte has the number `iss + 1`; `InPlace`
  says that a segment carries the bytes that stand at its number.

  * `Lockstep` -- the send ring holds what was written from `snd_una` on, and no more is in flight
    than the ring holds: `snd_una` and the read position of the ring move together;
  * retransmissions keep `InPlace` from `Lockstep` alone, since they read the ring at the offset
    of their number; `transmitPendingData` reads at the front of the ring under `snd_nxt`, so it
    keeps `InPlace` only where nothing is in flight;
  * **`sendStream_inPlace`** -- in a run in which no call of `transmitPendingData` gets past its
    gates while data is in flight (`SendOrder`, with two further ways out of step), every segment
    is in place; `sendStream_refuted` -- two writes in a row are enough to leave it.
-/
import Zigk.Base.Stream
import Zigk.Tcp.Steps

namespace Zigk.Tcp

open List Bool RingBuf

open Serial (dist place)

/-! ## 1. In place and in lockstep -/

/-- The segment carries the bytes that the application wrote at its place of the stream. -/
def InPlace (iss : Seq) (written : List Byte) (s : Segment) : Prop :=
  s.data = [] ∨ Stream.At (iss + 1) written s.seq s.data

variable {s : Segment} {env : Env}

theorem InPlace.append {iss : Seq} {written : List Byte} (h : InPlace iss written s)
    (more : List Byte) : InPlace iss (written ++ more) s :=
  h.imp id Stream.At.append

/-- The send ring and the numbers move together. -/
structure Lockstep (written : List Byte) (c : SendCore) : Prop where
  window : Stream.Window (c.iss + 1) written c.sndUna c.send.contents
  flight : dist c.sndUna c.sndNxt ≤ c.send.used

/-- **A piece of the ring, numbered by its offset from `snd_una`, is in place.** -/
theorem piece_inPlace {written : List Byte} {t : Tcb} {off len : Nat}
    (h : Stream.Window (t.iss + 1) written t.sndUna t.send.contents) (hp : s.Piece t off len)
    (hs : s.seq = place t.sndUna off) : InPlace t.iss written s := by
  right
  rw [hs, hp.data]
  exact h.piece (by rw [length_contents]; exact hp.inside)

namespace Lockstep

variable {written : List Byte} {t : Tcb}

/-- The application writes to the ring. -/
theorem push (h : Lockstep written t.core.snd) {data : List Byte}
    (hroom : t.send.used + data.length < BUFFER_SIZE) :
    Lockstep (written ++ data) { t.core.snd with send := t.send.pushAll data } := by
  have hused : (t.send.pushAll data).used = t.send.used + data.length :=
    used_pushAll_of_lt t.send data hroom
  refine ⟨?_, ?_⟩
  · show Stream.Window (t.iss + 1) (written ++ data) t.sndUna (t.send.pushAll data).contents
    rw [contents_pushAll t.send data hroom]
    exact h.window.append data
  · have hf : dist t.sndUna t.sndNxt ≤ t.send.used := h.flight
    show dist t.sndUna t.sndNxt ≤ (t.send.pushAll data).used
    omega

/-- A new acknowledgement: `snd_una` and the read position advance by the same distance. -/
theorem forward (h : Lockstep written t.core.snd) {p : Packet} (hn : acksNew t p = true) :
    Lockstep written
      { t.core.snd with
        sndUna := p.tcp.ackNum
        send := t.send.advance (dist t.sndUna p.tcp.ackNum) } := by
  simp only [acksNew, and_eq_true] at hn
  have hf : dist t.sndUna t.sndNxt ≤ t.send.used := h.flight
  have hused : t.send.used < 8192 := t.send.used_lt
  obtain ⟨hpos, hle⟩ := dist_le_of_seqLte (by omega) hn.2.1 hn.2.2
  have hplace : p.tcp.ackNum = place t.sndUna (dist t.sndUna p.tcp.ackNum) :=
    (Serial.add_dist t.sndUna p.tcp.ackNum).symm
  have hdist := Serial.dist_sub hle
  refine ⟨?_, ?_⟩
  · show Stream.Window (t.iss + 1) written p.tcp.ackNum
      (t.send.advance (dist t.sndUna p.tcp.ackNum)).contents
    rw [contents_advance t.send (by omega)]
    have hw := h.window.advance (n := dist t.sndUna p.tcp.ackNum)
      (by rw [length_contents]; exact hle.trans hf)
    rwa [show place t.core.snd.sndUna (dist t.sndUna p.tcp.ackNum) = p.tcp.ackNum from hplace.symm]
      at hw
  · show dist p.tcp.ackNum t.sndNxt ≤ (t.send.advance (dist t.sndUna p.tcp.ackNum)).used
    rw [used_advance t.send (by omega)]
    omega

/-- **New data, sent while nothing is in flight**, goes out in place and keeps the lockstep; so
    does a call that holds the data back. -/
theorem transmit {c : Ctx} (h : Lockstep written c.tcb.core.snd)
    (hq : c.tcb.sndNxt = c.tcb.sndUna ∨ sendLen env c.tcb = none) :
    Lockstep written (transmitPendingData env c).tcb.core.snd ∧
      c.Adds (InPlace c.tcb.iss written) (transmitPendingData env c) := by
  rcases transmitPendingData_cases env c with ⟨hc, ho⟩ | ⟨len, s, hlen, ho, hp, hseq, -, hc⟩
  · rw [hc]
    exact ⟨h, .of_out_eq ho⟩
  have hnu : c.tcb.sndNxt = c.tcb.sndUna := by
    rcases hq with hq | hq
    · exact hq
    · rw [hlen] at hq
      cases hq
  have hin := hp.inside
  have hused : c.tcb.send.used < 8192 := c.tcb.send.used_lt
  refine ⟨⟨?_, ?_⟩, ?_⟩
  · rw [hc]
    exact h.window
  · have hd : dist c.tcb.sndUna (place c.tcb.sndUna len) = len :=
      Serial.dist_add_ofNat c.tcb.sndUna (by omega)
    rw [hc]
    show dist c.tcb.sndUna (if s.sent then place c.tcb.sndNxt len else c.tcb.sndNxt) ≤
      c.tcb.send.used
    rw [hnu]
    split
    · omega
    · rw [Serial.dist_self]
      omega
  · refine ⟨[.segment s], ho, fun s' hs' => ?_⟩
    rw [segments_segment, mem_singleton] at hs'
    rw [hs']
    exact piece_inPlace h.window hp (by rw [hseq, hnu, Serial.place_zero])

end Lockstep

/-! ## 2. The condition and the invariant -/

/-- The steps that keep the send ring and the numbers in step: no call of `transmitPendingData`
    gets past its gates while data is in flight, no new acknowledgement arrives in CloseWait, and
    an active connection is not opened by a SYN without ACK. -/
structure SendOrder (k : Conn) (i : Env × Event) : Prop where
  idle : ∀ t, SendPoint (k.env i) k.tcb i.2 t → t.sndNxt = t.sndUna ∨ sendLen (k.env i) t = none
  closeWait : ∀ p, i.2 = .packet p → k.tcb.state = .CloseWait → reachesHandler k.tcb p = true →
    acksNew k.tcb p = false
  synAck : ∀ p, i.2 = .packet p → opensActive k.tcb p = true → p.tcp.flags.ack = true

/-- Before the connection is open nothing has been written. -/
structure Unopened (written : List Byte) (c : SendCore) : Prop where
  written : written = []
  contents : c.send.contents = []
  sndUna : c.sndUna = c.iss
  sndNxt : c.sndNxt = c.iss + 1

/-- The handshake acknowledges the SYN and nothing else. -/
theorem Unopened.opens {written : List Byte} {c : SendCore} (h : Unopened written c) :
    Lockstep written { c with sndUna := c.iss + 1 } := by
  refine ⟨?_, ?_⟩
  · show Stream.Window (c.iss + 1) written (c.iss + 1) c.send.contents
    rw [h.written, h.contents]
    exact Stream.window_start _
  · show dist (c.iss + 1) c.sndNxt ≤ c.send.used
    rw [h.sndNxt, Serial.dist_self]
    exact Nat.zero_le _

/-- The invariant of the send stream of a TCB. `held` outlives the states in which data is sent. -/
structure SendInv (written : List Byte) (t : Tcb) : Prop where
  unopened : t.state = .SynSent ∨ t.state = .SynReceived → Unopened written t.core.snd
  lockstep : t.state = .Established ∨ t.state = .CloseWait → Lockstep written t.core.snd
  held : t.send.contents = [] ∨ Stream.Window (t.iss + 1) written t.sndUna t.send.contents

namespace SendInv

variable {written : List Byte} {t t' : Tcb}

theorem of_lockstep (hs : t.state = .Established ∨ t.state = .CloseWait)
    (h : Lockstep written t.core.snd) : SendInv written t := by
  refine ⟨fun hn => ?_, fun _ => h, .inr h.window⟩
  rcases hs with hs | hs <;> rw [hs] at hn <;> rcases hn with hn | hn <;> cases hn

/-- Behind the states of the send stream only what is held still matters. -/
theorem of_noData (hs : NoData t.state)
    (h : t.send.contents = [] ∨ Stream.Window (t.iss + 1) written t.sndUna t.send.contents) :
    SendInv written t :=
  ⟨fun hn => hn.elim (absurd · hs.1) (absurd · hs.2.1),
    fun hn => hn.elim (absurd · hs.2.2.1) (absurd · hs.2.2.2), h⟩

/-- What is held depends on the send stream only. -/
theorem held_congr (h : SendInv written t) (huna : t'.sndUna = t.sndUna) (hiss : t'.iss = t.iss)
    (hsend : t'.send = t.send) :
    t'.send.contents = [] ∨ Stream.Window (t'.iss + 1) written t'.sndUna t'.send.contents := by
  rw [huna, hiss, hsend]
  exact h.held

/-- A quiet change of state and an unchanged send stream keep the invariant. -/
theorem quiet (h : SendInv written t) (hsnd : t'.core.snd = t.core.snd)
    (hq : Quiet t.state t'.state) : SendInv written t' := by
  have huna : t'.sndUna = t.sndUna := congrArg SendCore.sndUna hsnd
  have hiss : t'.iss = t.iss := congrArg SendCore.iss hsnd
  have hsend : t'.send = t.send := congrArg SendCore.send hsnd
  have hheld := h.held_congr huna hiss hsend
  rcases hq with hq | ⟨h1, h2⟩ | ⟨-, h2⟩
  · exact ⟨by rw [hq, hsnd]; exact h.unopened, by rw [hq, hsnd]; exact h.lockstep, hheld⟩
  · refine .of_lockstep (.inr h2) ?_
    rw [hsnd]
    exact h.lockstep (.inl h1)
  · exact .of_noData h2 hheld

/-- A retransmitted piece is in place. -/
theorem retransmits_inPlace (h : SendInv written t) (hs : Retransmits t s) :
    InPlace t.iss written s := by
  obtain ⟨off, len, hp, hseq⟩ := hs
  rcases h.held with he | hw
  · left
    have h0 : t.send.used = 0 := by rw [← length_contents, he]; rfl
    have hlen : len = 0 := by have := hp.inside; omega
    rw [hp.data, hlen, take_zero]
  · exact piece_inPlace hw hp hseq

end SendInv

variable {e : Event}

/-- Where `transmitPendingData` is called, the stream is in lockstep before the call, with what
    this event wrote counted in; elsewhere the call does nothing. -/
theorem SendPoint.lockstep {t t' : Tcb} {written : List Byte}
    (hp : SendPoint env t e t') (h : SendInv written t)
    (hs : t'.state = .Established ∨ t'.state = .CloseWait) :
    Lockstep (written ++ e.accepted env t) t'.core.snd ∧ t'.iss = t.iss := by
  cases hp with
  | ack hr hst hn =>
    rename_i p
    have hcore := seenTcb_core t p
    have hnew : acksNew (seenTcb t p) p = true := by
      rw [acksNew_congr (congrArg Core.snd hcore)]
      exact hn
    have hl : Lockstep written (seenTcb t p).core.snd := by
      rw [hcore]
      exact h.lockstep (.inl hst)
    have hf := ackForward_core env { tcb := seenTcb t p } p.tcp.ackNum
    rw [accepted_eq_nil (by simp), append_nil]
    refine ⟨?_, ?_⟩
    · rw [hf]
      exact hl.forward hnew
    · exact (congrArg (·.snd.iss) hf).trans (congrArg (·.snd.iss) hcore :)
  | dupAck hr hst hd hf =>
    rename_i p
    have hcore := (countDupAck_core (seenTcb t p)).trans (seenTcb_core t p)
    rw [accepted_eq_nil (by simp), append_nil, hcore]
    exact ⟨h.lockstep (.inl hst), congrArg (·.snd.iss) hcore⟩
  | send hst hroom hn hok =>
    rename_i data n
    have hacc : (Event.send data).accepted env t = data.take n := by
      simp only [Event.accepted, hok]
    have hlen : (data.take n).length = n := by
      rw [length_take]
      omega
    rw [hacc]
    exact ⟨(h.lockstep hst).push (by rw [hlen]; exact hroom), rfl⟩
  | uncork =>
    rw [accepted_eq_nil (by simp), append_nil]
    exact ⟨h.lockstep hs, rfl⟩
  | timeout hst =>
    have hcore : (persistStep env (delayedAck env { tcb := t })).tcb.core = t.core :=
      (persistStep_core env _).trans (delayedAck_core env { tcb := t })
    have hl : Lockstep written (persistStep env (delayedAck env { tcb := t })).tcb.core.snd := by
      rw [hcore]
      exact h.lockstep (goesBack_state hst)
    rw [accepted_eq_nil (by simp), append_nil]
    refine ⟨⟨hl.window, ?_⟩, congrArg (·.snd.iss) hcore⟩
    exact (Serial.dist_self _).le.trans (Nat.zero_le _)

theorem SendPoint.state {t t' : Tcb} (hp : SendPoint env t e t') :
    t'.state = t.state := by
  cases hp with
  | ack hr hst hn =>
    rename_i p
    exact (congrArg Core.state (ackForward_core env { tcb := seenTcb t p } p.tcp.ackNum)).trans
      (congrArg Core.state (seenTcb_core t p) :)
  | dupAck hr hst hd hf =>
    rename_i p
    exact congrArg Core.state ((countDupAck_core (seenTcb t p)).trans (seenTcb_core t p))
  | send hst hroom hn hok => rfl
  | uncork => rfl
  | timeout hst =>
    exact congrArg Core.state ((persistStep_core env _).trans (delayedAck_core env { tcb := t }))

theorem SendPoint.iss {t t' : Tcb} (hp : SendPoint env t e t') :
    t'.iss = t.iss := by
  cases hp with
  | ack hr hst hn =>
    rename_i p
    exact (congrArg (·.snd.iss) (ackForward_core env { tcb := seenTcb t p } p.tcp.ackNum)).trans
      (congrArg (·.snd.iss) (seenTcb_core t p) :)
  | dupAck hr hst hd hf =>
    rename_i p
    exact congrArg (·.snd.iss) ((countDupAck_core (seenTcb t p)).trans (seenTcb_core t p))
  | send hst hroom hn hok => rfl
  | uncork => rfl
  | timeout hst =>
    exact congrArg (·.snd.iss) ((persistStep_core env _).trans (delayedAck_core env { tcb := t }))

/-- In a state without a send stream only a cleared cork calls `transmitPendingData`. -/
theorem SendPoint.noStream {t t' : Tcb} (hp : SendPoint env t e t')
    (hs : ¬ (t'.state = .Established ∨ t'.state = .CloseWait)) :
    t'.core = t.core ∧ e.accepted env t = [] := by
  rw [hp.state] at hs
  cases hp with
  | ack hr hst hn => exact absurd (.inl hst) hs
  | dupAck hr hst hd hf => exact absurd (.inl hst) hs
  | send hst hroom hn hok => exact absurd hst hs
  | uncork => exact ⟨rfl, rfl⟩
  | timeout hst => exact absurd (goesBack_state hst) hs

/-- Where the state has no send stream, `transmitPendingData` does nothing. -/
theorem transmit_noStream (env : Env) {c : Ctx}
    (h : ¬ (c.tcb.state = .Established ∨ c.tcb.state = .CloseWait)) :
    (transmitPendingData env c).tcb.core = c.tcb.core ∧ (transmitPendingData env c).out = c.out := by
  rcases transmitPendingData_cases env c with h1 | ⟨len, s, hlen, -⟩
  · exact h1
  · exact absurd (sendLen_state hlen) h

/-! ## 3. One step and all steps -/

theorem control_inPlace {iss : Seq} {written : List Byte} (h : s.Control) :
    InPlace iss written s := .inl h.1

/-- **One event on the send stream of a TCB**: in order before, in order after, and everything
    sent is in place. -/
theorem sendInv_step {t : Tcb} {written : List Byte} {c' : Ctx}
    (h : SendInv written t) (hstep : SendStep env t e c')
    (hidle : ∀ t', SendPoint env t e t' → t'.sndNxt = t'.sndUna ∨ sendLen env t' = none)
    (hcw : ∀ p, e = .packet p → t.state = .CloseWait → reachesHandler t p = true →
      acksNew t p = false)
    (hsyn : ∀ p, e = .packet p → opensActive t p = true → p.tcp.flags.ack = true) :
    SendInv (written ++ e.accepted env t) c'.tcb ∧ c'.tcb.iss = t.iss ∧
      Ctx.Adds (InPlace t.iss (written ++ e.accepted env t)) { tcb := t } c' := by
  have hre : ∀ s, s.Control ∨ Retransmits t s → InPlace t.iss (written ++ e.accepted env t) s :=
    fun s hs => hs.elim control_inPlace fun hs => (h.retransmits_inPlace hs).append _
  have hctl : ∀ s, Segment.Control s → InPlace t.iss (written ++ e.accepted env t) s :=
    fun s hs => control_inPlace hs
  cases hstep with
  | quiet acc snd count state adds =>
    refine ⟨?_, congrArg SendCore.iss snd, adds.mono hre⟩
    rw [acc, append_nil]
    exact h.quiet snd state
  | opens p he ho state count snd adds =>
    have hack : p.tcp.flags.ack = true := by
      rcases ho with ho | ho
      · exact hsyn p he ho
      · simp only [opensPassive, and_eq_true] at ho
        exact ho.1.2
    have hst : t.state = .SynSent ∨ t.state = .SynReceived := by
      rcases ho with ho | ho
      · simp only [opensActive, and_eq_true, decide_eq_true_eq] at ho
        exact .inl ho.1.1.1
      · simp only [opensPassive, and_eq_true, decide_eq_true_eq] at ho
        exact .inr ho.1.1
    subst he
    refine ⟨.of_lockstep (.inl state) ?_, congrArg SendCore.iss snd, adds.mono hctl⟩
    rw [accepted_eq_nil (by simp), append_nil, snd, if_pos hack]
    exact (h.unopened hst).opens
  | transmits c1 point adds1 snd count state adds =>
    by_cases hs1 : c1.tcb.state = .Established ∨ c1.tcb.state = .CloseWait
    · obtain ⟨hl, hiss⟩ := point.lockstep h hs1
      obtain ⟨hl', hout⟩ := hl.transmit (hidle c1.tcb point)
      obtain ⟨n, hn⟩ := transmitPendingData_core env c1
      have hst : c'.tcb.state = .Established ∨ c'.tcb.state = .CloseWait := by
        rw [point.state] at hs1
        rcases state with hq | ⟨-, hq⟩ | ⟨hq, -⟩
        · rw [hq]
          exact hs1
        · exact .inr hq
        · exact hs1.elim (absurd · hq.2.2.1) (absurd · hq.2.2.2)
      refine ⟨.of_lockstep hst (by rw [snd]; exact hl'), ?_, ?_⟩
      · have e : c'.tcb.iss = (transmitPendingData env c1).tcb.iss := congrArg SendCore.iss snd
        exact e.trans ((congrArg (·.snd.iss) hn).trans hiss)
      · rw [hiss] at hout
        exact ((adds1.mono hre).trans hout).trans (adds.mono hctl)
    · obtain ⟨hcore, hout⟩ := transmit_noStream env hs1
      obtain ⟨hsame, hacc⟩ := point.noStream hs1
      have e : c'.tcb.core.snd = t.core.snd := by rw [snd, hcore, hsame]
      refine ⟨?_, congrArg SendCore.iss e, ?_⟩
      · rw [hacc, append_nil]
        exact h.quiet e state
      · exact ((adds1.mono hre).trans (.of_out_eq hout)).trans (adds.mono hctl)
  | closeWaitAck p he hr hst hn snd count state out =>
    rw [hcw p he hst hr] at hn
    cases hn
  | fin hf he snd count state adds =>
    subst he
    have hnd : NoData c'.tcb.state := by
      rcases state with hs | hs <;> rw [hs] <;> simp [NoData]
    refine ⟨.of_noData hnd ?_, congrArg SendCore.iss snd, adds.mono fun s hs => .inl hs.data⟩
    rw [accepted_eq_nil (by simp), append_nil]
    exact h.held_congr (congrArg SendCore.sndUna snd) (congrArg SendCore.iss snd)
      (congrArg SendCore.send snd)
  | finAgain hf he hst snd count state adds =>
    subst he
    refine ⟨?_, congrArg SendCore.iss snd, adds.mono fun s hs => ?_⟩
    · rw [accepted_eq_nil (by simp), append_nil]
      exact h.quiet snd (.inl (state.trans hst.symm))
    rcases hs with hs | hs | hs
    · exact hctl s hs
    · exact hre s (.inr hs)
    · exact .inl hs.data

/-- What the law says of a connection: while it lives its send stream is in order, and every
    segment ever sent is in place. -/
structure SendOk (k : Conn) : Prop where
  inv : k.live = true → SendInv k.written k.tcb
  log : ∀ s ∈ k.log, InPlace k.tcb.iss k.written s

theorem sendOk_start {k : Conn} (h : Opens k) : SendOk k := by
  obtain ⟨⟨st, iss, irs, rcvNxt, sackOk, parent, hst, hcore⟩, -, hw, -, hlog⟩ := h.fresh
  have hsnd : k.tcb.core.snd = { iss := iss, sndUna := iss, sndNxt := iss + 1, send := .empty 0 } :=
    congrArg Core.snd hcore
  have hsend : k.tcb.send.contents = [] := by
    rw [show k.tcb.send = .empty 0 from congrArg SendCore.send hsnd]
    exact RingBuf.contents_empty 0
  refine ⟨fun _ => ⟨fun _ => ?_, fun hs => ?_, .inl hsend⟩, fun s hs => .inl (hlog s hs).1.1⟩
  · rw [hsnd]
    exact ⟨hw, RingBuf.contents_empty 0, rfl, rfl⟩
  · have e : k.tcb.state = st := congrArg Core.state hcore
    rw [e] at hs
    rcases hst with rfl | ⟨rfl, -⟩ <;> rcases hs with hs | hs <;> cases hs

theorem sendOk_step {k : Conn} {i : Env × Event} (h : SendOk k) (hc : SendOrder k i) :
    SendOk (connStep k i) := by
  cases hlive : k.live with
  | false =>
    rw [connStep_dead hlive]
    exact h
  | true =>
    have hinv := h.inv hlive
    have hold : ∀ s ∈ k.log, InPlace k.tcb.iss (k.written ++ i.2.accepted (k.env i) k.tcb) s :=
      fun s hs => (h.log s hs).append _
    cases hf : (handle (k.env i) k.tcb i.2).2 with
    | false =>
      obtain ⟨hi, hiss, hadds⟩ := sendInv_step hinv (handle_send (k.env i) k.tcb i.2 hf) hc.idle
        hc.closeWait hc.synAck
      have hlog := log_step hlive hold hadds
      rw [connStep_live hlive] at hlog ⊢
      refine ⟨fun _ => hi, fun s hs => ?_⟩
      rw [hiss]
      exact hlog s hs
    | true =>
      obtain ⟨hadds, hiss, hacc⟩ := handle_freed (k.env i) k.tcb i.2 hf
      have hsent : ∀ s, (s.Answers k.tcb ∨ Retransmits k.tcb s ∨
          SendsFin (k.env i) k.tcb i.2 ∧ FinOf k.tcb s) →
          InPlace k.tcb.iss (k.written ++ i.2.accepted (k.env i) k.tcb) s := by
        intro s hs
        rcases hs with hs | hs | ⟨-, hs⟩
        · exact control_inPlace hs.1
        · exact (hinv.retransmits_inPlace hs).append _
        · exact .inl hs.data
      have hlog := log_step hlive hold (hadds.mono hsent)
      rw [connStep_live hlive] at hlog ⊢
      refine ⟨fun hl => ?_, fun s hs => ?_⟩
      · simp only [hf, Bool.not_true, Bool.false_and, false_eq_true] at hl
      · rw [hiss]
        exact hlog s hs

/-- **In a run whose steps all keep the order, every segment carries the bytes that the application
    wrote at its number.** -/
theorem sendStream_inPlace (k : Conn) (h : connection.Reach SendOrder k) :
    ∀ s ∈ k.log, InPlace k.tcb.iss k.written s :=
  (h.invariant (I := SendOk) (fun _ h => sendOk_start h) fun _ _ _ h hc => sendOk_step h hc).log

/-- A byte, its acknowledgement, one more byte. -/
def byteByByte : List (Env × Event) :=
  [plainSynAck 8192, ({}, .send [97]), ({}, .packet (plainSegment { ack := true } 501 102 8192 [])),
    ({}, .send [98])]

theorem byteByByte_order : connection.Along SendOrder (plainClient 1000) byteByByte := by
  refine ⟨⟨fun t ht => ?_, ?_, ?_⟩, ⟨fun t ht => ?_, ?_, ?_⟩, ⟨fun t ht => ?_, ?_, ?_⟩,
    ⟨fun t ht => ?_, ?_, ?_⟩, trivial⟩
  · cases ht with
    | ack hr hst => exact absurd hst (by decide)
    | dupAck hr hst => exact absurd hst (by decide)
  · exact fun p _ hst => absurd hst (by decide)
  · rintro p hp -
    cases hp
    rfl
  · cases ht
    exact .inl rfl
  · intro p hp
    cases hp
  · intro p hp
    cases hp
  · cases ht with
    | ack hr hst hn => exact .inl rfl
    | dupAck hr hst hd hf => exact absurd hf (by decide)
  · exact fun p _ hst => absurd hst (by decide)
  · intro p hp ho
    cases hp
    exact absurd ho (by decide)
  · cases ht
    exact .inl rfl
  · intro p hp
    cases hp
  · intro p hp
    cases hp

theorem sendStream_byteByByte :
    ((connection.exec (plainClient 1000) byteByByte).log.map fun s => (s.seq, s.data)) =
        [(100, []), (101, []), (101, [97]), (102, [98])] ∧
      ∀ s ∈ (connection.exec (plainClient 1000) byteByByte).log,
        InPlace (connection.exec (plainClient 1000) byteByByte).tcb.iss
          (connection.exec (plainClient 1000) byteByByte).written s :=
  ⟨by decide +kernel, sendStream_inPlace _
    (Machine.Reach.exec (.start (plainClient_opens 1000)) byteByByte_order)⟩

/-- Nodelay, then two writes of one byte: the second goes out while the first is in flight. -/
def twoWrites : List (Env × Event) :=
  [plainSynAck 8192, ({}, .setsockopt (.nodelay true)), ({}, .send [97]), ({}, .send [98])]

/-- **Not every run keeps the order**: after two writes in a row both bytes go out again, under the
    number of the second. -/
theorem sendStream_refuted :
    ¬ ∀ k, connection.Reachable k → ∀ s ∈ k.log, InPlace k.tcb.iss k.written s := by
  intro h
  have hrun := h _ (Machine.Reachable.exec (.start (plainClient_opens 1000)) twoWrites)
  have hmem : ((102 : Seq), ([97, 98] : List Byte)) ∈
      (connection.exec (plainClient 1000) twoWrites).log.map fun s => (s.seq, s.data) := by
    decide +kernel
  obtain ⟨s, hs, he⟩ := mem_map.mp hmem
  have hseq : s.seq = 102 := congrArg Prod.fst he
  have hdata : s.data = [97, 98] := congrArg Prod.snd he
  rcases hrun s hs with h0 | ⟨o, hn, hlen, -⟩
  · rw [hdata] at h0
    cases h0
  -- both written bytes at once fit only at offset 0, which has the number 101
  have hw : (connection.exec (plainClient 1000) twoWrites).written.length = 2 := by decide +kernel
  rw [hdata, hw] at hlen
  have ho : o = 0 := by
    simp only [length_cons, length_nil] at hlen
    omega
  have hi : (connection.exec (plainClient 1000) twoWrites).tcb.iss = 100 := by decide +kernel
  rw [hseq, ho, hi] at hn
  exact absurd hn (by decide)

end Zigk.Tcp
