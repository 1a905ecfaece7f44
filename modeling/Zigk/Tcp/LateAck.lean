/-
  Subject:   WHICH ACKNOWLEDGEMENTS ARE TAKEN: an ACK of something that was sent once.

  A retransmission timeout takes `snd_nxt` back to `snd_una`, and `snd_nxt` is also the bound up to
  which an ACK is believed. So an ACK of data that was sent before the timeout is taken only as far
  as it was sent again, and only in the Established state are its bytes freed.

  * `takes_iff` -- exactly when such an ACK moves `snd_una` and frees exactly its bytes;
  * **`lateAck_taken`** -- in every reachable state it does so under that condition and no other,
    and in a run that never goes back while data is in flight, always in Established;
    `lateAck_refuted` -- a run that goes back.
-/
import Zigk.Tcp.SendStream

namespace Zigk.Tcp

open Serial (dist place)

/-! ## 1. What a packet does to `snd_una` and to the send ring -/

/-- The acknowledgement is taken: `snd_una` is its number, and its bytes are freed. -/
def Takes (t t' : Tcb) (ack : Seq) : Prop :=
  t'.sndUna = ack ∧ t'.send.used + dist t.sndUna ack = t.send.used

/-- In Established a new acknowledgement moves `snd_una` and the send ring together. -/
theorem established_una (env : Env) {t : Tcb} {p : Packet} (hs : t.state = .Established) :
    (processEstablished env { tcb := noteTimestamp t p } p).tcb.sndUna =
        (if acksNew t p then p.tcp.ackNum else t.sndUna) ∧
      (processEstablished env { tcb := noteTimestamp t p } p).tcb.send =
        (if acksNew t p then t.send.advance (dist t.sndUna p.tcp.ackNum) else t.send) := by
  have hst : (noteTimestamp t p).state = .Established :=
    (congrArg Core.state (noteTimestamp_core t p)).trans hs
  obtain ⟨hsnd, -, -⟩ := processEstablished_snd env { tcb := noteTimestamp t p } p hst
  have hseen : (seenTcb t p).core = t.core := seenTcb_core t p
  have hnew : acksNew (seenTcb t p) p = acksNew t p := acksNew_congr (congrArg Core.snd hseen) p
  change _ = (ackPhase env { tcb := seenTcb t p } p).1.tcb.core.snd at hsnd
  have huna := congrArg SendCore.sndUna hsnd
  have hsend := congrArg SendCore.send hsnd
  have hu0 : (seenTcb t p).sndUna = t.sndUna := congrArg (·.snd.sndUna) hseen
  have hr0 : (seenTcb t p).send = t.send := congrArg (·.snd.send) hseen
  rcases ackPhase_cases env { tcb := seenTcb t p } p with ⟨hn, e⟩ | ⟨hn, c1, hc1, -, e⟩
  · obtain ⟨n, hn'⟩ := transmitPendingData_core env
      (ackForward env { tcb := seenTcb t p } p.tcp.ackNum)
    have hf := ackForward_core env { tcb := seenTcb t p } p.tcp.ackNum
    rw [hf] at hn'
    rw [e, hn'] at huna hsend
    rw [hnew] at hn
    rw [if_pos hn, if_pos hn]
    refine ⟨huna, hsend.trans ?_⟩
    show (seenTcb t p).send.advance (dist (seenTcb t p).sndUna p.tcp.ackNum) = _
    rw [hr0, hu0]
  have hsame : (ackPhase env { tcb := seenTcb t p } p).1.tcb.sndUna = t.sndUna ∧
      (ackPhase env { tcb := seenTcb t p } p).1.tcb.send = t.send := by
    rcases e with e | ⟨-, -, -, e⟩
    · rw [e]
      exact ⟨(congrArg (·.snd.sndUna) hc1).trans hu0, (congrArg (·.snd.send) hc1).trans hr0⟩
    obtain ⟨n, hn'⟩ := transmitPendingData_core env c1
    rw [hc1] at hn'
    rw [e]
    exact ⟨(congrArg (·.snd.sndUna) hn').trans hu0, (congrArg (·.snd.send) hn').trans hr0⟩
  have hn0 : acksNew t p = false := hnew.symm.trans hn
  rw [hn0]
  exact ⟨huna.trans hsame.1, hsend.trans hsame.2⟩

/-- Outside Established the send ring keeps its bytes. -/
theorem closing_send (env : Env) {t : Tcb} {p : Packet} (hs : t.state ≠ .Established) :
    (dispatch env { tcb := noteTimestamp t p } p).1.tcb.send = t.send := by
  have hcore := noteTimestamp_core t p
  have hst : (noteTimestamp t p).state = t.state := congrArg Core.state hcore
  by_cases hcw : t.state = .CloseWait
  · simp only [dispatch, hst, hcw]
    unfold processCloseWait
    split <;> exact congrArg (·.snd.send) hcore
  · have hd := (dispatch_closing env { tcb := noteTimestamp t p } p (by rw [hst]; exact hs)
      (by rw [hst]; exact hcw)).1
    exact (congrArg (·.snd.send) hd).trans (congrArg (·.snd.send) hcore :)

/-! ## 2. When an acknowledgement is taken -/

/-- **A new acknowledgement is taken, and its bytes freed, exactly in Established, up to `snd_nxt`
    and up to what the ring holds.** -/
theorem takes_iff {k : Conn} (hlive : k.live = true) (env : Env) {p : Packet}
    (hr : reachesHandler k.tcb p = true) (hack : p.tcp.flags.ack = true)
    (hgt : seqGt p.tcp.ackNum k.tcb.sndUna = true) :
    Takes k.tcb (connStep k (env, .packet p)).tcb p.tcp.ackNum ↔
      k.tcb.state = .Established ∧ seqLte p.tcp.ackNum k.tcb.sndNxt = true ∧
        dist k.tcb.sndUna p.tcp.ackNum ≤ k.tcb.send.used := by
  have hpos := (seqGt_iff.mp hgt).1
  have hstep : (connStep k (env, .packet p)).tcb =
      (dispatch (k.env (env, .packet p)) { tcb := noteTimestamp k.tcb p } p).1.tcb := by
    rw [connStep_live hlive]
    exact congrArg (·.1.tcb)
      (processPacket_handler (k.env (env, .packet p)) (c := { tcb := k.tcb }) hr)
  have hne : k.tcb.sndUna ≠ p.tcp.ackNum := by
    intro e
    rw [e, Serial.dist_self] at hpos
    exact absurd hpos (lt_irrefl 0)
  rw [Takes, hstep]
  by_cases hs : k.tcb.state = .Established
  · have hst : (noteTimestamp k.tcb p).state = .Established :=
      (congrArg Core.state (noteTimestamp_core k.tcb p)).trans hs
    have hdisp : (dispatch (k.env (env, .packet p)) { tcb := noteTimestamp k.tcb p } p).1 =
        processEstablished (k.env (env, .packet p)) { tcb := noteTimestamp k.tcb p } p := by
      simp only [dispatch, hst]
    obtain ⟨huna, hsend⟩ := established_una (k.env (env, .packet p)) (p := p) hs
    rw [hdisp, huna, hsend]
    cases hl : seqLte p.tcp.ackNum k.tcb.sndNxt with
    | true =>
      have hn : acksNew k.tcb p = true := by rw [acksNew, hack, hgt, hl]; rfl
      rw [if_pos hn, if_pos hn, RingBuf.used_advance_add_iff]
      exact ⟨fun h => ⟨hs, rfl, h.2⟩, fun h => ⟨rfl, h.2.2⟩⟩
    | false =>
      have hn : acksNew k.tcb p = false := by rw [acksNew, hack, hgt, hl]; rfl
      rw [hn]
      refine ⟨fun h => absurd h.1 hne, fun h => ?_⟩
      cases h.2.1
  · rw [closing_send (k.env (env, .packet p)) (p := p) hs]
    refine ⟨fun h => ?_, fun h => absurd h.1 hs⟩
    have := h.2
    omega

/-! ## 3. The highest number ever sent -/

/-- The later one of two numbers. -/
def later (a b : Seq) : Seq := if seqGt b a then b else a

/-- The connection with the highest value of `snd_nxt` since its start. -/
def watched : Machine (Conn × Option Seq) (Env × Event) :=
  connection.track none fun h k i => some (later (h.getD k.tcb.sndNxt) (connStep k i).tcb.sndNxt)

def highest (w : Conn × Option Seq) : Seq := w.2.getD w.1.tcb.sndNxt

/-- The number lies in `(snd_una, highest number ever sent]`. -/
def EverSent (w : Conn × Option Seq) (ack : Seq) : Prop :=
  seqGt ack w.1.tcb.sndUna = true ∧ seqLte ack (highest w) = true

theorem later_self (a : Seq) : later a a = a := by
  unfold later
  split <;> rfl

theorem later_place (a : Seq) {n : Nat} (h0 : 0 < n) (hn : n < 2 ^ 31) :
    later a (place a n) = place a n := by
  have hd : dist a (place a n) = n := Serial.dist_add_ofNat a (by omega)
  rw [later, if_pos (seqGt_iff.mpr (by omega))]

/-- The steps of a run in which `snd_nxt` never returns over data in flight. -/
structure NeverBack (k : Conn) (i : Env × Event) : Prop where
  order : SendOrder k i
  stays : i.2 = .tick false → goesBack (k.env i) k.tcb = true → k.tcb.sndNxt = k.tcb.sndUna

/-- Where `transmitPendingData` is called `snd_nxt` is still what it was, unless the timer went
    back. -/
theorem SendPoint.sndNxt {env : Env} {t t' : Tcb} {e : Event} (hp : SendPoint env t e t') :
    t'.sndNxt = t.sndNxt ∨ e = .tick false ∧ goesBack env t = true ∧ t'.sndNxt = t.sndUna := by
  cases hp with
  | ack hr hst hn =>
    rename_i p
    exact .inl ((congrArg (·.snd.sndNxt)
      (ackForward_core env { tcb := seenTcb t p } p.tcp.ackNum)).trans
        (congrArg (·.snd.sndNxt) (seenTcb_core t p) :))
  | dupAck hr hst hd hf =>
    rename_i p
    exact .inl (congrArg (·.snd.sndNxt) ((countDupAck_core (seenTcb t p)).trans (seenTcb_core t p)))
  | send hst hroom hn hok => exact .inl rfl
  | uncork => exact .inl rfl
  | timeout h =>
    exact .inr ⟨rfl, h, congrArg (·.snd.sndUna)
      ((persistStep_core env _).trans (delayedAck_core env { tcb := t }))⟩

/-- In such a step `snd_nxt` stays or moves on by what is sent. -/
theorem sndNxt_forward {env : Env} {t : Tcb} {e : Event} {c' : Ctx} (hstep : SendStep env t e c')
    (hnb : e = .tick false → goesBack env t = true → t.sndNxt = t.sndUna)
    (hnd : ¬ NoData c'.tcb.state) :
    c'.tcb.sndNxt = t.sndNxt ∨
      ∃ n, 0 < n ∧ n < 2 ^ 31 ∧ c'.tcb.sndNxt = place t.sndNxt n := by
  cases hstep with
  | quiet acc snd count state adds => exact .inl (congrArg SendCore.sndNxt snd)
  | opens p he ho state count snd adds => exact .inl (congrArg SendCore.sndNxt snd)
  | closeWaitAck p he hr hst hn snd count state out => exact .inl (congrArg SendCore.sndNxt snd)
  | fin hf he snd count state adds =>
    refine absurd ?_ hnd
    rcases state with hs | hs <;> rw [hs] <;> simp [NoData]
  | finAgain hf he hst snd count state adds =>
    refine absurd ?_ hnd
    rw [state]
    simp [NoData]
  | transmits c1 point adds1 snd count state adds =>
    have h1 : c1.tcb.sndNxt = t.sndNxt := by
      rcases point.sndNxt with h | ⟨he, hg, h⟩
      · exact h
      · exact h.trans (hnb he hg).symm
    have hn : c'.tcb.sndNxt = (transmitPendingData env c1).tcb.sndNxt :=
      congrArg SendCore.sndNxt snd
    rw [hn]
    rcases transmitPendingData_cases env c1 with ⟨hc, -⟩ | ⟨len, s, hlen, -, -, -, -, hc⟩
    · exact .inl ((congrArg (·.snd.sndNxt) hc).trans h1)
    have hcn : (transmitPendingData env c1).tcb.sndNxt =
        if s.sent then place c1.tcb.sndNxt len else c1.tcb.sndNxt :=
      congrArg (·.snd.sndNxt) hc
    obtain ⟨h0, hle⟩ := sendLen_le hlen
    have hused : c1.tcb.send.used < 8192 := c1.tcb.send.used_lt
    rw [hcn, h1]
    split
    · exact .inr ⟨len, h0, by omega, rfl⟩
    · exact .inl rfl

/-- While data can be sent, `snd_nxt` is the highest number ever sent. -/
structure CursorOk (w : Conn × Option Seq) : Prop where
  ok : SendOk w.1
  top : w.1.live = true → ¬ NoData w.1.tcb.state → highest w = w.1.tcb.sndNxt

theorem cursorOk_step {w : Conn × Option Seq} {i : Env × Event} (h : CursorOk w)
    (hc : NeverBack w.1 i) : CursorOk (watched.step w i) := by
  refine ⟨sendOk_step h.ok hc.order, fun hlive' hnd => ?_⟩
  show later (highest w) (connStep w.1 i).tcb.sndNxt = (connStep w.1 i).tcb.sndNxt
  change (connStep w.1 i).live = true at hlive'
  change ¬ NoData (connStep w.1 i).tcb.state at hnd
  cases hlive : w.1.live with
  | false =>
    rw [connStep_dead hlive, hlive] at hlive'
    cases hlive'
  | true =>
    have hstep := handle_send (w.1.env i) w.1.tcb i.2 (not_freed hlive hlive')
    have htcb : (connStep w.1 i).tcb = (handle (w.1.env i) w.1.tcb i.2).1.tcb := by
      rw [connStep_live hlive]
    rw [htcb] at hnd ⊢
    -- no step leads out of the states without data
    have hnd0 : ¬ NoData w.1.tcb.state := by
      intro h0
      refine hnd ?_
      cases hstep with
      | quiet acc snd count state adds => exact (quiet_noData state).mpr h0
      | opens p he ho state count snd adds =>
        rcases ho with ho | ho
        · simp only [opensActive, Bool.and_eq_true, decide_eq_true_eq] at ho
          exact absurd ho.1.1.1 h0.1
        · simp only [opensPassive, Bool.and_eq_true, decide_eq_true_eq] at ho
          exact absurd ho.1.1 h0.2.1
      | transmits c1 point adds1 snd count state adds => exact (quiet_noData state).mpr h0
      | closeWaitAck p he hr hst hn snd count state out => exact absurd hst h0.2.2.2
      | fin hf he snd count state adds =>
        rcases state with hs | hs <;> rw [hs] <;> simp [NoData]
      | finAgain hf he hst snd count state adds =>
        rw [state]
        simp [NoData]
    rw [h.top hlive hnd0]
    rcases sndNxt_forward hstep hc.stays hnd with e | ⟨n, hn0, hn, e⟩
    · rw [e, later_self]
    · rw [e, later_place _ hn0 hn]

theorem cursorOk_reach {w : Conn × Option Seq} (h : watched.Reach (fun w i => NeverBack w.1 i) w) :
    CursorOk w := by
  refine h.invariant (I := CursorOk) (fun w (hw : Opens w.1 ∧ w.2 = none) => ⟨sendOk_start hw.1, fun _ _ => ?_⟩)
    fun _ _ _ h hc => cursorOk_step h hc
  rw [highest, hw.2]
  rfl

theorem watched_start (ticksPerSec : Nat) : watched.start (plainClient ticksPerSec, none) :=
  ⟨plainClient_opens ticksPerSec, rfl⟩

/-- Two bytes in flight. -/
def twoInFlight : List (Env × Event) := [plainSynAck 8192, ({}, .send [97, 98])]

theorem twoInFlight_neverBack :
    watched.Along (fun w i => NeverBack w.1 i) (plainClient 1, none) twoInFlight := by
  refine ⟨⟨⟨fun t ht => ?_, ?_, ?_⟩, fun he => ?_⟩, ⟨⟨fun t ht => ?_, ?_, ?_⟩, fun he => ?_⟩, trivial⟩
  · cases ht with
    | ack hr hst => exact absurd hst (by decide)
    | dupAck hr hst => exact absurd hst (by decide)
  · exact fun p _ hst => absurd hst (by decide)
  · rintro p hp -
    cases hp
    rfl
  · cases he
  · cases ht
    exact .inl rfl
  · intro p hp
    cases hp
  · intro p hp
    cases hp
  · cases he

/-- Two bytes in flight, the window closes, and the retransmission timer runs out: `snd_nxt` goes
    back and nothing is sent. -/
def rewound : List (Env × Event) :=
  [plainSynAck 8192, ({}, .send [97, 98]),
    ({}, .packet (plainSegment { ack := true } 501 101 0 [])), ({}, .tick false)]

end Zigk.Tcp
