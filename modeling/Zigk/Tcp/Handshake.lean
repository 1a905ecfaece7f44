/-
  Subject:   WHAT ENDS A HANDSHAKE: which segments lead from SynSent and SynReceived to Established
             or close the connection.

  Only a segment that acknowledges the SYN of this side should (`AcksSyn`). SynReceived keeps to
  it; SynSent opens on a SYN without ACK, is closed by a SYN with another ACK and by any RST.

  * **`handshakeSafety`** -- the same in every reachable state for every event, and over whole
    runs; `handshakeSafety_refuted` -- a RST out of nowhere.
-/
import Zigk.Tcp.RecvSteps

namespace Zigk.Tcp

open Bool

/-! ## 1. One packet -/

/-- The segment acknowledges the SYN that the TCB sent. -/
def AcksSyn (t : Tcb) (p : Packet) : Prop := p.tcp.flags.ack = true ∧ p.tcp.ackNum = t.iss + 1

/-- The TCB waits for the acknowledgement of its SYN. -/
def Handshaking (s : TcpState) : Prop := s = .SynSent ∨ s = .SynReceived

instance : DecidablePred Handshaking := fun s =>
  inferInstanceAs (Decidable (s = .SynSent ∨ s = .SynReceived))

/-- A SYN or a RST that reaches a TCB in SynSent acknowledges its SYN. -/
def AcksInSynSent (t : Tcb) (p : Packet) : Prop :=
  t.state = .SynSent → p.valid = true → t.closing = false →
    p.tcp.flags.rst = true ∨ p.tcp.flags.syn = true → AcksSyn t p

section Packet

variable (env : Env) {t : Tcb} {p : Packet}

/-- The packet ends the handshake: the TCB is established, closed or freed. -/
def EndsHandshake (r : Ctx × RxAction) : Prop :=
  r.1.tcb.state = .Established ∨ r.1.tcb.state = .Closed ∨ r.2 = .FreeTcb

/-- In SynReceived only the acknowledgement of the SYN-ACK ends the handshake. -/
theorem synReceived_ends (hs : t.state = .SynReceived)
    (h : EndsHandshake (processPacket env { tcb := t } p)) : AcksSyn t p := by
  have stay : ∀ c : Ctx, c.tcb.state = .SynReceived → ¬ EndsHandshake (c, .Continue) := by
    intro c hc hend
    rcases hend with hend | hend | hend
    · rw [hc] at hend
      cases hend
    · rw [hc] at hend
      cases hend
    · cases hend
  unfold processPacket at h
  split at h
  · unfold processSegment at h
    split at h
    · exact absurd h (stay _ hs)
    simp only at h
    unfold processSynReceivedLocked at h
    cases ha : p.tcp.flags.ack with
    | false =>
      simp only [ha, Bool.not_false, if_true, false_eq_true, if_false] at h
      exact absurd h (stay _ hs)
    | true =>
      simp only [ha, Bool.not_true, false_eq_true, if_false] at h
      by_cases hn : p.tcp.ackNum = t.iss + 1
      · exact ⟨ha, hn⟩
      · rw [if_pos hn] at h
        exact absurd h (stay _ hs)
  · exact absurd h (stay _ hs)

/-- In SynSent a RST, and a SYN with another acknowledgement or none, end it as well. -/
theorem synSent_ends_iff (hs : t.state = .SynSent) :
    EndsHandshake (processPacket env { tcb := t } p) ↔
      p.valid = true ∧ t.closing = false ∧ (p.tcp.flags.rst = true ∨ p.tcp.flags.syn = true) := by
  have stay : ¬ EndsHandshake (({ tcb := t } : Ctx), .Continue) := by
    intro hend
    rcases hend with hend | hend | hend
    · exact absurd (hs.symm.trans hend) (by decide)
    · exact absurd (hs.symm.trans hend) (by decide)
    · cases hend
  unfold processPacket
  cases hv : p.valid with
  | false => exact ⟨fun h => absurd h stay, fun h => absurd h.1 (by decide)⟩
  | true =>
  rw [if_pos rfl]
  unfold processSegment
  cases hc : t.closing with
  | true => exact ⟨fun h => absurd h stay, fun h => absurd h.2.1 (by decide)⟩
  | false =>
  rw [if_neg (by decide), if_neg (by rw [hs]; decide), processEstablishedPacket, if_pos hs]
  cases hr : p.tcp.flags.rst with
  | true =>
    rw [if_pos rfl]
    exact ⟨fun _ => ⟨rfl, rfl, .inl rfl⟩, fun _ => .inr (.inr rfl)⟩
  | false =>
  rw [if_neg (by decide)]
  unfold processSynSent
  cases hsyn : p.tcp.flags.syn with
  | false =>
    refine ⟨fun h => absurd h stay, fun h => ?_⟩
    rcases h.2.2 with h | h <;> cases h
  | true =>
    refine ⟨fun _ => ⟨rfl, rfl, .inr rfl⟩, fun _ => ?_⟩
    simp only [Bool.not_true, false_eq_true, if_false]
    split
    · exact .inr (.inr rfl)
    left
    refine (congrArg Core.state (sendAck_core env _)).trans ?_
    refine (congrArg Core.state (wakeBlocked_core _)).trans ?_
    exact congrArg Tcb.state (completePendingConnect_tcb _ true)

/-- **The handshake ends by an acknowledgement of the SYN, exactly where a SYN or RST in SynSent
    carries one.** -/
theorem handshake_iff (hs : Handshaking t.state) :
    (EndsHandshake (processPacket env { tcb := t } p) → AcksSyn t p) ↔ AcksInSynSent t p := by
  rcases hs with hs | hs
  · rw [synSent_ends_iff env hs]
    exact ⟨fun h _ hv hc hf => h ⟨hv, hc, hf⟩, fun h he => h hs he.1 he.2.1 he.2.2⟩
  · refine ⟨fun _ hsyn => ?_, fun _ he => synReceived_ends env hs he⟩
    rw [hs] at hsyn
    cases hsyn

end Packet

/-! ## 2. Every event, every run -/

/-- The step keeps the rule: Established is entered only by a segment that acknowledges the SYN, and
    no other segment closes a TCB in the handshake. -/
structure KeepsHandshake (env : Env) (t : Tcb) (e : Event) : Prop where
  enters : (handle env t e).2 = false → (handle env t e).1.tcb.state = .Established →
    t.state ≠ .Established → ∃ p, e = .packet p ∧ AcksSyn t p
  closes : ∀ p, e = .packet p → Handshaking t.state →
    (handle env t e).2 = true ∨ (handle env t e).1.tcb.state = .Closed → AcksSyn t p

theorem handle_packet_freed (env : Env) (t : Tcb) (p : Packet) :
    (handle env t (.packet p)).2 = true ↔ (processPacket env { tcb := t } p).2 = .FreeTcb := by
  simp [handle]

/-- Established is entered from the handshake, by a packet. -/
theorem enters_from {env : Env} {t : Tcb} {e : Event} (hf : (handle env t e).2 = false)
    (h : (handle env t e).1.tcb.state = .Established) (hn : t.state ≠ .Established) :
    Handshaking t.state ∧ ∃ p, e = .packet p := by
  rcases handle_state hf with (hq | ⟨-, hq⟩ | ⟨-, hq⟩) | ⟨p, he, ho, -⟩ | hq | hq
  · exact absurd (hq.symm.trans h) hn
  · rw [h] at hq
    cases hq
  · exact absurd h hq.2.2.1
  · refine ⟨?_, p, he⟩
    rcases ho with ho | ho
    · simp only [opensActive, and_eq_true, decide_eq_true_eq] at ho
      exact .inl ho.1.1.1
    · simp only [opensPassive, and_eq_true, decide_eq_true_eq] at ho
      exact .inr ho.1.1
  · rw [h] at hq
    cases hq
  · rw [h] at hq
    cases hq

theorem keepsHandshake_iff (env : Env) (t : Tcb) (e : Event) :
    KeepsHandshake env t e ↔ ∀ p, e = .packet p → AcksInSynSent t p := by
  constructor
  · rintro h p rfl hs
    refine (handshake_iff env (.inl hs)).mp (fun hend => ?_) hs
    by_cases hf : (handle env t (.packet p)).2 = true
    · exact h.closes p rfl (.inl hs) (.inl hf)
    rw [Bool.not_eq_true] at hf
    rcases hend with he | he | he
    · obtain ⟨p', hp', ha⟩ := h.enters hf he (by rw [hs]; decide)
      cases hp'
      exact ha
    · exact h.closes p rfl (.inl hs) (.inr he)
    · rw [(handle_packet_freed env t p).mpr he] at hf
      cases hf
  · intro h
    refine ⟨fun hf hest hn => ?_, ?_⟩
    · obtain ⟨hs, p, rfl⟩ := enters_from hf hest hn
      exact ⟨p, rfl, (handshake_iff env hs).mpr (h p rfl) (.inl hest)⟩
    · rintro p rfl hs hend
      refine (handshake_iff env hs).mpr (h p rfl) (.inr ?_)
      exact hend.symm.imp id (handle_packet_freed env t p).mp

/-- The acknowledgement that a segment carries. -/
def ackOf (p : Packet) : Option Seq := if p.tcp.flags.ack then some p.tcp.ackNum else none

theorem ackOf_eq {t : Tcb} {p : Packet} (h : AcksSyn t p) : ackOf p = some (t.iss + 1) := by
  rw [ackOf, if_pos h.1, h.2]

/-- For every packet that ended a handshake: the acknowledgement it should have carried, and the
    one it did. -/
def noteHandshake (h : List (Seq × Option Seq)) (k : Conn) (i : Env × Event) :
    List (Seq × Option Seq) :=
  match i.2 with
  | .packet p =>
    if k.live = true ∧ Handshaking k.tcb.state ∧
        ((connStep k i).tcb.state = .Established ∨ (connStep k i).tcb.state = .Closed ∨
          (handle (k.env i) k.tcb i.2).2 = true) then
      h ++ [(k.tcb.iss + 1, ackOf p)]
    else h
  | _ => h

/-- The connection with its record of ended handshakes. -/
def handshakeWatched : Machine (Conn × List (Seq × Option Seq)) (Env × Event) :=
  connection.track [] noteHandshake

/-- Every SYN and RST in SynSent acknowledges the SYN. -/
def HandshakeAcked (k : Conn) (i : Env × Event) : Prop :=
  ∀ p, i.2 = .packet p → AcksInSynSent k.tcb p

/-- What a run keeps: every record is right, and an established connection has one. -/
structure HandshakeRun (w : Conn × List (Seq × Option Seq)) : Prop where
  right : ∀ x ∈ w.2, x.2 = some x.1
  recorded : w.1.live = true → w.1.tcb.state = .Established → w.2 ≠ []

theorem handshakeRun_start {w : Conn × List (Seq × Option Seq)} (h : handshakeWatched.start w) :
    HandshakeRun w := by
  obtain ⟨st, iss, irs, rcvNxt, sackOk, parent, hst, hcore⟩ := h.1.fresh.core
  have hs : w.1.tcb.state = st := congrArg Core.state hcore
  refine ⟨by rw [show w.2 = [] from h.2]; simp, fun _ he => ?_⟩
  rw [hs] at he
  rcases hst with rfl | ⟨rfl, -⟩ <;> cases he

theorem handshakeRun_step {w : Conn × List (Seq × Option Seq)} {i : Env × Event}
    (h : HandshakeRun w) (hc : HandshakeAcked w.1 i) : HandshakeRun (handshakeWatched.step w i) := by
  have hkeep := (keepsHandshake_iff (w.1.env i) w.1.tcb i.2).mpr hc
  have hstep : w.1.live = true → (connStep w.1 i).tcb = (handle (w.1.env i) w.1.tcb i.2).1.tcb := by
    intro hlive
    rw [connStep_live hlive]
  refine ⟨?_, fun hlive' hest => ?_⟩
  · show ∀ x ∈ noteHandshake w.2 w.1 i, x.2 = some x.1
    obtain ⟨env, e⟩ := i
    cases e with
    | packet p =>
      simp only [noteHandshake]
      split
      · rename_i hend
        obtain ⟨hlive, hs, hend⟩ := hend
        intro x hx
        rcases List.mem_append.mp hx with hx | hx
        · exact h.right x hx
        rw [List.mem_singleton.mp hx]
        refine ackOf_eq ((handshake_iff (w.1.env (env, .packet p)) hs).mpr (hc p rfl) ?_)
        rw [hstep hlive] at hend
        exact hend.imp id (Or.imp id (handle_packet_freed _ _ _).mp)
      · exact h.right
    | send | recv | shutdown | close | setsockopt | block | tick | icmp => exact h.right
  change (connStep w.1 i).live = true at hlive'
  change (connStep w.1 i).tcb.state = .Established at hest
  show noteHandshake w.2 w.1 i ≠ []
  cases hlive : w.1.live with
  | false =>
    rw [connStep_dead hlive, hlive] at hlive'
    cases hlive'
  | true =>
    have hgrow : w.2 ≠ [] → noteHandshake w.2 w.1 i ≠ [] := by
      intro hne
      unfold noteHandshake
      split
      · split
        · simp
        · exact hne
      · exact hne
    by_cases hs : w.1.tcb.state = .Established
    · exact hgrow (h.recorded hlive hs)
    have hf := not_freed hlive hlive'
    have hest' := hest
    rw [hstep hlive] at hest'
    obtain ⟨hh, p, hp⟩ := enters_from hf hest' hs
    unfold noteHandshake
    rw [hp]
    simp only
    rw [if_pos ⟨hlive, hh, .inl hest⟩]
    simp

/-- **Only an acknowledgement of the SYN ends a handshake.** In every state every event keeps to it
    exactly where a SYN or a RST in SynSent carries that acknowledgement; and in a run in which they
    all do, every handshake ended so, that of an established connection among them. -/
theorem handshakeSafety (k : Conn) (i : Env × Event) :
    (KeepsHandshake (k.env i) k.tcb i.2 ↔ HandshakeAcked k i) ∧
    ∀ w, handshakeWatched.Reach (fun w i => HandshakeAcked w.1 i) w →
      (∀ x ∈ w.2, x.2 = some x.1) ∧ (w.1.live = true → w.1.tcb.state = .Established → w.2 ≠ []) := by
  refine ⟨keepsHandshake_iff (k.env i) k.tcb i.2, fun w hw => ?_⟩
  have hrun := hw.invariant (I := HandshakeRun) (fun _ h => handshakeRun_start h)
    fun _ _ _ h hc => handshakeRun_step h hc
  exact ⟨hrun.right, hrun.recorded⟩

/-- The client after its SYN, and the SYN-ACK with the right acknowledgement. -/
theorem handshakeSafety_synAck :
    KeepsHandshake ((plainClient 1000).env (plainSynAck 8192)) (plainClient 1000).tcb
      (plainSynAck 8192).2 := by
  refine (handshakeSafety (plainClient 1000) (plainSynAck 8192)).1.mpr ?_
  intro p hp _ _ _ _
  cases hp
  exact ⟨rfl, by decide +kernel⟩

/-- **Not every event keeps to it**: a RST that acknowledges nothing frees the TCB in SynSent. -/
theorem handshakeSafety_refuted :
    ¬ ∀ k, connection.Reachable k → k.live = true → ∀ i, KeepsHandshake (k.env i) k.tcb i.2 := by
  intro h
  have hrun := h _ (.start (plainClient_opens 1000)) rfl
    ({}, .packet (plainSegment { rst := true } 77 0 0 []))
  have hack := hrun.closes (plainSegment { rst := true } 77 0 0 []) rfl (.inl (by decide +kernel))
    (.inl (by decide +kernel))
  cases hack.1

end Zigk.Tcp
