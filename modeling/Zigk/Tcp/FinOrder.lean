/-
  Subject:   WHEN A FIN OF THE PEER IS STEPPED OVER, and when it should be.

  A FIN stands behind the last byte of its segment. The handlers of Established, FinWait1 and
  FinWait2 step over it wherever `rcv_nxt` stands; they are right only where the data they take
  ends in front of it (`FinReached`):

  * `DataEnd` -- where `rcv_nxt` stands after the data of a segment: unmoved, or behind the
    in-order bytes that fit and the stored blocks that follow on;
  * **`finOrder`** -- in every reachable state a FIN is taken in its place exactly under
    `FinReached`, and in a run whose steps meet it every FIN was; `finOrder_refuted` -- a FIN that
    overtakes the data before it.
-/
import Zigk.Tcp.OutOfOrder

namespace Zigk.Tcp

open Serial (dist place)

/-! ## 1. Where the data of a segment ends -/

/-- The states in which the peer may still send. -/
def MaySend (s : TcpState) : Prop := s = .Established ∨ s = .FinWait1 ∨ s = .FinWait2

instance : DecidablePred MaySend := fun s =>
  inferInstanceAs (Decidable (s = .Established ∨ s = .FinWait1 ∨ s = .FinWait2))

/-- `DataEnd env t p n`: taking what it takes of the segment's data leaves `rcv_nxt` at `n`. -/
inductive DataEnd (env : Env) (t : Tcb) (p : Packet) : Seq → Prop where
  | idle (h : t.state ≠ .Established ∨ p.seen = [] ∨ p.tcp.seqNum ≠ t.rcvNxt) :
      DataEnd env t p t.rcvNxt
  | inOrder (hs : t.state = .Established) (hd : p.seen ≠ []) (hq : p.tcp.seqNum = t.rcvNxt)
      (l : List OooBlock)
      (h : Drains t.oooBlocks (takeData env t p.seen).rcvNxt (takeData env t p.seen).recv.used l) :
      DataEnd env t p (place t.rcvNxt (takeLen env t p.seen + (blockData l).length))

theorem DataEnd.unique {env : Env} {t : Tcb} {p : Packet} {n n' : Seq} (hq : QueueOk t.oooBlocks)
    (h : DataEnd env t p n) (h' : DataEnd env t p n') : n = n' := by
  cases h with
  | idle h =>
    cases h' with
    | idle h' => rfl
    | inOrder hs hd hn l hl =>
      rcases h with h | h | h
      · exact absurd hs h
      · exact absurd h hd
      · exact absurd hn h
  | inOrder hs hd hn l hl =>
    cases h' with
    | idle h =>
      rcases h with h | h | h
      · exact absurd hs h
      · exact absurd h hd
      · exact absurd hn h
    | inOrder hs' hd' hn' l' hl' => rw [hl.unique hq (.refl _) hl']

/-- The number of the FIN of a segment: behind its last byte. -/
def finNumber (p : Packet) : Seq := place p.tcp.seqNum p.payload.length

/-- The data ends in front of the FIN; or the handler of Established does not come to the FIN, as
    the IP header announces less than its own length. -/
def FinReached (env : Env) (t : Tcb) (p : Packet) : Prop :=
  (t.state = .Established ∧ p.ip.getTotalLength < p.ip.getHeaderLength) ∨
    DataEnd env t p (finNumber p)

/-! ## 2. What the handlers do -/

/-- **A segment in one of these states**: without FIN the peer may go on sending; with FIN
    `rcv_nxt` steps on by one from where the data ended. -/
theorem packet_fin (env : Env) {t : Tcb} {p : Packet} (hq : QueueOk t.oooBlocks)
    (hs : MaySend t.state) (hr : reachesHandler t p = true) :
    let t' := (processPacket env { tcb := t } p).1.tcb
    (MaySend t'.state ∧
        (p.tcp.flags.fin = false ∨ t.state = .Established ∧ p.ip.getTotalLength < p.ip.getHeaderLength)) ∨
      (¬ MaySend t'.state ∧ p.tcp.flags.fin = true ∧
        ¬ (t.state = .Established ∧ p.ip.getTotalLength < p.ip.getHeaderLength) ∧
        ∃ n, DataEnd env t p n ∧ t'.rcvNxt = n + 1) := by
  intro t'
  by_cases he : t.state = .Established
  · rcases established_recv env hr he hq with ⟨hlen, -, hst, -⟩ | ⟨hlen, t1, hd, hf, -⟩
    · exact .inl ⟨.inl hst, .inr ⟨he, hlen⟩⟩
    cases hf with
    | stays hfin rcv state => exact .inl ⟨.inl state, .inl hfin⟩
    | fin hfin rcv state =>
      have hnot : ¬ MaySend t'.state := by
        rw [show t'.state = .CloseWait from state]
        decide
      have hnxt : t'.rcvNxt = t1.rcvNxt + 1 := congrArg RecvCore.rcvNxt rcv
      refine .inr ⟨hnot, hfin, by omega, ?_⟩
      cases hd with
      | empty hd rcv1 =>
        have h1 : t1.rcvNxt = t.rcvNxt := congrArg RecvCore.rcvNxt rcv1
        exact ⟨_, .idle (.inr (.inl hd)), by rw [hnxt, h1]⟩
      | refused hd hn rcv1 | stored hd hn st rcv1 =>
        have h1 : t1.rcvNxt = t.rcvNxt := congrArg RecvCore.rcvNxt rcv1
        exact ⟨_, .idle (.inr (.inr hn)), by rw [hnxt, h1]⟩
      | taken hd hn l rest drains perm rcv1 =>
        have h1 : t1.rcvNxt = place (takeData env t p.seen).rcvNxt (blockData l).length :=
          congrArg RecvCore.rcvNxt rcv1
        refine ⟨_, .inOrder he hd hn l drains, ?_⟩
        rw [hnxt, h1, takeData, Serial.place_place]
  have hcw : t.state ≠ .CloseWait := by
    rcases hs with hs | hs | hs <;> rw [hs] <;> decide
  have hcore := noteTimestamp_core t p
  have hst : (noteTimestamp t p).state = t.state := congrArg Core.state hcore
  have hnxt : (noteTimestamp t p).rcvNxt = t.rcvNxt := congrArg (·.rcv.rcvNxt) hcore
  have hd := (dispatch_closing env { tcb := noteTimestamp t p } p (by rw [hst]; exact he)
    (by rw [hst]; exact hcw)).1
  have e : t' = (dispatch env { tcb := noteTimestamp t p } p).1.tcb :=
    congrArg (·.1.tcb) (processPacket_handler env (c := { tcb := t }) hr)
  rw [← e] at hd
  have hstate : t'.state = nextState (noteTimestamp t p) p := congrArg Core.state hd
  have hrcv : t'.rcvNxt = if takesFin (noteTimestamp t p) p then (noteTimestamp t p).rcvNxt + 1
      else (noteTimestamp t p).rcvNxt := congrArg (·.rcv.rcvNxt) hd
  have hwait : t.state = .FinWait1 ∨ t.state = .FinWait2 := hs.resolve_left he
  cases hfin : p.tcp.flags.fin with
  | false =>
    refine .inl ⟨?_, .inl rfl⟩
    rw [hstate]
    rcases hwait with hw | hw <;> simp only [nextState, hst, hw, hfin] <;>
      cases acksAll (noteTimestamp t p) p <;> decide
  | true =>
    have ht : takesFin (noteTimestamp t p) p = true := by
      rw [takesFin, hst, hfin, decide_eq_true hwait]
      rfl
    refine .inr ⟨?_, rfl, fun h => he h.1, _, .idle (.inl he), ?_⟩
    · rw [hstate]
      rcases hwait with hw | hw <;> simp only [nextState, hst, hw, hfin] <;>
        cases acksAll (noteTimestamp t p) p <;> decide
    · rw [hrcv, ht, if_pos rfl, hnxt]

/-- **A FIN is taken in its place exactly where the data ends in front of it.** -/
theorem finReached_iff (env : Env) {t : Tcb} {p : Packet} (hq : QueueOk t.oooBlocks)
    (hs : MaySend t.state) (hr : reachesHandler t p = true) (hf : p.tcp.flags.fin = true) :
    (¬ MaySend (processPacket env { tcb := t } p).1.tcb.state →
        (processPacket env { tcb := t } p).1.tcb.rcvNxt = finNumber p + 1) ↔
      FinReached env t p := by
  rcases packet_fin env hq hs hr with ⟨hstay, hwhy⟩ | ⟨hleave, -, hnot, n, hn, hnxt⟩
  · refine ⟨fun _ => .inl ?_, fun _ h => absurd hstay h⟩
    rcases hwhy with h | h
    · rw [hf] at h
      cases h
    · exact h
  rw [hnxt]
  constructor
  · intro h
    have e : n = finNumber p := by simpa using h hleave
    exact .inr (e ▸ hn)
  · rintro (h | h) _
    · exact absurd h hnot
    · rw [hn.unique hq h]

/-- A packet that is not handed to the handler, and does not free the TCB, leaves the state. -/
theorem packet_other_state (env : Env) {t : Tcb} {p : Packet} (hs : MaySend t.state)
    (hr : reachesHandler t p = false) (h : (processPacket env { tcb := t } p).2 = .Continue) :
    (processPacket env { tcb := t } p).1.tcb.state = t.state := by
  rcases processPacket_other env { tcb := t } p hr with
    ⟨-, hcore, -⟩ | ⟨hf, -⟩ | ⟨ho, -⟩ | ⟨ho, -⟩
  · exact congrArg Core.state hcore
  · rw [h] at hf
    cases hf
  · simp only [opensActive, Bool.and_eq_true, decide_eq_true_eq] at ho
    rcases hs with hs | hs | hs <;>
    · rw [hs] at ho
      cases ho.1.1.1
  · simp only [opensPassive, Bool.and_eq_true, decide_eq_true_eq] at ho
    rcases hs with hs | hs | hs <;>
    · rw [hs] at ho
      cases ho.1.1

/-! ## 3. Runs -/

/-- The step takes a FIN: a packet leads out of the states in which the peer may send, and the
    connection lives on. -/
def TakesFin (k : Conn) (p : Packet) (k' : Conn) : Prop :=
  k.live = true ∧ k'.live = true ∧ MaySend k.tcb.state ∧ ¬ MaySend k'.tcb.state ∧
    p.tcp.flags.fin = true

instance (k : Conn) (p : Packet) (k' : Conn) : Decidable (TakesFin k p k') :=
  inferInstanceAs (Decidable (_ ∧ _ ∧ _ ∧ _ ∧ _))

/-- For every FIN taken: where it stood, and where `rcv_nxt` stepped to. -/
def noteFin (h : List (Seq × Seq)) (k : Conn) (i : Env × Event) : List (Seq × Seq) :=
  match i.2 with
  | .packet p =>
    if TakesFin k p (connStep k i) then h ++ [(finNumber p, (connStep k i).tcb.rcvNxt)] else h
  | _ => h

/-- The connection with its record of FINs. -/
def finWatched : Machine (Conn × List (Seq × Seq)) (Env × Event) := connection.track [] noteFin

/-- Every segment with FIN that the handler sees in one of these states ends there. -/
def FinsReached (k : Conn) (i : Env × Event) : Prop :=
  ∀ p, i.2 = .packet p → MaySend k.tcb.state → reachesHandler k.tcb p = true →
    p.tcp.flags.fin = true → FinReached (k.env i) k.tcb p

/-- The tcb after a packet, in a live connection. -/
theorem connStep_packet {k : Conn} (env : Env) (p : Packet) (h : k.live = true) :
    (connStep k (env, .packet p)).tcb =
      (processPacket (k.env (env, .packet p)) { tcb := k.tcb } p).1.tcb := by
  rw [connStep_live h]
  rfl

theorem noteFin_step {k : Conn} {l : List (Seq × Seq)} {i : Env × Event} (hk : connection.Reachable k)
    (hl : ∀ x ∈ l, x.2 = x.1 + 1) (hc : FinsReached k i) : ∀ x ∈ noteFin l k i, x.2 = x.1 + 1 := by
  obtain ⟨env, e⟩ := i
  cases e with
  | packet p =>
    simp only [noteFin]
    split
    · rename_i ht
      obtain ⟨hlive, hlive', hs, hs', hf⟩ := ht
      intro x hx
      rcases List.mem_append.mp hx with hx | hx
      · exact hl x hx
      rw [List.mem_singleton.mp hx]
      have hq := queueOk_reach hk hlive
      rw [connStep_packet env p hlive] at hs' ⊢
      cases hr : reachesHandler k.tcb p with
      | true => exact (finReached_iff _ hq hs hr hf).mpr (hc p rfl hs hr hf) hs'
      | false =>
        have hcont : (processPacket (k.env (env, .packet p)) { tcb := k.tcb } p).2 = .Continue := by
          have hnf := not_freed hlive hlive'
          cases ha : (processPacket (k.env (env, .packet p)) { tcb := k.tcb } p).2 with
          | Continue => rfl
          | FreeTcb =>
            simp only [handle, ha] at hnf
            cases hnf
        rw [packet_other_state _ hs hr hcont] at hs'
        exact absurd hs hs'
    · exact hl
  | send | recv | shutdown | close | setsockopt | block | tick | icmp => exact hl

/-- **A FIN is taken in its place.** In every reachable state this is so of a segment exactly under
    `FinReached`; and in a run whose segments all meet it, `rcv_nxt` stepped over every FIN from
    where the FIN stood. -/
theorem finOrder {w : Conn × List (Seq × Seq)} (h : finWatched.Reachable w) :
    (w.1.live = true → MaySend w.1.tcb.state → ∀ env p, reachesHandler w.1.tcb p = true →
      p.tcp.flags.fin = true →
      ((¬ MaySend (connStep w.1 (env, .packet p)).tcb.state →
          (connStep w.1 (env, .packet p)).tcb.rcvNxt = finNumber p + 1) ↔
        FinReached (w.1.env (env, .packet p)) w.1.tcb p)) ∧
    (finWatched.Reach (fun w i => FinsReached w.1 i) w → ∀ x ∈ w.2, x.2 = x.1 + 1) := by
  refine ⟨fun hlive hs env p hr hf => ?_, fun hw => ?_⟩
  · rw [connStep_packet env p hlive]
    exact finReached_iff _ (queueOk_reach (Machine.Reach.forget h) hlive) hs hr hf
  refine hw.invariant (I := fun w => ∀ x ∈ w.2, x.2 = x.1 + 1) (fun w h0 => ?_)
    fun w i hr hi hc => noteFin_step ((Machine.Reach.forget hr).reachable) hi hc
  rw [show w.2 = [] from h0.2]
  simp

/-- A FIN without data. -/
def plainFin (seq : Seq) : Packet := plainSegment { ack := true, fin := true } seq 101 8192 []

/-- A client whose handshake is done. -/
def openedClient : Conn × List (Seq × Seq) := finWatched.exec (plainClient 1000, []) [plainSynAck 8192]

/-- A FIN right behind the SYN-ACK is taken in its place. -/
theorem finOrder_orderly :
    (connStep openedClient.1 ({}, .packet (plainFin 501))).tcb.rcvNxt = finNumber (plainFin 501) + 1 := by
  have hstart : finWatched.start (plainClient 1000, []) := ⟨plainClient_opens 1000, rfl⟩
  have hreach : finWatched.Reachable openedClient := .exec (.start hstart) [plainSynAck 8192]
  refine ((finOrder hreach).1 (by decide +kernel) (by decide +kernel) {} (plainFin 501)
    (by decide +kernel) rfl).mpr (.inr ?_) (by decide +kernel)
  have e : finNumber (plainFin 501) = openedClient.1.tcb.rcvNxt := by decide +kernel
  rw [e]
  exact .idle (.inr (.inl (by decide +kernel)))

/-- **Not every FIN is taken in its place**: four bytes are still missing in front of this one. -/
theorem finOrder_refuted :
    ¬ ∀ k, connection.Reachable k → k.live = true → MaySend k.tcb.state → ∀ env p,
        reachesHandler k.tcb p = true → p.tcp.flags.fin = true →
        ¬ MaySend (connStep k (env, .packet p)).tcb.state →
          (connStep k (env, .packet p)).tcb.rcvNxt = finNumber p + 1 := by
  intro h
  have hrun := h _ (.exec (.start (plainClient_opens 1000)) [plainSynAck 8192]) (by decide +kernel)
    (by decide +kernel) {} (plainFin 505) (by decide +kernel) rfl (by decide +kernel)
  exact absurd hrun (by decide +kernel)

end Zigk.Tcp
