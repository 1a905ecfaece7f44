/-
  Subject:   DATA FOR A HALF-CLOSED CONNECTION: what FinWait1 and FinWait2 do with segments that
             Established would take.

  * `receiveAll` -- a sequence of packets on a connection; `establishedAll` -- the same segments in
    the hands of `processEstablished`;
  * **`halfClose`** -- that is so exactly where no segment brings in-order data: `processFinWait1`
    and `processFinWait2` look at the acknowledgement and the FIN and never at the payload.
-/
import Zigk.Tcp.Window

namespace Zigk.Tcp

open List

open Serial (dist place)

/-! ## 1. Sequences of segments -/

def receiveAll (t : Tcb) : List (Env × Packet) → Tcb
  | [] => t
  | i :: l => receiveAll (processPacket i.1 { tcb := t } i.2).1.tcb l

/-- The segments as `processEstablished` would take them. -/
def establishedAll (t : Tcb) : List (Env × Packet) → Tcb
  | [] => t
  | i :: l => establishedAll (processEstablished i.1 { tcb := t } i.2).tcb l

/-- Every segment is acceptable where it arrives, and the peer's FIN is still to come. -/
def AcceptableData (t : Tcb) : List (Env × Packet) → Prop
  | [] => True
  | i :: l =>
    reachesHandler t i.2 = true ∧ i.2.tcp.flags.fin = false ∧
      AcceptableData (processPacket i.1 { tcb := t } i.2).1.tcb l

instance decidableAcceptableData : (t : Tcb) → (l : List (Env × Packet)) →
    Decidable (AcceptableData t l)
  | _, [] => .isTrue trivial
  | t, i :: l =>
    have := decidableAcceptableData (processPacket i.1 { tcb := t } i.2).1.tcb l
    inferInstanceAs (Decidable (reachesHandler t i.2 = true ∧ i.2.tcp.flags.fin = false ∧
      AcceptableData (processPacket i.1 { tcb := t } i.2).1.tcb l))

/-- **The connection receives exactly as it would in Established**: after every beginning of the
    sequence the same bytes are stored and the same number is next. -/
def ReceivesAsEstablished (t : Tcb) (l : List (Env × Packet)) : Prop :=
  ∀ l' l'', l = l' ++ l'' → (receiveAll t l').rcvNxt = (establishedAll t l').rcvNxt ∧
      (receiveAll t l').recv = (establishedAll t l').recv

/-- The segment carries data from `rcv_nxt` on. -/
def inOrderData (t : Tcb) (p : Packet) : Bool :=
  decide (p.ip.getHeaderLength ≤ p.ip.getTotalLength) && decide (p.seen ≠ []) &&
    decide (p.tcp.seqNum = t.rcvNxt)

theorem establishedAll_append (t : Tcb) (l l' : List (Env × Packet)) :
    establishedAll t (l ++ l') = establishedAll (establishedAll t l) l' := by
  induction l generalizing t with
  | nil => rfl
  | cons i l ih => exact ih _

/-! ## 2. What one segment does on either side -/

/-- **In FinWait1 and FinWait2 a segment without FIN leaves the receive stream alone**, whatever it
    carries. -/
theorem finWait_receives (env : Env) {t : Tcb} {p : Packet}
    (hs : t.state = .FinWait1 ∨ t.state = .FinWait2) (hr : reachesHandler t p = true)
    (hf : p.tcp.flags.fin = false) :
    (processPacket env { tcb := t } p).1.tcb.core.rcv = t.core.rcv ∧
      ((processPacket env { tcb := t } p).1.tcb.state = .FinWait1 ∨
        (processPacket env { tcb := t } p).1.tcb.state = .FinWait2) := by
  have hcore := noteTimestamp_core t p
  have hst : (noteTimestamp t p).state = t.state := congrArg Core.state hcore
  have hne : t.state ≠ .Established ∧ t.state ≠ .CloseWait := by
    rcases hs with hs | hs <;> rw [hs] <;> decide
  obtain ⟨hd, -⟩ := dispatch_closing env { tcb := noteTimestamp t p } p
    (by rw [hst]; exact hne.1) (by rw [hst]; exact hne.2)
  have hno : takesFin (noteTimestamp t p) p = false := by rw [takesFin, hf, Bool.false_and]
  rw [processPacket_handler env (c := { tcb := t }) hr]
  change (dispatch env { tcb := noteTimestamp t p } p).1.tcb.core.rcv = t.core.rcv ∧ _
  rw [hno] at hd
  constructor
  · rw [hd]
    exact (congrArg Core.rcv hcore :)
  · have hnext : (dispatch env { tcb := noteTimestamp t p } p).1.tcb.state =
        nextState (noteTimestamp t p) p := congrArg Core.state hd
    change (dispatch env { tcb := noteTimestamp t p } p).1.tcb.state = .FinWait1 ∨
      (dispatch env { tcb := noteTimestamp t p } p).1.tcb.state = .FinWait2
    rw [hnext, nextState, hst]
    rcases hs with hs | hs <;> rw [hs] <;> simp only [hf, Bool.false_eq_true, if_false]
    · split
      · exact .inr rfl
      · exact .inl rfl
    · exact .inr trivial

/-- **In Established the same segment brings its in-order data in.** -/
theorem established_receives (env : Env) {t : Tcb} {p : Packet} (hq : QueueOk t.oooBlocks)
    (hf : p.tcp.flags.fin = false) :
    QueueOk (processEstablished env { tcb := t } p).tcb.oooBlocks ∧ (inOrderData t p = false →
        (processEstablished env { tcb := t } p).tcb.rcvNxt = t.rcvNxt ∧
          (processEstablished env { tcb := t } p).tcb.recv = t.recv) ∧
      (inOrderData t p = true →
        (processEstablished env { tcb := t } p).tcb.rcvNxt ≠ t.rcvNxt) := by
  obtain ⟨c1, h1, -, hcase⟩ := processEstablished_cases env { tcb := t } p
  obtain ⟨⟨snd, hsnd⟩, -⟩ := ackPhase_keeps env (Ctx.upd { tcb := t } fun t => sackPhase t p) p
  have hrcv : c1.tcb.core.rcv = t.core.rcv := by
    rw [h1, hsnd]
    exact (congrArg Core.rcv (sackPhase_core t p) :)
  have hq1 : QueueOk c1.tcb.oooBlocks := by
    rw [show c1.tcb.oooBlocks = t.oooBlocks from congrArg RecvCore.oooBlocks hrcv]
    exact hq
  rcases hcase with ⟨hlen, e⟩ | ⟨hlen, e⟩
  · have hno : inOrderData t p = false := by
      simp only [inOrderData, Bool.and_eq_false_iff, decide_eq_false_iff_not]
      exact .inl (.inl (by omega))
    rw [e]
    refine ⟨hq1, fun _ => ⟨congrArg RecvCore.rcvNxt hrcv, congrArg RecvCore.recv hrcv⟩, fun h => ?_⟩
    rw [hno] at h
    cases h
  obtain ⟨hdata, -⟩ := dataPhase_step env hrcv hq p
  have hfin : (processEstablished env { tcb := t } p).tcb.core.rcv =
      (dataPhase env c1 p).1.tcb.core.rcv := by
    rw [e]
    rcases finPhase_cases env (dataPhase env c1 p).1 p (dataPhase env c1 p).2 with
      ⟨hft, -⟩ | ⟨-, hc, -⟩
    · rw [hf] at hft
      cases hft
    · exact congrArg Core.rcv hc
  generalize hc' : (processEstablished env { tcb := t } p).tcb = t' at hfin ⊢
  generalize (dataPhase env c1 p).1.tcb = t1 at hdata hfin
  have hq' : QueueOk t'.oooBlocks := by
    rw [show t'.oooBlocks = t1.oooBlocks from congrArg RecvCore.oooBlocks hfin]
    exact queueOk_data hq hdata
  have hnxt : t'.rcvNxt = t1.rcvNxt := congrArg RecvCore.rcvNxt hfin
  have hrecv : t'.recv = t1.recv := congrArg RecvCore.recv hfin
  rw [hnxt, hrecv]
  refine ⟨hq', ?_⟩
  cases hdata with
  | empty hd rcv =>
    refine ⟨fun _ => ⟨congrArg RecvCore.rcvNxt rcv, congrArg RecvCore.recv rcv⟩, fun h => ?_⟩
    simp [inOrderData, hd] at h
  | refused hd hs rcv =>
    refine ⟨fun _ => ⟨congrArg RecvCore.rcvNxt rcv, congrArg RecvCore.recv rcv⟩, fun h => ?_⟩
    simp [inOrderData, hs] at h
  | stored hd hs st rcv =>
    refine ⟨fun _ => ⟨congrArg RecvCore.rcvNxt rcv, congrArg RecvCore.recv rcv⟩, fun h => ?_⟩
    simp [inOrderData, hs] at h
  | taken hd hs l rest drains perm rcv =>
    refine ⟨fun h => ?_, fun _ heq => ?_⟩
    · simp [inOrderData, hd, hs] at h
      omega
    have hmoved : t1.rcvNxt = place t.rcvNxt (bytesTaken env t p.seen l) := by
      rw [show t1.rcvNxt = _ from congrArg RecvCore.rcvNxt rcv]
      exact Serial.place_place _ _ _
    have hlt : bytesTaken env t p.seen l + finLen p < 2 ^ 31 := bytesTaken_lt hq drains
    have hpos : 0 < bytesTaken env t p.seen l := by
      have hseen := length_pos_iff.mpr hd
      have hspace := t.recvSpace_pos
      have htake : 0 < takeLen env t p.seen := by
        unfold takeLen
        split <;> omega
      simp only [bytesTaken]
      omega
    rw [hmoved] at heq
    have hd0 := Serial.dist_add_ofNat t.rcvNxt (n := bytesTaken env t p.seen l) (by omega)
    change dist t.rcvNxt (place t.rcvNxt _) = _ at hd0
    rw [heq, Serial.dist_self] at hd0
    omega

/-! ## 3. Sequences -/

section Sequences

variable {t u : Tcb} {l : List (Env × Packet)}

/-- A half-closed connection stays where it is. -/
theorem receiveAll_finWait (hs : t.state = .FinWait1 ∨ t.state = .FinWait2)
    (ha : AcceptableData t l) : (receiveAll t l).core.rcv = t.core.rcv := by
  induction l generalizing t with
  | nil => rfl
  | cons i l ih =>
    obtain ⟨hr, hf, hl⟩ := ha
    obtain ⟨hrcv, hst⟩ := finWait_receives i.1 hs hr hf
    exact (ih hst hl).trans hrcv

/-- Which segments bring in-order data depends on `rcv_nxt` only. -/
theorem inOrderData_congr (h : u.rcvNxt = t.rcvNxt) (p : Packet) :
    inOrderData u p = inOrderData t p := by
  rw [inOrderData, inOrderData, h]

/-- Without in-order data Established stays where it is as well. -/
theorem establishedAll_stays (hq : QueueOk u.oooBlocks) (hf : ∀ i ∈ l, i.2.tcp.flags.fin = false)
    (hno : ∀ i ∈ l, inOrderData u i.2 = false) :
    QueueOk (establishedAll u l).oooBlocks ∧ (establishedAll u l).rcvNxt = u.rcvNxt ∧
      (establishedAll u l).recv = u.recv := by
  induction l generalizing u with
  | nil => exact ⟨hq, rfl, rfl⟩
  | cons i l ih =>
    obtain ⟨hq', hstay, -⟩ := established_receives i.1 hq (hf i (.head _))
    obtain ⟨hn, hr⟩ := hstay (hno i (.head _))
    obtain ⟨h1, h2, h3⟩ := ih hq' (fun j hj => hf j (.tail _ hj)) fun j hj =>
      (inOrderData_congr hn j.2).trans (hno j (.tail _ hj))
    exact ⟨h1, h2.trans hn, h3.trans hr⟩

theorem AcceptableData.noFin (ha : AcceptableData t l) : ∀ i ∈ l, i.2.tcp.flags.fin = false := by
  induction l generalizing t with
  | nil => simp
  | cons i l ih => exact forall_mem_cons.mpr ⟨ha.2.1, ih ha.2.2⟩

theorem AcceptableData.of_append (l' : List (Env × Packet)) (ha : AcceptableData t (l ++ l')) :
    AcceptableData t l := by
  induction l generalizing t with
  | nil => trivial
  | cons i l ih => exact ⟨ha.1, ha.2.1, ih ha.2.2⟩

/-- A list is free of elements of a kind, or has a first one. -/
theorem exists_first {α : Type*} (q : α → Bool) (l : List α) :
    (∀ a ∈ l, q a = false) ∨ ∃ l1 a l2, l = l1 ++ a :: l2 ∧ (∀ b ∈ l1, q b = false) ∧ q a = true := by
  induction l with
  | nil => exact .inl nofun
  | cons a l ih =>
    cases ha : q a with
    | true => exact .inr ⟨[], a, l, rfl, nofun, ha⟩
    | false =>
      rcases ih with h | ⟨l1, b, l2, rfl, h1, h2⟩
      · exact .inl (forall_mem_cons.mpr ⟨ha, h⟩)
      · exact .inr ⟨a :: l1, b, l2, rfl, forall_mem_cons.mpr ⟨ha, h1⟩, h2⟩

end Sequences

/-- **A half-closed connection receives as it would in Established exactly where no segment brings
    in-order data**: the first one that does is dropped. -/
theorem halfClose {k : Conn} (h : connection.Reachable k) (hlive : k.live = true)
    (hs : k.tcb.state = .FinWait1 ∨ k.tcb.state = .FinWait2) {l : List (Env × Packet)}
    (ha : AcceptableData k.tcb l) :
    ReceivesAsEstablished k.tcb l ↔ ∀ i ∈ l, inOrderData k.tcb i.2 = false := by
  have hq := queueOk_reach h hlive
  constructor
  · intro hrec
    rcases exists_first (fun i => inOrderData k.tcb i.2) l with hno | ⟨l1, i, l2, rfl, hno, hi⟩
    · exact hno
    -- the segments before the first one with in-order data leave both sides where they were
    have ha1 : AcceptableData k.tcb (l1 ++ [i]) :=
      AcceptableData.of_append l2 (by rwa [append_assoc])
    obtain ⟨hq1, hn1, -⟩ := establishedAll_stays hq (fun j hj => ha.noFin j (by simp [hj])) hno
    obtain ⟨-, -, hmoves⟩ := established_receives i.1 hq1 (ha.noFin i (by simp))
    have hmove := hmoves ((inOrderData_congr hn1 i.2).trans hi)
    obtain ⟨heq, -⟩ := hrec (l1 ++ [i]) l2 (by simp)
    have hstays : (receiveAll k.tcb (l1 ++ [i])).rcvNxt = k.tcb.rcvNxt :=
      congrArg RecvCore.rcvNxt (receiveAll_finWait hs ha1)
    rw [hstays, establishedAll_append] at heq
    exact absurd (heq.symm.trans hn1.symm) hmove
  · intro hno l' l'' hl
    have ha' : AcceptableData k.tcb l' := AcceptableData.of_append l'' (hl ▸ ha)
    have hmem : ∀ i ∈ l', i ∈ l := fun i hi => hl ▸ mem_append_left _ hi
    have hstays := receiveAll_finWait hs ha'
    obtain ⟨-, hn, hr⟩ := establishedAll_stays hq (fun i hi => ha.noFin i (hmem i hi))
      fun i hi => hno i (hmem i hi)
    exact ⟨(congrArg RecvCore.rcvNxt hstays).trans hn.symm,
      (congrArg RecvCore.recv hstays).trans hr.symm⟩

/-- The application shuts its side down before the peer has sent anything. -/
def shutDown : Conn := connection.exec (plainClient 1000) [plainSynAck 8192, ({}, .shutdown)]

theorem shutDown_reachable : connection.Reachable shutDown :=
  Machine.Reachable.exec (.start (plainClient_opens 1000)) _

/-- The peer acknowledges the FIN, and sends data that leaves a gap. -/
def ackThenGap : List (Env × Packet) :=
  [({}, plainSegment { ack := true } 501 102 8192 []),
    ({}, plainSegment { ack := true } 505 102 8192 [5, 6, 7, 8])]

theorem halfClose_ackThenGap : ReceivesAsEstablished shutDown.tcb ackThenGap :=
  (halfClose shutDown_reachable (by decide +kernel) (.inl (by decide +kernel))
    (by decide +kernel)).mpr (by decide +kernel)

/-- Three bytes from `rcv_nxt` on. -/
def dataBehindShutdown : List (Env × Packet) :=
  [({}, plainSegment { ack := true } 501 102 8192 [1, 2, 3])]

/-- **Data for a half-closed connection is dropped.** -/
theorem halfClose_refuted : ¬ ∀ k, connection.Reachable k → k.live = true →
      (k.tcb.state = .FinWait1 ∨ k.tcb.state = .FinWait2) →
      ∀ l, AcceptableData k.tcb l → ReceivesAsEstablished k.tcb l := by
  intro h
  have hrec := h shutDown shutDown_reachable (by decide +kernel) (.inl (by decide +kernel))
    dataBehindShutdown (by decide +kernel)
  obtain ⟨hnxt, -⟩ := hrec dataBehindShutdown [] rfl
  exact absurd hnxt (by decide +kernel)

end Zigk.Tcp
