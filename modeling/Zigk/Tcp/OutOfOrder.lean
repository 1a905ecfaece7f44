/-
  Subject:   THE OUT-OF-ORDER QUEUE OVER WHOLE RUNS: what is stored, and what SACK options say of it.

  * `Above` -- no byte of a block lies before `rcv_nxt`. The code neither trims nor frees a block
    that `rcv_nxt` passes, so this holds of a run only where no step lets it happen
    (`QueueInOrder`): no segment is stored that reaches below `rcv_nxt`, in-order data does not
    run into a stored block, no FIN is stepped over in front of one;
  * **`queueLaw`** -- in such a run every block is above `rcv_nxt`, and every SACK option ever sent
    names blocks that were held, above the acknowledged number.
-/
import Zigk.Tcp.RecvSteps

namespace Zigk.Tcp

open List RecvCore Serial

open Serial (dist place)

/-! ## 1. The queue is well formed in every run -/

variable {env : Env} {t : Tcb} {p : Packet}

theorem queueOk_data {t' : Tcb} (hq : QueueOk t.oooBlocks)
    (h : DataStep env t p t') : QueueOk t'.oooBlocks := by
  cases h with
  | empty hd rcv | refused hd hs rcv =>
    rw [show t'.oooBlocks = t.oooBlocks from congrArg oooBlocks rcv]
    exact hq
  | taken hd hs l rest drains perm rcv =>
    rw [show t'.oooBlocks = rest from congrArg oooBlocks rcv]
    exact (hq.of_append perm).1
  | stored hd hs st rcv =>
    rw [show t'.oooBlocks = _ from congrArg oooBlocks rcv]
    exact hq.append st

theorem queueOk_step {e : Event} {c' : Ctx} (hq : QueueOk t.oooBlocks)
    (h : RecvStep env t e c') : QueueOk c'.tcb.oooBlocks := by
  cases h with
  | quiet ret rcv adds =>
    rw [show c'.tcb.oooBlocks = t.oooBlocks from congrArg oooBlocks rcv]
    exact hq
  | opens p he h k rcv adds =>
    rw [show c'.tcb.oooBlocks = t.oooBlocks from congrArg oooBlocks rcv]
    exact hq
  | read n hn ret rcv adds =>
    rw [show c'.tcb.oooBlocks = t.oooBlocks from congrArg oooBlocks rcv]
    exact hq
  | fin p he h hf rcv adds =>
    rw [show c'.tcb.oooBlocks = t.oooBlocks from congrArg oooBlocks rcv]
    exact hq
  | segment p he h hs hlen t1 data fin adds =>
    have h1 := queueOk_data hq data
    cases fin with
    | fin hf rcv state | stays hf rcv state =>
      rw [show c'.tcb.oooBlocks = t1.oooBlocks from congrArg oooBlocks rcv]
      exact h1

/-- **In every run the stored blocks are nonempty, small and pairwise disjoint.** -/
theorem queueOk_reach {k : Conn} (h : connection.Reachable k) (hlive : k.live = true) :
    QueueOk k.tcb.oooBlocks := by
  refine h.invariant (I := fun k => k.live = true → QueueOk k.tcb.oooBlocks) (fun k hk _ => ?_)
    (fun k i _ ih _ hl => ?_) hlive
  · obtain ⟨_, _, _, _, _, _, -, hcore⟩ := hk.fresh.core
    rw [show k.tcb.oooBlocks = [] from congrArg (·.rcv.oooBlocks) hcore]
    exact queueOk_nil
  cases hk : k.live with
  | false =>
    change (connStep k i).live = true at hl
    rw [connStep_dead hk, hk] at hl
    cases hl
  | true =>
    have hstep := handle_recv (k.env i) k.tcb i.2 (ih hk) (not_freed hk hl)
    show QueueOk (connStep k i).tcb.oooBlocks
    rw [connStep_live hk]
    exact queueOk_step (ih hk) hstep

/-! ## 2. Above `rcv_nxt` -/

/-- No number of the block lies before `n`. -/
def Above (n : Seq) (b : OooBlock) : Prop := ∀ i < b.len, seqGte (place b.start i) n = true

instance (n : Seq) (b : OooBlock) : Decidable (Above n b) :=
  inferInstanceAs (Decidable (∀ i < b.len, seqGte (place b.start i) n = true))

variable {b : OooBlock}

/-- A block lies above `n` when its first number does and its last one is less than half a turn
    ahead. -/
theorem above_iff {n : Seq} (h0 : 0 < b.len) (hb : b.len ≤ MAX_TCP_PAYLOAD) :
    Above n b ↔ dist n b.start + b.len ≤ 2 ^ 31 := by
  simp only [MAX_TCP_PAYLOAD] at hb
  constructor
  · intro h
    have h1 := seqGte_iff.mp (h 0 h0)
    have h2 := seqGte_iff.mp (h (b.len - 1) (by omega))
    rw [place_zero] at h1
    rw [dist_place_add (by omega)] at h2
    omega
  · intro h i hi
    rw [seqGte_iff, dist_place_add (by omega)]
    omega

/-- `rcv_nxt` may move on up to the start of the block. -/
theorem Above.advance {n : Seq} {m : Nat} (h : Above n b) (h0 : 0 < b.len)
    (hb : b.len ≤ MAX_TCP_PAYLOAD) (hm : m ≤ dist n b.start) : Above (place n m) b := by
  have hd := (above_iff h0 hb).mp h
  have e : dist n (place n m) = m := dist_add_ofNat n (by omega)
  have hs := dist_sub (a := n) (b := place n m) (c := b.start) (by omega)
  rw [above_iff h0 hb]
  omega

/-- A block disjoint from one that starts at `n` starts only after its end. -/
theorem Above.after {b' : OooBlock} (h : Apart b b') (h0 : 0 < b'.len) :
    b.len ≤ dist b.start b'.start := by
  by_contra hn
  refine h (dist b.start b'.start) (by omega) 0 h0 ?_
  rw [place_zero]
  exact add_dist b.start b'.start

/-- **The drain passes no block that it leaves.** -/
theorem Above.drains {blocks l rest : List OooBlock} {n : Seq} {used : Nat} (hq : QueueOk blocks)
    (h : Drains blocks n used l) (hp : (l ++ rest).Perm blocks) (ha : ∀ b ∈ blocks, Above n b) :
    ∀ b ∈ rest, Above (place n (blockData l).length) b := by
  induction h with
  | stop h =>
    intro b hb
    rw [blockData_nil, length_nil, place_zero]
    exact ha b (hp.subset hb)
  | next hp1 hs hf _ ih =>
    rename_i blocks r l b0 n used _
    intro b hb
    obtain ⟨hq1, hap⟩ := hq.of_perm hp1
    have hp2 : (l ++ rest).Perm r := (hp.trans hp1.symm).cons_inv
    have hr : ∀ b' ∈ r, Above (place n b0.len) b' := by
      intro b' hb'
      have hm : b' ∈ blocks := hp1.subset (.tail _ hb')
      refine (ha b' hm).advance (hq.nonempty b' hm) (hq.small b' hm) ?_
      rw [← hs]
      exact Above.after (hap b' hb') (hq.nonempty b' hm)
    have e : (blockData (b0 :: l)).length = b0.len + (blockData l).length := by
      rw [blockData_cons, length_append]
      rfl
    rw [e, ← place_place]
    exact ih hq1 hp2 hr b hb

/-! ## 3. Steps that pass no block -/

/-- The segment passes no stored block in Established. -/
structure PassesNone (env : Env) (t : Tcb) (p : Packet) : Prop where
  /-- A segment that is stored does not reach below `rcv_nxt`. -/
  stored : p.tcp.seqNum ≠ t.rcvNxt → Stored t p.tcp.seqNum p.seen →
    Above t.rcvNxt ⟨p.tcp.seqNum, p.seen⟩
  /-- In-order data ends before a stored block, or where it starts. -/
  taken : p.tcp.seqNum = t.rcvNxt → ∀ b ∈ t.oooBlocks, takeLen env t p.seen ≤ dist t.rcvNxt b.start
  /-- No stored block waits at `rcv_nxt` when a FIN without in-order data comes. -/
  finAlone : p.tcp.flags.fin = true → p.seen = [] ∨ p.tcp.seqNum ≠ t.rcvNxt →
    ∀ b ∈ t.oooBlocks, b.start ≠ t.rcvNxt
  /-- Behind the in-order data before a FIN, the drain leaves no block for lack of room. -/
  finAfter : p.tcp.flags.fin = true → p.seen ≠ [] → p.tcp.seqNum = t.rcvNxt → ∀ l rest,
    Drains t.oooBlocks (takeData env t p.seen).rcvNxt (takeData env t p.seen).recv.used l →
      (l ++ rest).Perm t.oooBlocks →
        ∀ b ∈ rest, b.start ≠ place (takeData env t p.seen).rcvNxt (blockData l).length

/-- The step lets `rcv_nxt` pass no stored block. -/
def QueueInOrder (k : Conn) (i : Env × Event) : Prop :=
  ∀ p, i.2 = .packet p → reachesHandler k.tcb p = true →
    (k.tcb.state = .Established → p.ip.getHeaderLength ≤ p.ip.getTotalLength →
      PassesNone (k.env i) k.tcb p) ∧
    (takesFin k.tcb p = true → ∀ b ∈ k.tcb.oooBlocks, b.start ≠ k.tcb.rcvNxt)

/-- What the receive stream says about its queue. -/
structure QueueInv (r : RecvCore) : Prop where
  ok : QueueOk r.oooBlocks
  above : ∀ b ∈ r.oooBlocks, Above r.rcvNxt b
  sack : r.sackOk = true → r.rcvSackBlocks = r.oooBlocks.map fun b => ⟨b.start, b.stop⟩

/-- Every range of the SACK option is a block that was held, above the acknowledged number. -/
def Segment.SacksHeld (s : Segment) : Prop :=
  ∀ r ∈ sackRanges s.options, ∃ b ∈ s.held, r = ⟨b.start, b.stop⟩ ∧ Above s.ack b

theorem QueueInv.sacksHeld (h : QueueInv t.core.rcv) {s : Segment} (hs : s.Reports t) :
    s.SacksHeld := by
  intro r hr
  rcases hs with h0 | ⟨hk, hranges, hack, hheld⟩
  · rw [h0] at hr
    cases hr
  rw [hranges, show t.rcvSackBlocks = _ from h.sack hk] at hr
  obtain ⟨b, hb, rfl⟩ := mem_map.mp (mem_of_mem_take hr)
  rw [hack, hheld]
  exact ⟨b, hb, rfl, h.above b hb⟩

/-- A FIN in front of no block. -/
theorem QueueInv.fin {r : RecvCore} (h : QueueInv r) (hf : ∀ b ∈ r.oooBlocks, b.start ≠ r.rcvNxt) :
    QueueInv { r with rcvNxt := r.rcvNxt + 1 } := by
  refine ⟨h.ok, fun b hb => ?_, h.sack⟩
  have hd : dist r.rcvNxt b.start ≠ 0 := fun h0 => hf b hb (dist_eq_zero.mp h0).symm
  exact (h.above b hb).advance (m := 1) (h.ok.nonempty b hb) (h.ok.small b hb) (by omega)

/-- **The payload of one segment.** -/
theorem queueInv_data {t' : Tcb} (h : QueueInv t.core.rcv)
    (hc : PassesNone env t p) (hd : DataStep env t p t') : QueueInv t'.core.rcv := by
  cases hd with
  | empty hd rcv | refused hd hs rcv =>
    rw [rcv]
    exact h
  | taken hd hs l rest drains perm rcv =>
    rw [rcv]
    have hq : QueueOk t.oooBlocks := h.ok
    have hrest := (hq.of_append perm).1
    have ha : ∀ b ∈ t.oooBlocks, Above (takeData env t p.seen).rcvNxt b := fun b hb =>
      (h.above b hb).advance (hq.nonempty b hb) (hq.small b hb) (hc.taken hs b hb)
    refine ⟨hrest, Above.drains hq drains perm ha, ?_⟩
    exact sackInSync_update (t := takeBlocks (takeData env t p.seen) l rest) hrest
  | stored hd hs st rcv =>
    rw [rcv]
    have hq : QueueOk (t.oooBlocks ++ [⟨p.tcp.seqNum, p.seen⟩]) := QueueOk.append h.ok st
    refine ⟨hq, fun b hb => ?_, ?_⟩
    · rcases mem_append.mp hb with hb | hb
      · exact h.above b hb
      · rw [mem_singleton.mp hb]
        exact hc.stored hs st
    · exact sackInSync_update
        (t := { t with oooBlocks := t.oooBlocks ++ [⟨p.tcp.seqNum, p.seen⟩] }) hq

/-- The FIN after the payload. -/
theorem queueInv_fin {t1 t' : Tcb} (h1 : QueueInv t1.core.rcv)
    (hc : PassesNone env t p) (hd : DataStep env t p t1) (hf : FinStep p t1 t') :
    QueueInv t'.core.rcv := by
  cases hf with
  | stays hfin rcv state =>
    rw [rcv]
    exact h1
  | fin hfin rcv state =>
    rw [rcv]
    refine h1.fin ?_
    cases hd with
    | empty hd rcv1 =>
      rw [rcv1]
      exact hc.finAlone hfin (.inl hd)
    | refused hd hs rcv1 =>
      rw [rcv1]
      exact hc.finAlone hfin (.inr hs)
    | taken hd hs l rest drains perm rcv1 =>
      rw [rcv1]
      exact hc.finAfter hfin hd hs l rest drains perm
    | stored hd hs st rcv1 =>
      rw [rcv1]
      intro b hb
      rcases mem_append.mp hb with hb | hb
      · exact hc.finAlone hfin (.inr hs) b hb
      · rw [mem_singleton.mp hb]
        exact hs

/-! ## 4. Runs -/

/-- The law of the queue: its blocks are disjoint and above `rcv_nxt`, and so were those that
    SACK options named. -/
structure QueueLaw (k : Conn) : Prop where
  disjoint : k.live = true → k.tcb.oooBlocks.Pairwise Apart
  above : k.live = true → ∀ b ∈ k.tcb.oooBlocks, Above k.tcb.rcvNxt b
  sacks : ∀ s ∈ k.log, s.SacksHeld

/-- What the run keeps; before the handshake the queue is empty. -/
structure QueueRun (k : Conn) : Prop where
  inv : k.live = true → QueueInv k.tcb.core.rcv
  unopened : k.live = true → k.tcb.state = .SynSent → k.tcb.oooBlocks = [] ∧ k.tcb.rcvSackBlocks = []
  sacks : ∀ s ∈ k.log, s.SacksHeld

theorem Segment.SacksHeld.of_nil {s : Segment} (h : sackRanges s.options = []) : s.SacksHeld := by
  intro r hr
  rw [h] at hr
  cases hr

theorem queueRun_start {k : Conn} (h : Opens k) : QueueRun k := by
  obtain ⟨⟨st, iss, irs, rcvNxt, sackOk, parent, -, hcore⟩, -, -, -, hlog⟩ := h.fresh
  have hrcv : k.tcb.core.rcv = (freshCore st iss irs rcvNxt sackOk parent).rcv :=
    congrArg Core.rcv hcore
  refine ⟨fun _ => ?_, fun _ _ => ⟨congrArg oooBlocks hrcv,
    congrArg rcvSackBlocks hrcv⟩, fun s hs => .of_nil (hlog s hs).2⟩
  rw [hrcv]
  exact ⟨queueOk_nil, by simp [freshCore], fun _ => rfl⟩

/-- **One event**, of a TCB that lives on. -/
theorem queueInv_step {e : Event} {c' : Ctx} (h : QueueInv t.core.rcv)
    (h0 : t.state = .SynSent → t.oooBlocks = [] ∧ t.rcvSackBlocks = [])
    (hc : ∀ p, e = .packet p → reachesHandler t p = true →
      (t.state = .Established → p.ip.getHeaderLength ≤ p.ip.getTotalLength → PassesNone env t p) ∧
      (takesFin t p = true → ∀ b ∈ t.oooBlocks, b.start ≠ t.rcvNxt))
    (hstep : RecvStep env t e c') :
    QueueInv c'.tcb.core.rcv ∧ Ctx.Adds Segment.SacksHeld { tcb := t } c' := by
  cases hstep with
  | quiet ret rcv adds =>
    rw [rcv]
    exact ⟨h, adds.mono fun s hs => h.sacksHeld hs⟩
  | opens p he ho k rcv adds =>
    simp only [opensActive, Bool.and_eq_true, decide_eq_true_eq] at ho
    obtain ⟨h1, h2⟩ := h0 ho.1.1.1
    have h1' : t.core.rcv.oooBlocks = [] := h1
    have h2' : t.core.rcv.rcvSackBlocks = [] := h2
    have hinv : QueueInv c'.tcb.core.rcv := by
      rw [rcv]
      refine ⟨h.ok, fun b hb => ?_, fun _ => ?_⟩
      · rw [h1'] at hb
        cases hb
      · simp only [h1', h2', map_nil]
    exact ⟨hinv, adds.mono fun s hs => hinv.sacksHeld hs⟩
  | read n hn ret rcv adds =>
    rw [rcv]
    exact ⟨⟨h.ok, h.above, h.sack⟩, adds.mono fun s hs => h.sacksHeld hs⟩
  | segment p he hr hs hlen t1 data fin adds =>
    have hp := (hc p he hr).1 hs hlen
    have h1 := queueInv_data h hp data
    have h2 := queueInv_fin h1 hp data fin
    refine ⟨h2, adds.mono fun s hs => ?_⟩
    rcases hs with hs | hs | hs
    · exact h.sacksHeld hs
    · exact h1.sacksHeld hs
    · exact h2.sacksHeld hs
  | fin p he hr hf rcv adds =>
    have hinv : QueueInv c'.tcb.core.rcv := by
      rw [rcv]
      exact h.fin ((hc p he hr).2 hf)
    exact ⟨hinv, adds.mono fun s hs => hinv.sacksHeld hs⟩

theorem queueRun_step {k : Conn} {i : Env × Event} (h : QueueRun k) (hc : QueueInOrder k i) :
    QueueRun (connStep k i) := by
  cases hlive : k.live with
  | false =>
    rw [connStep_dead hlive]
    exact h
  | true =>
    have hinv := h.inv hlive
    cases hf : (handle (k.env i) k.tcb i.2).2 with
    | false =>
      have hstep := handle_recv (k.env i) k.tcb i.2 hinv.ok hf
      obtain ⟨h1, hadds⟩ := queueInv_step hinv (h.unopened hlive) hc hstep
      refine ⟨fun _ => ?_, fun _ hst => ?_, log_step hlive h.sacks hadds⟩
      · rw [connStep_live hlive]
        exact h1
      rw [connStep_live hlive] at hst ⊢
      have hsyn := handle_keepsOpen hf hst
      obtain ⟨h2, h3⟩ := h.unopened hlive hsyn
      -- nothing that changes the queue happens before the handshake
      cases hstep with
      | quiet ret rcv adds =>
        exact ⟨(congrArg oooBlocks rcv).trans h2,
          (congrArg rcvSackBlocks rcv).trans h3⟩
      | opens p he ho k rcv adds =>
        exact ⟨(congrArg oooBlocks rcv).trans h2,
          (congrArg rcvSackBlocks rcv).trans h3⟩
      | read n hn ret rcv adds =>
        exact ⟨(congrArg oooBlocks rcv).trans h2,
          (congrArg rcvSackBlocks rcv).trans h3⟩
      | fin p he hr hf rcv adds =>
        exact ⟨(congrArg oooBlocks rcv).trans h2,
          (congrArg rcvSackBlocks rcv).trans h3⟩
      | segment p he hr hs hlen t1 data fin adds =>
        rw [hs] at hsyn
        cases hsyn
    | true =>
      obtain ⟨hadds, -⟩ := handle_recv_freed (k.env i) k.tcb i.2 hf
      have hdead : (connStep k i).live = false := by
        rw [connStep_live hlive]
        simp only [hf, Bool.not_true, Bool.false_and]
      refine ⟨fun hl => ?_, fun hl => ?_,
        log_step hlive h.sacks (hadds.mono fun s hs => hinv.sacksHeld hs)⟩ <;>
      · rw [hdead] at hl
        cases hl

/-- **In a run that lets `rcv_nxt` pass no stored block, the queue is disjoint and above `rcv_nxt`,
    and every SACK option named blocks that were.** -/
theorem queueLaw (k : Conn) (h : connection.Reach QueueInOrder k) : QueueLaw k := by
  have hrun := h.invariant (I := QueueRun) (fun _ h => queueRun_start h)
    fun _ _ _ h hc => queueRun_step h hc
  exact ⟨fun hl => (hrun.inv hl).ok.apart, fun hl => (hrun.inv hl).above, hrun.sacks⟩

/-- The event of a plain segment in the other direction, with the acknowledgement of the SYN. -/
def plainData (seq : Seq) (payload : List Byte) : Env × Event :=
  ({}, .packet (plainSegment { ack := true, psh := true } seq 101 8192 payload))

/-- Four bytes out of order, then the gap in front of them is filled. -/
def gapFilled : List (Env × Event) :=
  [plainSynAck 8192, plainData 505 [5, 6, 7, 8], plainData 501 [1, 2, 3, 4]]

theorem gapFilled_inOrder : connection.Along QueueInOrder (plainClient 1000) gapFilled := by
  refine ⟨fun p hp hr => ?_, fun p hp hr => ⟨fun _ _ => ?_, fun h => ?_⟩,
    fun p hp hr => ⟨fun _ _ => ?_, fun h => ?_⟩, trivial⟩ <;> cases hp
  · exact absurd hr (by decide +kernel)
  · exact ⟨fun _ _ => by decide +kernel, fun h => absurd h (by decide +kernel), nofun, nofun⟩
  · exact absurd h (by decide +kernel)
  · exact ⟨fun h => absurd h (by decide +kernel), fun _ => by decide +kernel, nofun, nofun⟩
  · exact absurd h (by decide +kernel)

/-- There the queue is empty again and all eight bytes wait for `recv`. -/
theorem queueLaw_gapFilled : QueueLaw (connection.exec (plainClient 1000) gapFilled) ∧
      (connection.exec (plainClient 1000) gapFilled).tcb.oooBlocks = [] ∧
      (connection.exec (plainClient 1000) gapFilled).tcb.recv.contents = [1, 2, 3, 4, 5, 6, 7, 8] :=
  ⟨queueLaw _ (Machine.Reach.exec (.start (plainClient_opens 1000)) gapFilled_inOrder),
    by decide +kernel, by decide +kernel⟩

/-- Four bytes out of order, then a retransmission that reaches into the middle of them. -/
def gapOverfilled : List (Env × Event) :=
  [plainSynAck 8192, plainData 505 [5, 6, 7, 8], plainData 501 [1, 2, 3, 4, 5, 6]]

/-- **Not every run keeps the law**: the block stays in the queue, behind `rcv_nxt`. -/
theorem queueLaw_refuted : ¬ ∀ k, connection.Reachable k → QueueLaw k := by
  intro h
  have hlaw := h _ (Machine.Reachable.exec (.start (plainClient_opens 1000)) gapOverfilled)
  have habove := hlaw.above (by decide +kernel)
  exact absurd habove (by decide +kernel)

end Zigk.Tcp
