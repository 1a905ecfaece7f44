/-
  Subject:   WHAT ONE EVENT DOES TO THE ADVERTISED WINDOW of a connection.

  * `windowView` -- the part of a TCB that `currentRecvWindow` reads, with `rcv_nxt` and what was
    negotiated of the window scale;
  * `Ctx.KeepsWindow` -- the view stays as it is and every segment added advertises it: **all
    functions that send, acknowledge or time out are of this kind**;
  * `WindowMove`, `handle_window` -- the few things an event can do to the view, and that every
    segment of the event advertises the view before or the view after it.
-/
import Zigk.Tcp.RecvSteps

namespace Zigk.Tcp

open List

open Serial (dist place)

/-! ## 1. The view and what is said of it -/

/-- What the advertised edge is computed from, and the shift for the peer's windows. -/
structure WindowView where
  rcvNxt : Seq
  used : Nat
  rcvBufSize : Nat
  mss : Nat
  wscaleOk : Bool
  rcvWscale : Nat
  sndWscale : Nat

open WindowView

def Tcb.windowView (t : Tcb) : WindowView where
  rcvNxt := t.rcvNxt
  used := t.recv.used
  rcvBufSize := t.rcvBufSize
  mss := t.mss
  wscaleOk := t.wscaleOk
  rcvWscale := t.rcvWscale
  sndWscale := t.sndWscale

namespace WindowView

/-- `effectiveBuf`, the silly-window floor, and the room below the cap. -/
def cap (v : WindowView) : Nat :=
  if v.rcvBufSize = 0 then BUFFER_SIZE else min v.rcvBufSize BUFFER_SIZE

def swsFloor (v : WindowView) : Nat := min (v.cap / 2) v.mss

def room (v : WindowView) : Nat := v.cap - min v.used v.cap

/-- The window that a view advertises. -/
def window (v : WindowView) : Nat :=
  let space := if v.room ≥ v.swsFloor then v.room else 0
  min (if v.wscaleOk then space >>> v.rcvWscale else space) 65535

end WindowView

theorem currentRecvWindow_eq (t : Tcb) : t.currentRecvWindow = t.windowView.window := rfl

theorem currentRecvWindow_congr {t t' : Tcb} (h : t'.windowView = t.windowView) :
    t'.currentRecvWindow = t.currentRecvWindow := by
  rw [currentRecvWindow_eq, currentRecvWindow_eq, h]

/-- What a segment says of the windows of `t`: one that acknowledges carries `rcv_nxt` and the
    window; a SYN carries the shift 0, a SYN-ACK at most where the peer's SYN had the option. -/
structure Segment.Advertises (t : Tcb) (s : Segment) : Prop where
  edge : s.flags.ack = true → s.ack = t.rcvNxt ∧ s.window = t.currentRecvWindow
  syn : s.flags.syn = true → s.flags.ack = false → carriedShift s.options = some 0
  synAck : s.flags.syn = true → s.flags.ack = true →
    carriedShift s.options = none ∨ carriedShift s.options = some 0 ∧ t.wscaleOk = true

theorem Segment.Advertises.congr {t t' : Tcb} (h : t'.windowView = t.windowView) {s : Segment}
    (hs : s.Advertises t') : s.Advertises t := by
  have hn : t'.rcvNxt = t.rcvNxt := congrArg (·.rcvNxt) h
  have ho : t'.wscaleOk = t.wscaleOk := congrArg (·.wscaleOk) h
  refine ⟨fun ha => ?_, hs.syn, fun h1 h2 => ?_⟩
  · obtain ⟨h1, h2⟩ := hs.edge ha
    exact ⟨h1.trans hn, h2.trans (currentRecvWindow_congr h)⟩
  · rw [← ho]
    exact hs.synAck h1 h2

/-- From `c` to `c'` the view stays, and every segment added advertises it. -/
structure Ctx.KeepsWindow (c c' : Ctx) : Prop where
  view : c'.tcb.windowView = c.tcb.windowView
  adds : c.Adds (Segment.Advertises c.tcb) c'

variable {f : Tcb → Tcb}

namespace Ctx.KeepsWindow

variable {c c' c'' : Ctx}

theorem rfl : KeepsWindow c c := ⟨Eq.refl _, .rfl⟩

theorem trans (h : KeepsWindow c c') (h' : KeepsWindow c' c'') : KeepsWindow c c'' :=
  ⟨h'.view.trans h.view, h.adds.trans (h'.adds.mono fun _ hs => hs.congr h.view)⟩

theorem upd (h : (f c.tcb).windowView = c.tcb.windowView) :
    KeepsWindow c (c.upd f) := ⟨h, .of_out_eq (Eq.refl _)⟩

/-- What is done to `c` after a change of the TCB that the view does not see. -/
theorem after (h : (f c.tcb).windowView = c.tcb.windowView)
    (h' : KeepsWindow (c.upd f) c') : KeepsWindow c c' := (upd h).trans h'

theorem emit {e : Effect} (h : ∀ s ∈ segments [e], s.Advertises c.tcb) :
    KeepsWindow c (c.emit e) := ⟨Eq.refl _, [e], Eq.refl _, h⟩

/-- Effects that are no segments. -/
theorem quietly {l : List Effect} (ht : c'.tcb.windowView = c.tcb.windowView)
    (ho : c'.out = c.out ++ l) (hl : segments l = []) : KeepsWindow c c' :=
  ⟨ht, l, ho, by simp [hl]⟩

theorem of_same (ht : c'.tcb.windowView = c.tcb.windowView) (ho : c'.out = c.out) :
    KeepsWindow c c' := ⟨ht, .of_out_eq ho⟩

end Ctx.KeepsWindow

/-! ## 2. Senders and timers -/

section Keepers

variable (env : Env) (c : Ctx)

/-- A segment that is no SYN. -/
theorem advertises_plain {t : Tcb} {s : Segment} (hs : s.flags.syn = false)
    (h : s.flags.ack = true → s.ack = t.rcvNxt) (hw : s.window = t.currentRecvWindow) :
    s.Advertises t := by
  refine ⟨fun ha => ⟨h ha, hw⟩, fun h1 => ?_, fun h1 => ?_⟩
  · rw [hs] at h1
    cases h1
  · rw [hs] at h1
    cases h1

theorem sendSegment_window (fl : Flags) (seq ack : Seq) (data : List Byte) (hs : fl.syn = false)
    (h : fl.ack = true → ack = c.tcb.rcvNxt) : c.KeepsWindow (sendSegment env c fl seq ack data).1 :=
  .emit fun s hmem => by
    rw [segments_segment, mem_singleton] at hmem
    subst hmem
    exact advertises_plain hs h rfl

theorem sendWithOptions_window (fl : Flags) (seq ack : Seq) (options : List Byte)
    (h : Segment.Advertises c.tcb { buildSegment env c fl seq ack [] with options := options }) :
    c.KeepsWindow (sendWithOptions env c fl seq ack options).1 :=
  .emit fun s hmem => by
    rw [segments_segment, mem_singleton] at hmem
    subst hmem
    exact ⟨h.edge, h.syn, h.synAck⟩

theorem wakeBlocked_window : c.KeepsWindow c.wakeBlocked := by
  unfold Ctx.wakeBlocked
  split
  · exact .quietly rfl rfl rfl
  · exact .rfl

theorem sendAck_window : c.KeepsWindow (sendAck env c).1 := by
  unfold sendAck
  simp only
  refine .after (f := fun t => { t with ackPending := false, ackDue := 0 }) rfl ?_
  split
  · split
    · exact .rfl
    · exact sendWithOptions_window env _ _ _ _ _ (advertises_plain rfl (fun _ => rfl) rfl)
  · exact sendSegment_window env _ _ _ _ _ rfl fun _ => rfl

theorem sendFin_window : c.KeepsWindow (sendFin env c).1 :=
  sendSegment_window env c _ _ _ _ rfl fun _ => rfl

theorem sendRst_window : c.KeepsWindow (sendRst env c).1 :=
  sendSegment_window env c _ _ _ _ rfl nofun

/-- A SYN leaves the view alone where no shift was chosen: the shift for a buffer of this size
    is 0. -/
theorem sendSyn_window (h : c.tcb.rcvWscale = 0) : c.KeepsWindow (sendSyn env c).1 := by
  unfold sendSyn
  split
  · exact .rfl
  have hview : (buildSynOptions c.tcb false none env.timestamp).2.windowView = c.tcb.windowView := by
    have hs : calculateWindowScale BUFFER_SIZE = 0 := by decide
    simp only [buildSynOptions, Tcb.windowView, hs, h]
    rfl
  refine (Ctx.KeepsWindow.upd (f := fun _ => (buildSynOptions c.tcb false none env.timestamp).2)
    hview).trans (sendWithOptions_window env _ _ _ _ _ ⟨fun e => (by cases e), fun _ _ => ?_,
      fun _ e => (by cases e)⟩)
  exact carriedShift_buildSynOptions c.tcb false none env.timestamp

/-- The repeated SYN-ACK has no options of the peer at hand and writes none. -/
theorem sendSynAck_window : c.KeepsWindow (sendSynAckWithOptions env c none).1 := by
  unfold sendSynAckWithOptions
  split
  · exact .rfl
  · refine (Ctx.KeepsWindow.upd (f := fun _ => (buildSynOptions c.tcb true none env.timestamp).2)
      rfl).trans (sendWithOptions_window env _ _ _ _ _ ⟨fun _ => ⟨rfl, rfl⟩, nofun, fun _ _ => .inl ?_⟩)
    exact carriedShift_buildSynOptions c.tcb true none env.timestamp

theorem transmitPendingData_window : c.KeepsWindow (transmitPendingData env c) := by
  unfold transmitPendingData
  split
  · exact .rfl
  split
  · exact .of_same rfl rfl
  rename_i len _ _
  simp only
  have hrtt : (startRtt env len c.tcb).windowView = c.tcb.windowView := by
    unfold startRtt
    split <;> rfl
  have hsend := Ctx.KeepsWindow.after hrtt (sendSegment_window env (c.upd (startRtt env len))
    { ack := true, psh := true } (startRtt env len c.tcb).sndNxt (startRtt env len c.tcb).rcvNxt
    (c.tcb.send.slice 0 len) rfl fun _ => rfl)
  split
  · exact hsend.trans (.upd rfl)
  · exact hsend

theorem retransmitFromSeq_window (seq : Seq) : c.KeepsWindow (retransmitFromSeq env c seq) := by
  unfold retransmitFromSeq
  simp only
  refine .after (f := fun t => { t with rttSeq := 0 }) rfl ?_
  split
  · exact .rfl
  split
  · exact .rfl
  split
  · exact .rfl
  split
  · exact .of_same rfl rfl
  split
  · exact (sendSegment_window env _ _ _ _ _ rfl fun _ => rfl).trans (.upd rfl)
  · exact sendSegment_window env _ _ _ _ _ rfl fun _ => rfl

theorem retransmitLoss_window : c.KeepsWindow (retransmitLoss env c) :=
  retransmitFromSeq_window env c _

theorem delayedAck_window : c.KeepsWindow (delayedAck env c) := by
  unfold delayedAck
  split
  · exact (sendAck_window env c).trans (.upd rfl)
  · exact .rfl

theorem persistStep_window : c.KeepsWindow (persistStep env c) := by
  unfold persistStep
  simp only
  split
  · split
    · exact .upd rfl
    split
    · refine .after (f := fun t => { t with
        persistTimer := 1
        persistBackoff := if t.persistBackoff < 6 then t.persistBackoff + 1 else t.persistBackoff })
        rfl ?_
      exact sendSegment_window env _ _ _ _ _ rfl fun _ => rfl
    · exact .upd rfl
  split
  · exact .upd rfl
  · exact .rfl

theorem giveUp_window : c.KeepsWindow (giveUp c) :=
  .after (f := fun t => { t with state := .Closed, closing := true }) rfl (wakeBlocked_window _)

theorem retransmitOnTimeout_window (h : c.tcb.rcvWscale = 0) :
    c.KeepsWindow (retransmitOnTimeout env c) := by
  unfold retransmitOnTimeout
  split
  · exact sendSyn_window env c h
  · exact sendSynAck_window env c
  · split
    · exact retransmitLoss_window env c
    · exact .after (f := rewind) rfl (transmitPendingData_window env _)
  · split
    · exact retransmitLoss_window env c
    · exact .after (f := rewind) rfl (transmitPendingData_window env _)
  · exact sendFin_window env c
  · exact .rfl

theorem retransStep_window (h : c.tcb.rcvWscale = 0) : c.KeepsWindow (retransStep env c).1 := by
  unfold retransStep
  split
  · exact .rfl
  split
  · split
    · exact .after (f := fun t => { runTimer env t with retransCount := t.retransCount + 1 }) rfl
        (giveUp_window _)
    · exact .after (f := backOff) rfl (retransmitOnTimeout_window env _ h)
  · exact .upd rfl

theorem processTcbTimers_window (h : c.tcb.rcvWscale = 0) :
    c.KeepsWindow (processTcbTimers env c).1 := by
  unfold processTcbTimers
  split
  · exact giveUp_window c
  have h1 := (delayedAck_window env c).trans (persistStep_window env _)
  have h2 : (persistStep env (delayedAck env c)).tcb.rcvWscale = 0 :=
    (congrArg rcvWscale h1.view).trans h
  exact h1.trans (retransStep_window env _ h2)

theorem handleIcmpError_window (icmpType : Nat) (seqNum : Option Seq) :
    c.KeepsWindow (handleIcmpError c icmpType seqNum).1 := by
  unfold handleIcmpError
  split
  · exact .after (f := fun t => { t with state := .Closed }) rfl (wakeBlocked_window _)
  · exact .rfl

/-! ## 3. The calls of the application -/

theorem send_window (data : List Byte) : c.KeepsWindow (send env c data).1 := by
  rcases send_cases env c data with ⟨e, -⟩ | ⟨n, -, -, -, -, e⟩ <;> rw [e]
  · exact .rfl
  · exact .after (f := fun t => { t with send := t.send.pushAll (data.take n) }) rfl
      (transmitPendingData_window env _)

theorem windowUpdate_window (n : Nat) : c.KeepsWindow (windowUpdate env c n) := by
  unfold windowUpdate
  split
  · exact sendAck_window env c
  · exact .rfl

theorem sendFinAndCount_window : c.KeepsWindow (sendFinAndCount env c) :=
  (sendFin_window env c).trans (.upd rfl)

theorem sendFinPacket_window : c.KeepsWindow (sendFinPacket env c) := by
  unfold sendFinPacket
  split
  · exact .rfl
  split
  · exact (sendFinAndCount_window env c).trans (.upd rfl)
  · exact (sendFinAndCount_window env c).trans (.upd rfl)
  · exact (sendFinAndCount_window env c).trans (.upd rfl)
  · exact .rfl

theorem close_window : c.KeepsWindow (close env c) := by
  unfold close
  simp only
  refine .after (f := fun t => { t with closing := true }) rfl ?_
  split
  · exact (sendFinAndCount_window env _).trans (.upd rfl)
  · exact (sendFinAndCount_window env _).trans (.upd rfl)
  · exact (sendFinAndCount_window env _).trans (.upd rfl)
  · exact .upd rfl

/-! ## 4. The acknowledgement phase -/

theorem sackPhase_view (t : Tcb) (p : Packet) : (sackPhase t p).windowView = t.windowView := by
  unfold sackPhase
  split_ifs <;> rfl

theorem windowPhase_view (t : Tcb) (p : Packet) : (windowPhase t p).windowView = t.windowView := by
  unfold windowPhase
  simp only
  split <;> rfl

theorem noteTimestamp_view (t : Tcb) (p : Packet) :
    (noteTimestamp t p).windowView = t.windowView := by
  unfold noteTimestamp
  split <;> rfl

theorem noteAck_view (ack : Seq) (t : Tcb) : (noteAck env ack t).windowView = t.windowView := by
  unfold noteAck sampleRtt
  split
  · simp only
    split
    · unfold Tcb.updateRto
      simp only
      split <;> rfl
    · rfl
  · rfl

theorem onAck_view (t : Tcb) (n : Nat) : (Reno.onAck t n).windowView = t.windowView := by
  unfold Reno.onAck
  simp only
  split_ifs <;> rfl

theorem settleAck_view (ack : Seq) (n : Nat) (t : Tcb) :
    (settleAck ack n t).windowView = t.windowView := by
  have h : (settleAck ack n t).windowView = (Reno.onAck (advanceUna t ack) n).windowView := by
    unfold settleAck stopRetransTimer
    split <;> rfl
  rw [h, onAck_view]
  rfl

theorem countDupAck_view (t : Tcb) : (countDupAck t).windowView = t.windowView := by
  unfold countDupAck Reno.onDupAck
  simp only
  split_ifs <;> rfl

theorem ackForward_window (ack : Seq) : c.KeepsWindow (ackForward env c ack) := by
  unfold ackForward
  simp only
  refine .after (noteAck_view env ack c.tcb) (.trans ?_ (.upd (settleAck_view _ _ _)))
  unfold partialRetransmit
  split
  · exact retransmitLoss_window env _
  · exact .rfl

theorem dupAck_window : c.KeepsWindow (dupAck env c) := by
  unfold dupAck
  simp only
  refine .after (countDupAck_view c.tcb) ?_
  split
  · exact (retransmitLoss_window env _).trans (.upd rfl)
  split
  · exact transmitPendingData_window env _
  · exact .rfl

theorem ackPhase_window (p : Packet) : c.KeepsWindow (ackPhase env c p).1 := by
  unfold ackPhase
  split
  · exact (ackForward_window env c _).trans (transmitPendingData_window env _)
  split
  · split
    · exact .rfl
    simp only
    split
    · exact dupAck_window env c
    · exact .rfl
  · exact .rfl

theorem scheduleAck_window (immediate : Bool) : c.KeepsWindow (scheduleAck env c immediate) := by
  unfold scheduleAck
  split
  · exact sendAck_window env c
  split
  · exact .upd rfl
  · exact sendAck_window env c

end Keepers

/-! ## 5. What there is to do -/

/-- `n` numbers on, `m` bytes more in the ring as it counts them. -/
def WindowView.take (v : WindowView) (n m : Nat) : WindowView :=
  { v with rcvNxt := place v.rcvNxt n, used := (v.used + m) % BUFFER_SIZE }

/-- The segment is handed to the handler of Established and brings in-order data. -/
def takesInOrder (t : Tcb) (p : Packet) : Bool :=
  reachesHandler t p && decide (t.state = .Established) &&
    decide (p.ip.getHeaderLength ≤ p.ip.getTotalLength) && decide (p.seen ≠ []) &&
    decide (p.tcp.seqNum = t.rcvNxt)

/-- How far `rcv_nxt` moves over in-order data, with the stored blocks `l` drained behind it. -/
def bytesTaken (env : Env) (t : Tcb) (data : List Byte) (l : List OooBlock) : Nat :=
  takeLen env t data + (blockData l).length

/-- How many of these bytes go to the ring: an asynchronous receive takes the segment's own. -/
def bytesStored (env : Env) (t : Tcb) (data : List Byte) (l : List OooBlock) : Nat :=
  (if deliversAsync env t then 0 else takeLen env t data) + (blockData l).length

/-- A FIN counts one number. -/
def finLen (p : Packet) : Nat := if p.tcp.flags.fin then 1 else 0

/-- **All an event can do to the view** outside the opening of an active connection. -/
inductive WindowMove (env : Env) (t : Tcb) : Event → WindowView → Prop where
  | stays (e : Event) : WindowMove env t e t.windowView
  | takes (p : Packet) (h : takesInOrder t p = true) (l : List OooBlock)
      (drains :
        Drains t.oooBlocks (takeData env t p.seen).rcvNxt (takeData env t p.seen).recv.used l) :
      WindowMove env t (.packet p)
        (t.windowView.take (bytesTaken env t p.seen l + finLen p) (bytesStored env t p.seen l))
  | fin (p : Packet) (h : reachesHandler t p = true) :
      WindowMove env t (.packet p) { t.windowView with rcvNxt := place t.rcvNxt 1 }
  | read (bufLen used : Nat) (h : used ≤ t.recv.used) :
      WindowMove env t (.recv bufLen) { t.windowView with used := used }
  | rcvbuf (size : Nat) :
      WindowMove env t (.setsockopt (.rcvbuf size)) { t.windowView with rcvBufSize := bufSize size }

/-- First the segments that advertise the view before, then those that advertise the view after. -/
def Ctx.MovesWindow (c c' : Ctx) : Prop :=
  ∃ l l', segments c'.out = segments c.out ++ (l ++ l') ∧ (∀ s ∈ l, s.Advertises c.tcb) ∧
    ∀ s ∈ l', s.Advertises c'.tcb

/-- **What an event does to the window of a TCB**: a move of the view; or the opening, which sets
    what it is counted from. -/
inductive WindowStep (env : Env) (t : Tcb) (e : Event) (c' : Ctx) : Prop where
  | moves (move : WindowMove env t e c'.tcb.windowView) (sends : Ctx.MovesWindow { tcb := t } c')
  | opens (p : Packet) (he : e = .packet p) (ho : opensActive t p = true)
      (scale : c'.tcb.rcvWscale = 0) (unscaled : c'.tcb.wscaleOk = false)
      (adds : Ctx.Adds (Segment.Advertises c'.tcb) { tcb := t } c')

theorem Ctx.KeepsWindow.then_moves {c c1 c2 c' : Ctx} (h1 : c.KeepsWindow c1)
    (h2 : c1.Adds (fun _ => False) c2) (h3 : c2.KeepsWindow c') : c.MovesWindow c' := by
  obtain ⟨l, e, hl⟩ := h1.adds
  obtain ⟨l2, e2, hl2⟩ := h2
  obtain ⟨l', e', hl'⟩ := h3.adds
  have hnil : segments l2 = [] := eq_nil_iff_forall_not_mem.mpr hl2
  refine ⟨segments l, segments l', ?_, hl, fun s hs => (hl' s hs).congr h3.view.symm⟩
  rw [e', e2, e]
  simp only [segments_append, hnil, nil_append, append_assoc]

theorem Ctx.KeepsWindow.step {env : Env} {t : Tcb} {e : Event} {c' : Ctx}
    (h : Ctx.KeepsWindow { tcb := t } c') : WindowStep env t e c' :=
  .moves (h.view ▸ .stays e) (h.then_moves .rfl .rfl)

/-- A move of the view, and what is sent behind it. -/
theorem Ctx.KeepsWindow.behind {env : Env} {t : Tcb} {e : Event} {c c' : Ctx} (h : c.KeepsWindow c')
    (ho : c.out = []) (move : WindowMove env t e c.tcb.windowView) : WindowStep env t e c' :=
  .moves (h.view ▸ move) (Ctx.KeepsWindow.rfl.then_moves (.of_out_eq ho) h)

/-! ## 6. Data and FIN -/

theorem takeData_view (env : Env) (t : Tcb) (data : List Byte) : (takeData env t data).windowView =
      t.windowView.take (takeLen env t data)
        (if deliversAsync env t then 0 else takeLen env t data) := by
  have hlt := t.recv.used_lt
  cases ha : deliversAsync env t with
  | true =>
    simp only [takeData, Tcb.windowView, WindowView.take, ha, if_true, Nat.add_zero,
      Nat.mod_eq_of_lt hlt]
  | false =>
    have hlen : (data.take (min data.length t.recvSpace)).length = min data.length t.recvSpace := by
      rw [length_take]
      omega
    simp only [takeData, Tcb.windowView, WindowView.take, takeLen, ha, Bool.false_eq_true, if_false,
      RingBuf.used_pushAll, hlen]

/-- In-order data is taken, a blocked thread is woken, the queue is drained. -/
theorem inOrder_tcb (env : Env) (c : Ctx) (data : List Byte) : ∃ b, (inOrder env c data).1.tcb =
      (drainOutOfOrder { takeData env c.tcb data with blockedThread := b }).1 := by
  have hwake : ∀ c' : Ctx, ∃ b, c'.wakeBlocked.tcb = { c'.tcb with blockedThread := b } := by
    intro c'
    unfold Ctx.wakeBlocked
    split
    · exact ⟨none, rfl⟩
    · exact ⟨_, rfl⟩
  unfold inOrder
  simp only
  split
  · obtain ⟨b, hb⟩ := hwake _
    refine ⟨b, congrArg (fun t => (drainOutOfOrder t).1) (hb.trans ?_)⟩
    split
    · split <;> rfl
    · rfl
  · refine ⟨c.tcb.blockedThread, congrArg (fun t => (drainOutOfOrder t).1) ?_⟩
    split
    · split <;> rfl
    · rfl

/-- In-order data and the blocks drained behind it move the view on. -/
theorem inOrder_window (env : Env) (c : Ctx) (data : List Byte) (hq : QueueOk c.tcb.oooBlocks) :
    ∃ l, Drains c.tcb.oooBlocks (takeData env c.tcb data).rcvNxt (takeData env c.tcb data).recv.used l ∧
      (inOrder env c data).1.tcb.windowView =
        c.tcb.windowView.take (bytesTaken env c.tcb data l) (bytesStored env c.tcb data l) := by
  obtain ⟨b, hb⟩ := inOrder_tcb env c data
  obtain ⟨l, rest, hd, -, e⟩ :=
    drain_spec (t := { takeData env c.tcb data with blockedThread := b }) hq
  refine ⟨l, hd, ?_⟩
  have hdrain : (inOrder env c data).1.tcb.windowView =
      (takeData env c.tcb data).windowView.take (blockData l).length (blockData l).length := by
    rw [hb, e]
    simp only [updateRcvSackBlocks, takeBlocks, Tcb.windowView, WindowView.take,
      RingBuf.used_pushAll]
  rw [hdrain, takeData_view]
  simp only [WindowView.take, Serial.place_place, bytesTaken, bytesStored, Nat.mod_add_mod,
    Nat.add_assoc]

/-- The rest of the payload phase keeps the view. -/
theorem dataPhase_window (env : Env) (c : Ctx) (p : Packet)
    (h : p.seen = [] ∨ p.tcp.seqNum ≠ c.tcb.rcvNxt) : c.KeepsWindow (dataPhase env c p).1 := by
  unfold dataPhase
  split
  · exact .rfl
  rename_i hd
  rw [if_neg (h.resolve_left hd)]
  refine .after (f := fun t => (storeOutOfOrder t p.tcp.seqNum p.seen).1) ?_
    (scheduleAck_window env _ true)
  rcases storeOutOfOrder_cases c.tcb p.tcp.seqNum p.seen with e | ⟨-, e⟩
  · rw [e]
  · rw [e]
    rfl

variable {p : Packet}

theorem finPhase_stays (env : Env) (c : Ctx) (d : Bool) (hf : p.tcp.flags.fin = false) :
    c.KeepsWindow (finPhase env c p d) := by
  unfold finPhase
  rw [if_neg (by rw [hf]; decide)]
  split
  · exact scheduleAck_window env c false
  · exact .rfl

theorem finPhase_steps (env : Env) (c : Ctx) (d : Bool) (hf : p.tcp.flags.fin = true) :
    (c.upd fun t => { t with rcvNxt := t.rcvNxt + 1, state := .CloseWait }).KeepsWindow
      (finPhase env c p d) := by
  unfold finPhase
  rw [if_pos hf]
  exact (wakeBlocked_window _).trans (sendAck_window env _)

section Congruence

variable {t t' : Tcb} (h : t'.core.rcv = t.core.rcv) (env : Env) (data : List Byte)

include h

theorem takeLen_congr : takeLen env t' data = takeLen env t data := by
  have e : ∀ u : Tcb, takeLen env u data =
      (fun r : RecvCore =>
        let space := if r.recv.used ≥ BUFFER_SIZE then 0 else BUFFER_SIZE - r.recv.used
        if r.parentSocket.isSome && env.pendingRecv then data.length else min data.length space)
      u.core.rcv := fun _ => rfl
  rw [e, e, h]

theorem bytesTaken_congr (l : List OooBlock) :
    bytesTaken env t' data l = bytesTaken env t data l := by
  rw [bytesTaken, bytesTaken, takeLen_congr h]

theorem bytesStored_congr (l : List OooBlock) :
    bytesStored env t' data l = bytesStored env t data l := by
  have hp : t'.parentSocket = t.parentSocket := congrArg RecvCore.parentSocket h
  rw [bytesStored, bytesStored, takeLen_congr h, deliversAsync, deliversAsync, hp]

end Congruence

/-- Payload and FIN, behind phases that kept the view: the segments sent in the end advertise the
    view after both. -/
theorem dataFin_window (env : Env) {t : Tcb} {c1 : Ctx}
    (h1 : Ctx.KeepsWindow { tcb := t } c1) (hrcv : c1.tcb.core.rcv = t.core.rcv)
    (hr : reachesHandler t p = true)
    (htakes : p.seen ≠ [] → p.tcp.seqNum = t.rcvNxt → takesInOrder t p = true)
    (hq : QueueOk t.oooBlocks) :
    WindowStep env t (.packet p) (finPhase env (dataPhase env c1 p).1 p (dataPhase env c1 p).2) := by
  have hnxt : c1.tcb.rcvNxt = t.rcvNxt := congrArg RecvCore.rcvNxt hrcv
  have hooo : c1.tcb.oooBlocks = t.oooBlocks := congrArg RecvCore.oooBlocks hrcv
  by_cases hd : p.seen = [] ∨ p.tcp.seqNum ≠ c1.tcb.rcvNxt
  · -- no in-order data: only the FIN can move the view
    have h2 := h1.trans (dataPhase_window env c1 p hd)
    cases hf : p.tcp.flags.fin with
    | false => exact (h2.trans (finPhase_stays env _ _ hf)).step
    | true =>
      have h3 := finPhase_steps env (dataPhase env c1 p).1 (dataPhase env c1 p).2 hf
      refine .moves ?_ (h2.then_moves (.of_out_eq (upd_out _ _)) h3)
      have hv : (finPhase env (dataPhase env c1 p).1 p (dataPhase env c1 p).2).tcb.windowView =
          { t.windowView with rcvNxt := place t.rcvNxt 1 } := by
        rw [h3.view]
        show { (dataPhase env c1 p).1.tcb.windowView with
          rcvNxt := (dataPhase env c1 p).1.tcb.windowView.rcvNxt + 1 } = _
        rw [h2.view]
        rfl
      rw [hv]
      exact .fin p hr
  obtain ⟨hd1, hd2⟩ := not_or.mp hd
  rw [not_not] at hd2
  obtain ⟨l, hdr, hview⟩ := inOrder_window env c1 p.seen (by rw [hooo]; exact hq)
  have hin : dataPhase env c1 p = inOrder env c1 p.seen := by
    rw [dataPhase, if_neg hd1, if_pos hd2]
  obtain ⟨-, -, -, hquiet⟩ := inOrder_cases env c1 p.seen
  have htd := takeData_congr hrcv env p.seen
  rw [hooo, show (takeData env c1.tcb p.seen).rcvNxt = (takeData env t p.seen).rcvNxt from
      congrArg RecvCore.rcvNxt htd, show (takeData env c1.tcb p.seen).recv =
      (takeData env t p.seen).recv from congrArg RecvCore.recv htd] at hdr
  rw [h1.view, bytesTaken_congr hrcv, bytesStored_congr hrcv] at hview
  have htakes := htakes hd1 (hd2.trans hnxt)
  rw [hin]
  cases hf : p.tcp.flags.fin with
  | false =>
    have h3 := finPhase_stays env (inOrder env c1 p.seen).1 (inOrder env c1 p.seen).2 hf
    refine .moves ?_ (h1.then_moves (hquiet _) h3)
    have hv : (finPhase env (inOrder env c1 p.seen).1 p (inOrder env c1 p.seen).2).tcb.windowView =
        t.windowView.take (bytesTaken env t p.seen l + finLen p) (bytesStored env t p.seen l) := by
      rw [h3.view, hview, finLen, hf, if_neg (by decide), Nat.add_zero]
    rw [hv]
    exact .takes p htakes l hdr
  | true =>
    have h3 := finPhase_steps env (inOrder env c1 p.seen).1 (inOrder env c1 p.seen).2 hf
    refine .moves ?_ (h1.then_moves ((hquiet _).trans (.of_out_eq (upd_out _ _))) h3)
    have hv : (finPhase env (inOrder env c1 p.seen).1 p (inOrder env c1 p.seen).2).tcb.windowView =
        t.windowView.take (bytesTaken env t p.seen l + finLen p) (bytesStored env t p.seen l) := by
      rw [h3.view, finLen, if_pos hf]
      show { (inOrder env c1 p.seen).1.tcb.windowView with
        rcvNxt := (inOrder env c1 p.seen).1.tcb.windowView.rcvNxt + 1 } = _
      rw [hview]
      simp only [WindowView.take, Serial.place_add]
      rfl
    rw [hv]
    exact .takes p htakes l hdr

/-- **A segment in Established** keeps the view up to its payload. -/
theorem established_window (env : Env) {t : Tcb} (hr : reachesHandler t p = true)
    (hs : t.state = .Established) (hq : QueueOk t.oooBlocks) :
    WindowStep env t (.packet p) (processEstablished env { tcb := noteTimestamp t p } p) := by
  have hseen : Ctx.KeepsWindow { tcb := t } { tcb := seenTcb t p } :=
    .of_same ((sackPhase_view _ p).trans (noteTimestamp_view t p)) rfl
  have hack : Ctx.KeepsWindow { tcb := t } (ackPhase env { tcb := seenTcb t p } p).1 :=
    hseen.trans (ackPhase_window env { tcb := seenTcb t p } p)
  have hwindow : Ctx.KeepsWindow { tcb := t }
      ((ackPhase env { tcb := seenTcb t p } p).1.upd fun t => windowPhase t p) :=
    hack.trans (.upd (windowPhase_view _ p))
  have hrcv : ((ackPhase env { tcb := seenTcb t p } p).1.upd fun t => windowPhase t p).tcb.core.rcv =
      t.core.rcv := by
    obtain ⟨snd, hsnd⟩ := (ackPhase_keeps env { tcb := seenTcb t p } p).1
    rw [upd_tcb, windowPhase_core, hsnd]
    exact (congrArg Core.rcv (seenTcb_core t p) :)
  unfold processEstablished
  simp only
  split
  · exact hack.step
  split
  · exact hwindow.step
  rename_i hlen
  refine dataFin_window env hwindow hrcv hr (fun hd hn => ?_) hq
  simp only [takesInOrder, hr, hs, hd, hn, Bool.true_and, decide_true, ne_eq, not_false_eq_true,
    Bool.and_true, decide_eq_true_eq]
  omega

/-! ## 7. Every event is such a step -/

theorem rejectSegment_window (env : Env) (c : Ctx) (p : Packet) :
    c.KeepsWindow (rejectSegment env c p) := by
  unfold rejectSegment
  split
  · exact .rfl
  · exact sendAck_window env c

theorem handleRst_window (c : Ctx) : c.KeepsWindow (handleRst c).1 :=
  .after (f := fun t => { t with state := .Closed }) rfl (wakeBlocked_window _)

theorem completePendingConnect_window (c : Ctx) (ok : Bool) :
    c.KeepsWindow (completePendingConnect c ok) := by
  unfold completePendingConnect
  split
  · exact .quietly rfl rfl rfl
  · exact .rfl

/-- The acknowledgement of a FIN that was stepped over advertises the number behind it. -/
theorem finAck_window (env : Env) {t : Tcb} {c : Ctx} (hr : reachesHandler t p = true)
    (h : Ctx.KeepsWindow { tcb := t } c) (hf : (f c.tcb).windowView =
      { c.tcb.windowView with rcvNxt := place c.tcb.rcvNxt 1 }) :
    WindowStep env t (.packet p) (sendAck env (c.upd f)).1 := by
  have h3 := sendAck_window env (c.upd f)
  refine .moves ?_ (h.then_moves (.of_out_eq (upd_out _ _)) h3)
  have hn : c.tcb.rcvNxt = t.rcvNxt := congrArg rcvNxt h.view
  rw [h3.view, upd_tcb, hf, h.view, hn]
  exact .fin p hr

/-- The handlers of the closing states. -/
theorem dispatch_window (env : Env) {t : Tcb} (hr : reachesHandler t p = true)
    (hq : QueueOk t.oooBlocks) :
    WindowStep env t (.packet p) (dispatch env { tcb := noteTimestamp t p } p).1 := by
  have hst : (noteTimestamp t p).state = t.state := congrArg Core.state (noteTimestamp_core t p)
  have hn : Ctx.KeepsWindow { tcb := t } { tcb := noteTimestamp t p } :=
    .of_same (noteTimestamp_view t p) rfl
  unfold dispatch
  simp only
  split
  · rename_i hs
    exact established_window env hr (hst.symm.trans hs) hq
  · unfold processFinWait1
    split
    · split
      · exact finAck_window env hr hn rfl
      · exact Ctx.KeepsWindow.step (hn.trans (.of_same rfl rfl))
    split
    · exact finAck_window env hr hn rfl
    · exact hn.step
  · unfold processFinWait2
    split
    · exact finAck_window env hr hn rfl
    · exact hn.step
  · unfold processCloseWait
    split
    · exact Ctx.KeepsWindow.step (hn.trans (.of_same rfl rfl))
    · exact hn.step
  · unfold processClosing
    split
    · exact Ctx.KeepsWindow.step (hn.trans (.of_same rfl rfl))
    · exact hn.step
  · unfold processLastAck
    split
    · exact Ctx.KeepsWindow.step (hn.trans (.of_same rfl rfl))
    · exact hn.step
  · unfold processTimeWait
    split
    · exact hn.step
    split
    · exact (hn.trans (.after (f := fun t => { t with createdAt := env.now }) rfl
        (sendAck_window env _))).step
    · exact hn.step
  · exact hn.step

/-- With the shift 0 on our side no scaling is taken over from the peer's SYN. -/
theorem takeSynOptions_scale {t : Tcb} (p : Packet) (h : t.rcvWscale = 0) :
    (takeSynOptions t p).rcvWscale = 0 ∧ (takeSynOptions t p).wscaleOk = false := by
  unfold takeSynOptions
  simp only
  have hno : ((parseOptions p).wscalePresent && decide (t.rcvWscale > 0)) = false := by
    rw [h, Bool.and_eq_false_iff]
    exact .inr rfl
  split_ifs with h1 <;> first | exact ⟨rfl, rfl⟩ | skip
  all_goals simp_all

/-- The peer's SYN opens an active connection: the window is counted from its number on. -/
theorem processSynSent_window (env : Env) {t : Tcb} (p : Packet) (hs : t.state = .SynSent)
    (hr : p.tcp.flags.rst = false) (hscale : t.rcvWscale = 0) :
    WindowStep env t (.packet p) (processSynSent env { tcb := t } p).1 := by
  unfold processSynSent
  split
  · exact Ctx.KeepsWindow.rfl.step
  rename_i hsyn
  split
  · refine Ctx.KeepsWindow.step (.trans ?_ (wakeBlocked_window _))
    refine .trans ?_ (completePendingConnect_window _ _)
    exact (sendRst_window env _).trans (.upd rfl)
  rename_i hack
  have hopens : opensActive t p = true := by
    simp only [opensActive, hs, hr, decide_true, Bool.true_and, Bool.not_false, Bool.and_true]
    simp only [Bool.not_eq_true', Bool.not_eq_false, Bool.and_eq_true, decide_eq_true_eq] at hsyn hack
    rw [hsyn, Bool.true_and, Bool.or_eq_true, Bool.not_eq_true', decide_eq_true_eq]
    by_cases ha : p.tcp.flags.ack = true
    · exact .inr (not_not.mp fun hn => hack ⟨ha, hn⟩)
    · exact .inl (by simpa using ha)
  simp only
  generalize hc1 : ((((Ctx.upd { tcb := t } fun t =>
      if p.tcp.flags.ack then { t with sndUna := p.tcp.ackNum } else t).upd fun t =>
        { t with irs := p.tcp.seqNum, rcvNxt := p.tcp.seqNum + 1 }).upd fun t =>
          takeSynOptions t p).upd fun t =>
            { t with state := .Established, retransTimer := 0, retransCount := 0 }) = c1
  have hout : c1.out = [] := by
    rw [← hc1]
    rfl
  have hnone : c1.tcb.rcvWscale = 0 ∧ c1.tcb.wscaleOk = false := by
    rw [← hc1]
    refine takeSynOptions_scale p ?_
    simp only [upd_tcb]
    split <;> exact hscale
  have hkeeps := ((completePendingConnect_window c1 true).trans (wakeBlocked_window _)).trans
    (sendAck_window env _)
  refine .opens p rfl hopens ((congrArg rcvWscale hkeeps.view).trans hnone.1)
    ((congrArg wscaleOk hkeeps.view).trans hnone.2) ?_
  exact .trans (.of_out_eq hout) (hkeeps.adds.mono fun s h => h.congr hkeeps.view.symm)

theorem packet_window (env : Env) (t : Tcb) (p : Packet) (hq : QueueOk t.oooBlocks)
    (hscale : t.rcvWscale = 0) :
    WindowStep env t (.packet p) (processPacket env { tcb := t } p).1 := by
  cases hr : reachesHandler t p with
  | true =>
    rw [processPacket_handler env (c := { tcb := t }) hr]
    exact dispatch_window env hr hq
  | false =>
    unfold processPacket
    cases hv : p.valid with
    | false => exact Ctx.KeepsWindow.rfl.step
    | true =>
    simp only [if_true]
    unfold processSegment
    cases hcl : t.closing with
    | true => exact Ctx.KeepsWindow.rfl.step
    | false =>
    simp only [Bool.false_eq_true, if_false]
    split
    · unfold processSynReceivedLocked
      split
      · exact Ctx.KeepsWindow.rfl.step
      split
      · exact (sendRst_window env _).step
      simp only [if_true]
      unfold handleSynReceivedEstablished
      split
      · exact Ctx.KeepsWindow.step (.of_same rfl rfl)
      · refine Ctx.KeepsWindow.step (.trans ?_ (sendRst_window env _))
        exact .of_same rfl rfl
    rename_i hsr
    unfold processEstablishedPacket
    split
    · rename_i hss
      split
      · exact (handleRst_window _).step
      · rename_i hrst
        exact processSynSent_window env p hss (by simpa using hrst) hscale
    rename_i hss
    split
    · exact Ctx.KeepsWindow.rfl.step
    rename_i hp
    have hn : Ctx.KeepsWindow { tcb := t } { tcb := noteTimestamp t p } :=
      .of_same (noteTimestamp_view t p) rfl
    simp only
    split
    · exact (hn.trans (rejectSegment_window env _ p)).step
    rename_i hok
    split
    · split
      · exact (hn.trans (handleRst_window _)).step
      · exact (hn.trans (sendAck_window env _)).step
    rename_i hrst
    -- everything passed: the packet does reach the handler
    simp only [Bool.not_eq_true, Bool.not_eq_false'] at hok hrst hp
    simp [reachesHandler, hv, hcl, hss, hsr, hp, hok, hrst] at hr

/-- **What an event does to the window.** -/
theorem handle_window (env : Env) (t : Tcb) (e : Event) (hq : QueueOk t.oooBlocks)
    (hscale : t.rcvWscale = 0) : WindowStep env t e (handle env t e).1 := by
  cases e with
  | packet p => exact packet_window env t p hq hscale
  | send data => exact (send_window env _ data).step
  | recv bufLen =>
    simp only [handle]
    unfold recv
    split
    · exact Ctx.KeepsWindow.rfl.step
    simp only
    split
    · rename_i hu
      rw [RingBuf.popAll_eq]
      refine (windowUpdate_window env _ _).behind rfl (.read bufLen _ ?_)
      exact (RingBuf.used_advance _ (Nat.min_le_right _ _)).trans_le (Nat.sub_le _ _)
    · exact Ctx.KeepsWindow.rfl.step
  | shutdown => exact (sendFinPacket_window env _).step
  | close => exact (close_window env _).step
  | setsockopt o =>
    cases o with
    | nodelay on => exact Ctx.KeepsWindow.step (.of_same rfl rfl)
    | cork on =>
      simp only [handle, setsockopt]
      refine Ctx.KeepsWindow.step (.after (f := fun t => { t with tcpCork := on }) rfl ?_)
      split
      · exact .rfl
      · exact transmitPendingData_window env _
    | rcvbuf size =>
      exact Ctx.KeepsWindow.rfl.behind rfl (.rcvbuf size)
    | sndbuf size => exact Ctx.KeepsWindow.step (.of_same rfl rfl)
  | block thread => exact Ctx.KeepsWindow.step (.of_same rfl rfl)
  | tick busy =>
    cases busy with
    | true => exact Ctx.KeepsWindow.step (.of_same rfl rfl)
    | false => exact (processTcbTimers_window env _ hscale).step
  | icmp icmpType seqNum => exact (handleIcmpError_window _ icmpType seqNum).step

end Zigk.Tcp
