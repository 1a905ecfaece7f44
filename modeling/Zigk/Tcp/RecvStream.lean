/-
  Subject:   WHAT THE APPLICATION READS IS WHAT THE PEER SENT, over whole runs.

  The peer's stream starts behind its initial sequence number; a segment carries bytes of it from
  a place less than half a turn of the numbers away (`PeerSpeaks`). Two things can go wrong, and
  the law holds of the runs in which they do not (`RingKeeps`):

  * the receive ring has no free slot of its own: written exactly full it counts as empty;
  * a stored block that `rcv_nxt` has passed stays in the queue, and is drained when the numbers
    have come round a whole turn. `noteOrigin` remembers the place every stored block came from.

  **`recvStream`** -- in such a run what was read and what waits in the ring is a beginning of the
  stream, and in Established `rcv_nxt` counts exactly these bytes; `recvStream_refuted` -- a
  segment that fills the ring.
-/
import Zigk.Base.Stream
import Zigk.Tcp.OutOfOrder

namespace Zigk.Tcp

open Function List Bool RecvCore RingBuf
open Serial (dist place nearest)
open Stream (Holds)

/-! ## 1. The peer's stream -/

/-- The bytes received so far: read by the application, or waiting in the ring. -/
def reached (k : Conn) : Nat := k.received.length + k.tcb.recvBufferAvailable

/-- The segment carries bytes of the peer's stream, from a place less than half a turn away from
    place `r`. -/
def FromPeer (stream : List Byte) (t : Tcb) (r : Nat) (p : Packet) : Prop :=
  ∃ o, p.tcp.seqNum = place (t.irs + 1) o ∧ r < o + 2 ^ 31 ∧ o < r + 2 ^ 31 ∧
    Holds stream o p.payload

/-- The peer sends its stream, and the application reads it by `recv`: no asynchronous receive
    takes the data. -/
def PeerSpeaks (stream : List Byte) (k : Conn) (i : Env × Event) : Prop :=
  ∀ p, i.2 = .packet p → k.tcb.state = .Established → reachesHandler k.tcb p = true →
    FromPeer stream k.tcb (reached k) p ∧ deliversAsync (k.env i) k.tcb = false

/-- The place in the peer's stream that every stored block came from, by the number at which it
    starts. When the queue grows, the segment of the step was stored. -/
def noteOrigin (g : Seq → Nat) (k : Conn) (i : Env × Event) : Seq → Nat :=
  match i.2 with
  | .packet p =>
    if k.tcb.oooBlocks.length < (connStep k i).tcb.oooBlocks.length then
      update g p.tcp.seqNum (nearest (reached k) k.tcb.rcvNxt p.tcp.seqNum)
    else g
  | _ => g

/-- The connection with the origins of its stored blocks. -/
def traced : Machine (Conn × (Seq → Nat)) (Env × Event) :=
  connection.track (fun _ => 0) noteOrigin

/-- In-order data and the blocks drained behind it leave a place in the ring free, and `rcv_nxt`
    had passed none of these blocks. -/
def RingKeeps (w : Conn × (Seq → Nat)) (i : Env × Event) : Prop :=
  ∀ p, i.2 = .packet p → w.1.tcb.state = .Established → reachesHandler w.1.tcb p = true →
    p.ip.getHeaderLength ≤ p.ip.getTotalLength → p.seen ≠ [] → p.tcp.seqNum = w.1.tcb.rcvNxt →
    ∀ l, Drains w.1.tcb.oooBlocks (takeData (w.1.env i) w.1.tcb p.seen).rcvNxt
        (takeData (w.1.env i) w.1.tcb p.seen).recv.used l →
      w.1.tcb.recv.used + takeLen (w.1.env i) w.1.tcb p.seen + (blockData l).length < BUFFER_SIZE ∧
        ∀ b ∈ l, reached w.1 ≤ w.2 b.start

/-! ## 2. What a run keeps -/

/-- A stored block carries the stream from its origin on. -/
structure BlockFrom (stream : List Byte) (irs : Seq) (r : Nat) (g : Seq → Nat) (b : OooBlock) :
    Prop where
  number : b.start = place (irs + 1) (g b.start)
  near : g b.start < r + 2 ^ 31
  data : Holds stream (g b.start) b.data

theorem BlockFrom.mono {stream : List Byte} {irs : Seq} {r r' : Nat} {g : Seq → Nat} {b : OooBlock}
    (h : BlockFrom stream irs r g b) (hr : r ≤ r') : BlockFrom stream irs r' g b :=
  ⟨h.number, by have := h.near; omega, h.data⟩

/-- The ring goes on where the application stopped reading; the blocks come from the stream. -/
structure StreamInv (stream received : List Byte) (g : Seq → Nat) (r : RecvCore) : Prop where
  queue : QueueOk r.oooBlocks
  delivered : received ++ r.recv.contents <+: stream
  blocks : ∀ b ∈ r.oooBlocks, BlockFrom stream r.irs (received.length + r.recv.used) g b

/-- `rcv_nxt` counts exactly what was received. -/
def Counted (received : List Byte) (r : RecvCore) : Prop :=
  r.rcvNxt = place (r.irs + 1) (received.length + r.recv.used)

section Data

variable {stream received : List Byte} {g : Seq → Nat} {env : Env} {t t' : Tcb} {p : Packet}

/-- **The blocks that a drain takes carry on the stream**, where `rcv_nxt` had passed none of
    them. -/
theorem holds_drains {irs : Seq} {r : Nat} {blocks l : List OooBlock} {n : Seq} {used m : Nat}
    (h : Drains blocks n used l) (hn : n = place (irs + 1) m)
    (hb : ∀ b ∈ blocks, BlockFrom stream irs r g b) (hg : ∀ b ∈ l, r ≤ g b.start) (hr : r ≤ m)
    (hm : m + (blockData l).length < r + 2 ^ 31) : Holds stream m (blockData l) := by
  induction h generalizing m with
  | stop h => exact .nil stream m
  | next hp hs hf _ ih =>
    rename_i blocks rest l b n used _
    have hfrom := hb b (hp.subset (.head _))
    rw [blockData_cons, length_append] at hm
    -- the block starts at the number of place `m`, and lies less than a turn away from it
    have ho : g b.start = m := by
      have hnum := hfrom.number
      rw [hs, hn] at hnum
      have h1 := hg b (.head _)
      have h2 := hfrom.near
      rw [hs, hn] at h1 h2
      rw [hs, hn]
      exact Serial.place_inj_of_near hnum.symm (by omega) (by omega)
    have hdata : Holds stream m b.data := by
      rw [← ho]
      exact hfrom.data
    refine hdata.append (ih ?_ (fun b' hb' => hb b' (hp.subset (.tail _ hb')))
      (fun b' hb' => hg b' (.tail _ hb')) (by omega) (by omega))
    rw [hn, Serial.place_place]
    rfl

/-- **The payload of one segment.** -/
theorem streamInv_data (h : StreamInv stream received g t.core.rcv)
    (hc : Counted received t.core.rcv) (hp : FromPeer stream t (received.length + t.recv.used) p)
    (ha : deliversAsync env t = false)
    (hk : p.seen ≠ [] → p.tcp.seqNum = t.rcvNxt → ∀ l,
      Drains t.oooBlocks (takeData env t p.seen).rcvNxt (takeData env t p.seen).recv.used l →
        t.recv.used + takeLen env t p.seen + (blockData l).length < BUFFER_SIZE ∧
          ∀ b ∈ l, received.length + t.recv.used ≤ g b.start)
    (hd : DataStep env t p t') :
    StreamInv stream received
        (if t.oooBlocks.length < t'.oooBlocks.length then
          update g p.tcp.seqNum (nearest (received.length + t.recv.used) t.rcvNxt p.tcp.seqNum)
        else g) t'.core.rcv ∧
      Counted received t'.core.rcv := by
  obtain ⟨o, hseq, hnear1, hnear2, hdata⟩ := hp
  have hcount : t.rcvNxt = place (t.irs + 1) (received.length + t.recv.used) := hc
  cases hd with
  | empty hd rcv | refused hd hs rcv =>
    have hooo : t'.oooBlocks = t.oooBlocks := congrArg oooBlocks rcv
    rw [rcv, hooo, if_neg (lt_irrefl _)]
    exact ⟨h, hc⟩
  | taken hd hs l rest drains perm rcv =>
    obtain ⟨hfull, hfresh⟩ := hk hd hs l drains
    have hooo : t'.oooBlocks = rest := congrArg oooBlocks rcv
    have hlen := perm.length_eq
    rw [length_append] at hlen
    rw [rcv, hooo, if_neg (by omega)]
    -- everything the step takes, in one piece
    obtain ⟨len, hl⟩ : ∃ len, len = takeLen env t p.seen := ⟨_, rfl⟩
    have hlen' : len = min p.seen.length t.recvSpace := by rw [hl, takeLen, ha]; rfl
    obtain ⟨new, hnew⟩ : ∃ new, new = p.seen.take len ++ blockData l := ⟨_, rfl⟩
    have hnlen : new.length = len + (blockData l).length := by
      rw [hnew, length_append, length_take]
      omega
    have hring : (takeBlocks (takeData env t p.seen) l rest).recv = t.recv.pushAll new := by
      rw [hnew, pushAll_append, takeBlocks, takeData, ha, hlen']
      rfl
    have hnxt : (takeData env t p.seen).rcvNxt = place t.rcvNxt len := by rw [takeData, hl]
    have hroom : t.recv.used + new.length < BUFFER_SIZE := by omega
    have ho : o = received.length + t.recv.used := by
      rw [hseq, hcount] at hs
      exact Serial.place_inj_of_near hs (by omega) (by omega)
    have hholds : Holds stream (received.length + t.recv.used) new := by
      have h1 : Holds stream (received.length + t.recv.used) (p.seen.take len) := by
        rw [← ho]
        exact hdata.of_beginning ((List.take_prefix _ _).trans (seen_beginning p))
      have e : (p.seen.take len).length = len := by rw [length_take]; omega
      rw [hnew]
      refine h1.append (holds_drains drains ?_ h.blocks hfresh ?_ ?_)
      · show (takeData env t p.seen).rcvNxt = place (t.irs + 1) _
        rw [e, hnxt, hcount, Serial.place_place]
      · exact Nat.le_add_right _ _
      have hsmall : t.recv.used + new.length < 8192 := hroom
      show received.length + t.recv.used + (p.seen.take len).length + (blockData l).length <
        received.length + t.recv.used + 2 ^ 31
      omega
    have hused := used_pushAll_of_lt t.recv new hroom
    refine ⟨⟨(h.queue.of_append perm).1, ?_, fun b hb => ?_⟩, ?_⟩
    · show received ++ (takeBlocks (takeData env t p.seen) l rest).recv.contents <+: stream
      rw [hring, contents_pushAll t.recv new hroom, ← append_assoc]
      refine Stream.Holds.extends_received h.delivered ?_
      rw [length_append, length_contents]
      exact hholds
    · refine (h.blocks b (perm.subset (mem_append_right l hb))).mono ?_
      show received.length + t.recv.used ≤
        received.length + (takeBlocks (takeData env t p.seen) l rest).recv.used
      rw [hring, hused]
      omega
    · show place (takeData env t p.seen).rcvNxt (blockData l).length = place (t.irs + 1)
        (received.length + (takeBlocks (takeData env t p.seen) l rest).recv.used)
      rw [hring, hused, hnxt, hcount, Serial.place_place, Serial.place_place, hnlen]
      congr 1
      omega
  | stored hd hs st rcv =>
    have hooo : t'.oooBlocks = t.oooBlocks ++ [⟨p.tcp.seqNum, p.seen⟩] :=
      congrArg oooBlocks rcv
    have hnearest : nearest (received.length + t.recv.used) t.rcvNxt p.tcp.seqNum = o := by
      rw [hcount, hseq]
      exact Serial.nearest_place (by omega) (by omega)
    rw [rcv, hooo, length_append, length_singleton, if_pos (by omega), hnearest]
    refine ⟨⟨h.queue.append st, h.delivered, fun b hb => ?_⟩, hc⟩
    rcases mem_append.mp hb with hb | hb
    · -- an old block starts elsewhere, so its origin is kept
      have hne : b.start ≠ p.tcp.seqNum := by
        have hap := apart_of_not_overlaps (st.free b hb) (h.queue.small b hb) st.small
        have := hap 0 (h.queue.nonempty b hb) 0 st.nonempty
        simpa using this
      have hfrom := h.blocks b hb
      refine ⟨?_, ?_, ?_⟩ <;> rw [update_of_ne hne]
      · exact hfrom.number
      · exact hfrom.near
      · exact hfrom.data
    · rw [mem_singleton.mp hb]
      refine ⟨?_, ?_, ?_⟩ <;> rw [update_self]
      · exact hseq
      · exact hnear2
      · exact hdata.of_beginning (seen_beginning p)

end Data

/-! ## 3. Runs -/

/-- The two laws, for a connection and the origins of its blocks. -/
structure StreamRun (stream : List Byte) (w : Conn × (Seq → Nat)) : Prop where
  inv : w.1.live = true → StreamInv stream w.1.received w.2 w.1.tcb.core.rcv
  counted : w.1.live = true → w.1.tcb.state = .SynReceived ∨ w.1.tcb.state = .Established →
    Counted w.1.received w.1.tcb.core.rcv
  unopened : w.1.live = true → w.1.tcb.state = .SynSent →
    w.1.received = [] ∧ w.1.tcb.recv.used = 0 ∧ w.1.tcb.oooBlocks = []
  received : w.1.received <+: stream

theorem noteOrigin_same {g : Seq → Nat} {k : Conn} {i : Env × Event}
    (h : (connStep k i).tcb.oooBlocks = k.tcb.oooBlocks) : noteOrigin g k i = g := by
  unfold noteOrigin
  split
  · rw [h, if_neg (lt_irrefl _)]
  · rfl

/-- The application reads `n` bytes: they move from the ring to what was received. -/
theorem StreamInv.read {stream received : List Byte} {g : Seq → Nat} {r : RecvCore} {n : Nat}
    (h : StreamInv stream received g r) (hn : n ≤ r.recv.used) :
    StreamInv stream (received ++ r.recv.contents.take n) g { r with recv := r.recv.advance n } ∧
      (Counted received r →
        Counted (received ++ r.recv.contents.take n) { r with recv := r.recv.advance n }) := by
  have e : (received ++ r.recv.contents.take n).length + (r.recv.advance n).used =
      received.length + r.recv.used := by
    rw [length_append, length_take, length_contents, used_advance _ hn]
    omega
  refine ⟨⟨h.queue, ?_, fun b hb => ?_⟩, fun hc => ?_⟩
  · show received ++ r.recv.contents.take n ++ (r.recv.advance n).contents <+: stream
    rw [contents_advance _ hn, append_assoc, take_append_drop]
    exact h.delivered
  · rw [e]
    exact h.blocks b hb
  · rw [Counted, e]
    exact hc

theorem streamRun_start {stream : List Byte} {w : Conn × (Seq → Nat)} (h : traced.start w) :
    StreamRun stream w := by
  obtain ⟨⟨st, iss, irs, rcvNxt, sackOk, parent, hst, hcore⟩, -, -, hreceived, -⟩ := h.1.fresh
  have hrcv : w.1.tcb.core.rcv = (freshCore st iss irs rcvNxt sackOk parent).rcv :=
    congrArg Core.rcv hcore
  have hstate : w.1.tcb.state = st := congrArg Core.state hcore
  have hring : w.1.tcb.recv = .empty 0 := congrArg RecvCore.recv hrcv
  refine ⟨fun _ => ?_, fun _ hs => ?_, fun _ _ => ⟨hreceived, ?_, congrArg RecvCore.oooBlocks hrcv⟩, ?_⟩
  · rw [hrcv, hreceived]
    refine ⟨queueOk_nil, ?_, by simp [freshCore]⟩
    show [] ++ (empty 0 : RingBuf Byte BUFFER_SIZE).contents <+: stream
    rw [contents_empty]
    exact nil_prefix
  · rcases hst with rfl | ⟨rfl, hnxt⟩
    · rw [hstate] at hs
      rcases hs with hs | hs <;> cases hs
    · rw [hrcv, hreceived, Counted]
      show rcvNxt = place (irs + 1) (0 + (empty 0 : RingBuf Byte BUFFER_SIZE).used)
      rw [used_empty, hnxt, Serial.place_zero]
  · rw [hring, used_empty]
  · rw [hreceived]
    exact nil_prefix

section Step

variable {stream : List Byte} {w : Conn × (Seq → Nat)} {i : Env × Event}

/-- **One event** keeps the stream, of a TCB that lives on. -/
theorem streamInv_step (h : StreamRun stream w) (hpeer : PeerSpeaks stream w.1 i)
    (hk : RingKeeps w i) (hlive : w.1.live = true)
    (hf : (handle (w.1.env i) w.1.tcb i.2).2 = false) :
    StreamInv stream (connStep w.1 i).received (noteOrigin w.2 w.1 i) (connStep w.1 i).tcb.core.rcv ∧
      ((connStep w.1 i).tcb.state = .SynReceived ∨ (connStep w.1 i).tcb.state = .Established →
        w.1.tcb.state = .SynReceived ∨ w.1.tcb.state = .Established →
          Counted (connStep w.1 i).received (connStep w.1 i).tcb.core.rcv) := by
  have hinv := h.inv hlive
  have htcb : (connStep w.1 i).tcb = (handle (w.1.env i) w.1.tcb i.2).1.tcb := by
    rw [connStep_live hlive]
  have hrec : (connStep w.1 i).received =
      w.1.received ++ i.2.returned (w.1.env i) w.1.tcb := by
    rw [connStep_live hlive]
  have hsame : (connStep w.1 i).tcb.oooBlocks = w.1.tcb.oooBlocks → noteOrigin w.2 w.1 i = w.2 :=
    noteOrigin_same
  rw [htcb] at hsame ⊢
  rw [hrec]
  cases handle_recv (w.1.env i) w.1.tcb i.2 hinv.queue hf with
  | quiet ret rcv adds =>
    rw [hsame (congrArg oooBlocks rcv), ret, append_nil, rcv]
    exact ⟨hinv, fun _ hs => h.counted hlive hs⟩
  | opens p he ho k rcv adds =>
    simp only [opensActive, and_eq_true, decide_eq_true_eq] at ho
    have hst : w.1.tcb.state = .SynSent := ho.1.1.1
    have hooo : w.1.tcb.core.rcv.oooBlocks = [] := (h.unopened hlive hst).2.2
    rw [hsame (congrArg oooBlocks rcv), rcv, he]
    refine ⟨⟨hinv.queue, ?_, fun b hb => ?_⟩, fun _ hs => ?_⟩
    · show w.1.received ++ [] ++ w.1.tcb.recv.contents <+: stream
      rw [append_nil]
      exact hinv.delivered
    · rw [hooo] at hb
      cases hb
    · rw [hst] at hs
      rcases hs with hs | hs <;> cases hs
  | read n hn ret rcv adds =>
    rw [hsame (congrArg oooBlocks rcv), ret, rcv]
    obtain ⟨h1, h2⟩ := hinv.read (n := n) hn
    exact ⟨h1, fun _ hs => h2 (h.counted hlive hs)⟩
  | segment p he hr hs hlen t1 data fin adds =>
    obtain ⟨hp, ha⟩ := hpeer p he hs hr
    obtain ⟨h1, h2⟩ := streamInv_data hinv (h.counted hlive (.inr hs)) hp ha
      (hk p he hs hr hlen) data
    have hret : i.2.returned (w.1.env i) w.1.tcb = [] := by rw [he]; rfl
    have horigin : noteOrigin w.2 w.1 i =
        if w.1.tcb.oooBlocks.length < (connStep w.1 i).tcb.oooBlocks.length then
          update w.2 p.tcp.seqNum
            (nearest (w.1.received.length + w.1.tcb.recv.used) w.1.tcb.rcvNxt p.tcp.seqNum)
        else w.2 := by
      rw [noteOrigin, he]
      rfl
    rw [htcb] at horigin
    rw [horigin, hret, append_nil]
    cases fin with
    | fin hfin rcv state =>
      rw [show (handle (w.1.env i) w.1.tcb i.2).1.tcb.oooBlocks = t1.oooBlocks from
        congrArg oooBlocks rcv, rcv]
      refine ⟨⟨h1.queue, h1.delivered, h1.blocks⟩, fun hst _ => ?_⟩
      rw [state] at hst
      rcases hst with hst | hst <;> cases hst
    | stays hfin rcv state =>
      rw [show (handle (w.1.env i) w.1.tcb i.2).1.tcb.oooBlocks = t1.oooBlocks from
        congrArg oooBlocks rcv, rcv]
      exact ⟨h1, fun _ _ => h2⟩
  | fin p he hr hf rcv adds =>
    rw [hsame (congrArg oooBlocks rcv), rcv, he]
    refine ⟨⟨hinv.queue, ?_, ?_⟩, fun _ hs => ?_⟩
    · show w.1.received ++ [] ++ w.1.tcb.recv.contents <+: stream
      rw [append_nil]
      exact hinv.delivered
    · show ∀ b ∈ w.1.tcb.oooBlocks, BlockFrom stream w.1.tcb.irs
        ((w.1.received ++ []).length + w.1.tcb.recv.used) w.2 b
      rw [append_nil]
      exact hinv.blocks
    · simp only [takesFin, and_eq_true, decide_eq_true_eq] at hf
      rcases hs with hs | hs <;> rw [hs] at hf <;> rcases hf.2 with hf | hf <;> cases hf

/-- In the handshake nothing is received; its end sets the numbers. -/
theorem counted_step (h : StreamRun stream w) (hlive : w.1.live = true)
    (hf : (handle (w.1.env i) w.1.tcb i.2).2 = false)
    (hst : (connStep w.1 i).tcb.state = .SynReceived ∨ (connStep w.1 i).tcb.state = .Established) :
    (w.1.tcb.state = .SynReceived ∨ w.1.tcb.state = .Established) ∨
      Counted (connStep w.1 i).received (connStep w.1 i).tcb.core.rcv := by
  rw [connStep_live hlive] at hst ⊢
  simp only at hst ⊢
  rcases handle_state hf with (hq | ⟨-, hq⟩ | ⟨-, hn⟩) | ⟨p, he, ho, hq⟩ | hq | hq
  · rw [hq] at hst
    exact .inl hst
  · rw [hq] at hst
    rcases hst with hst | hst <;> cases hst
  · rcases hst with hst | hst
    · exact absurd hst hn.2.1
    · exact absurd hst hn.2.2.1
  · rcases ho with ho | ho
    · simp only [opensActive, and_eq_true, decide_eq_true_eq] at ho
      have hsyn : w.1.tcb.state = .SynSent := ho.1.1.1
      obtain ⟨hrec, hused, -⟩ := h.unopened hlive hsyn
      rw [he] at hf hq ⊢
      obtain ⟨k, hk⟩ := opened_recv hsyn hf hq
      right
      rw [hk, hrec, Counted]
      show p.tcp.seqNum + 1 = place (p.tcp.seqNum + 1) (0 + w.1.tcb.recv.used)
      rw [hused, Serial.place_zero]
    · simp only [opensPassive, and_eq_true, decide_eq_true_eq] at ho
      exact .inl (.inl ho.1.1)
  · rw [hq] at hst
    rcases hst with hst | hst <;> cases hst
  · rw [hq] at hst
    rcases hst with hst | hst <;> cases hst

/-- Before the handshake there is nothing to read. -/
theorem unopened_step (h : StreamRun stream w) (hlive : w.1.live = true)
    (hf : (handle (w.1.env i) w.1.tcb i.2).2 = false)
    (hst : (connStep w.1 i).tcb.state = .SynSent) :
    (connStep w.1 i).received = [] ∧ (connStep w.1 i).tcb.recv.used = 0 ∧
      (connStep w.1 i).tcb.oooBlocks = [] := by
  rw [connStep_live hlive] at hst ⊢
  simp only at hst ⊢
  have hsyn := handle_keepsOpen hf hst
  obtain ⟨h1, h2, h3⟩ := h.unopened hlive hsyn
  cases handle_recv (w.1.env i) w.1.tcb i.2 (h.inv hlive).queue hf with
  | quiet ret rcv adds =>
    have hring := congrArg (fun r => r.recv.used) rcv
    exact ⟨by rw [h1, ret]; rfl, hring.trans h2, (congrArg oooBlocks rcv).trans h3⟩
  | opens p he ho k rcv adds =>
    have hring := congrArg (fun r => r.recv.used) rcv
    exact ⟨by rw [h1, he]; rfl, hring.trans h2, (congrArg oooBlocks rcv).trans h3⟩
  | read n hn ret rcv adds =>
    have hring := congrArg (fun r => r.recv.used) rcv
    have h0 : n = 0 := by omega
    rw [h0] at ret hring
    refine ⟨by rw [h1, ret, take_zero]; rfl, ?_, (congrArg oooBlocks rcv).trans h3⟩
    refine hring.trans ?_
    show (w.1.tcb.recv.advance 0).used = 0
    rw [advance_zero, h2]
  | segment p he hr hs hlen t1 data fin adds =>
    rw [hs] at hsyn
    cases hsyn
  | fin p he hr hf rcv adds =>
    have hring := congrArg (fun r => r.recv.used) rcv
    exact ⟨by rw [h1, he]; rfl, hring.trans h2, (congrArg oooBlocks rcv).trans h3⟩

theorem streamRun_step (h : StreamRun stream w) (hpeer : PeerSpeaks stream w.1 i)
    (hk : RingKeeps w i) : StreamRun stream (traced.step w i) := by
  show StreamRun stream (connStep w.1 i, noteOrigin w.2 w.1 i)
  cases hlive : w.1.live with
  | false =>
    have hdead : connStep w.1 i = w.1 := connStep_dead hlive
    have hnone : w.1.live = true → False := by rw [hlive]; nofun
    rw [hdead]
    exact ⟨fun hl => (hnone hl).elim, fun hl => (hnone hl).elim, fun hl => (hnone hl).elim,
      h.received⟩
  | true =>
    cases hf : (handle (w.1.env i) w.1.tcb i.2).2 with
    | false =>
      obtain ⟨hinv, hcnt⟩ := streamInv_step h hpeer hk hlive hf
      refine ⟨fun _ => hinv, fun _ hst => ?_, fun _ hst => unopened_step h hlive hf hst, ?_⟩
      · exact (counted_step h hlive hf hst).elim (hcnt hst) id
      · exact (prefix_append _ _).trans hinv.delivered
    | true =>
      have hret := (handle_recv_freed (w.1.env i) w.1.tcb i.2 hf).2
      have hend : (connStep w.1 i).live = true → False := by
        rw [connStep_live hlive, hf]
        nofun
      refine ⟨fun hl => (hend hl).elim, fun hl => (hend hl).elim, fun hl => (hend hl).elim, ?_⟩
      show (connStep w.1 i).received <+: stream
      rw [connStep_live hlive, hret]
      simp only [append_nil]
      exact h.received

end Step

/-- The law of the receive stream: what was read, and what waits behind it, is a beginning of the
    peer's stream, and in Established `rcv_nxt` counts these bytes and no others. -/
structure StreamLaw (stream : List Byte) (k : Conn) : Prop where
  read : k.received <+: stream
  waiting : k.live = true → k.received ++ k.tcb.recv.contents <+: stream
  counted : k.live = true → k.tcb.state = .Established →
    k.tcb.rcvNxt = place (k.tcb.irs + 1) (k.received.length + k.tcb.recvBufferAvailable)

/-- **In a run that leaves the ring a free place and drains no block from an earlier turn of the
    numbers, the application reads the peer's stream, and no acknowledged byte is lost.** -/
theorem recvStream (stream : List Byte) (w : Conn × (Seq → Nat))
    (h : traced.Reach (fun w i => PeerSpeaks stream w.1 i ∧ RingKeeps w i) w) :
    StreamLaw stream w.1 := by
  have hrun := h.invariant (I := StreamRun stream) (fun _ h => streamRun_start h)
    fun _ _ _ h hc => streamRun_step h hc.1 hc.2
  exact ⟨hrun.received, fun hl => (hrun.inv hl).delivered,
    fun hl hst => hrun.counted hl (.inr hst)⟩

theorem traced_start (ticksPerSec : Nat) : traced.start (plainClient ticksPerSec, fun _ => 0) :=
  ⟨plainClient_opens ticksPerSec, rfl⟩

/-- A gap, its filling, and two bytes read. -/
def gapRead : List (Env × Event) :=
  [plainSynAck 8192, plainData 505 [5, 6, 7, 8], plainData 501 [1, 2, 3, 4], ({}, .recv 2)]

theorem gapRead_keeps :
    traced.Along (fun w i => PeerSpeaks [1, 2, 3, 4, 5, 6, 7, 8] w.1 i ∧ RingKeeps w i)
      (plainClient 1000, fun _ => 0) gapRead := by
  refine ⟨⟨fun p hp hs => ?_, fun p hp hs => ?_⟩, ⟨fun p hp hs hr => ?_, fun p hp hs hr hl hd hq => ?_⟩,
    ⟨fun p hp hs hr => ?_, fun p hp hs hr hl hd hq l hdr => ?_⟩,
    ⟨fun p hp => ?_, fun p hp => ?_⟩, trivial⟩ <;> cases hp
  · exact absurd hs (by decide +kernel)
  · exact absurd hs (by decide +kernel)
  · exact ⟨⟨4, by decide +kernel, by decide +kernel, by decide +kernel, by decide +kernel⟩,
      by decide +kernel⟩
  · exact absurd hq (by decide +kernel)
  · exact ⟨⟨0, by decide +kernel, by decide +kernel, by decide +kernel, by decide +kernel⟩,
      by decide +kernel⟩
  generalize hw : traced.step (traced.step (plainClient 1000, fun _ => 0) (plainSynAck 8192))
    (plainData 505 [5, 6, 7, 8]) = w at hdr ⊢
  have hblocks : w.1.tcb.oooBlocks = [⟨505, [5, 6, 7, 8]⟩] := by
    rw [← hw]
    decide +kernel
  have hone : Drains w.1.tcb.oooBlocks 505 4 [⟨505, [5, 6, 7, 8]⟩] := by
    rw [hblocks]
    exact .next (.refl _) rfl (by decide) (.stop (by simp))
  have hq : QueueOk w.1.tcb.oooBlocks := by
    rw [hblocks]
    exact ⟨by decide, by decide, by decide, pairwise_singleton _ _⟩
  have hl : [⟨505, [5, 6, 7, 8]⟩] = l := by
    refine hone.unique hq (.refl _) ?_
    rw [← hw] at hdr ⊢
    exact hdr
  rw [← hl, ← hw]
  decide +kernel

/-- There two bytes were read and six wait behind them. -/
theorem recvStream_gapRead :
    StreamLaw [1, 2, 3, 4, 5, 6, 7, 8] (traced.exec (plainClient 1000, fun _ => 0) gapRead).1 ∧
      (traced.exec (plainClient 1000, fun _ => 0) gapRead).1.received = [1, 2] ∧
      (traced.exec (plainClient 1000, fun _ => 0) gapRead).1.tcb.recvBufferAvailable = 6 :=
  ⟨recvStream _ _ (Machine.Reach.exec (.start (traced_start 1000)) gapRead_keeps),
    by decide +kernel, by decide +kernel⟩

/-- One segment as large as the advertised window. -/
def windowFilled : List (Env × Event) := [plainSynAck 8192, plainData 501 (List.replicate 8192 0)]

theorem windowFilled_speaks :
    traced.Along (fun w i => PeerSpeaks (List.replicate 8192 0) w.1 i) (plainClient 1000, fun _ => 0)
      windowFilled := by
  refine ⟨fun p hp hs => ?_, fun p hp hs hr => ?_, trivial⟩ <;> cases hp
  · exact absurd hs (by decide +kernel)
  · refine ⟨⟨0, by decide +kernel, by decide +kernel, by decide +kernel, ?_⟩, by decide +kernel⟩
    exact prefix_rfl

/-- **Not every run obeys the law**: filled to the last place, the ring counts as empty. -/
theorem recvStream_refuted :
    ¬ ∀ stream w, traced.Reach (fun w i => PeerSpeaks stream w.1 i) w → StreamLaw stream w.1 := by
  intro h
  have hlaw := h _ _ (Machine.Reach.exec (.start (traced_start 1000)) windowFilled_speaks)
  have hcount := hlaw.counted (by decide +kernel) (by decide +kernel)
  exact absurd hcount (by decide +kernel)

end Zigk.Tcp
