/-
  Subject:   THE ADVERTISED RIGHT EDGE over whole runs of a connection.

  * `advertising` -- the connection with its history: how far `rcv_nxt` has come since the opening,
    and every right edge `rcv_nxt + window` that a segment has advertised, both unwrapped;
  * `KeepsEdge` -- where a step keeps the edge: in-order data leaves at least the silly-window floor
    free or takes all the room there was, and `SO_RCVBUF` is not lowered while room is on offer.
    Silly-window avoidance closes the window to 0 in between, below what was advertised;
  * **`edgeLaw`** -- in a run of such steps the edges never go back, and in-order data inside an
    advertised edge passes the acceptability test and finds its room in the ring.
-/
import Zigk.Tcp.OutOfOrder
import Zigk.Tcp.WindowSteps

namespace Zigk.Tcp

open List Serial

open Serial (dist place nearest)

/-! ## 1. The history of the edge -/

structure EdgeHistory where
  /-- The place of `rcv_nxt`, counted from the opening. -/
  pos : Nat
  /-- The right edges advertised, in order. -/
  edges : List Nat

open EdgeHistory

/-- The edges that the acknowledging segments of `l` advertise, as places; `pos` is the place of
    the number `n`. -/
def edgesOf (pos : Nat) (n : Seq) (l : List Segment) : List Nat :=
  (l.filter (·.flags.ack)).map fun s => nearest pos n s.ack + s.window

/-- A passive connection has advertised in its SYN-ACK. -/
def EdgeHistory.born (k : Conn) : EdgeHistory := ⟨0, edgesOf 0 k.tcb.rcvNxt k.log⟩

/-- In SynSent `rcv_nxt` has no meaning yet: the count begins with the opening. -/
def noteEdges (h : EdgeHistory) (k : Conn) (i : Env × Event) : EdgeHistory :=
  let k' := connStep k i
  let new := k'.log.drop k.log.length
  if k.tcb.state = .SynSent then ⟨0, edgesOf 0 k'.tcb.rcvNxt new⟩
  else ⟨nearest h.pos k.tcb.rcvNxt k'.tcb.rcvNxt, h.edges ++ edgesOf h.pos k.tcb.rcvNxt new⟩

def advertising : Machine (Conn × EdgeHistory) (Env × Event) :=
  connection.trackFrom born noteEdges

/-- Every edge advertised so far lies at most `n` beyond `rcv_nxt`. -/
def EdgeHistory.Within (h : EdgeHistory) (n : Nat) : Prop := ∀ e ∈ h.edges, e ≤ h.pos + n

/-- **A step that keeps the edge.** -/
def KeepsEdge (k : Conn) (i : Env × Event) : Prop :=
  match i.2 with
  | .packet p =>
    k.live = true → takesInOrder k.tcb p = true →
    ∀ l, Drains k.tcb.oooBlocks (takeData (k.env i) k.tcb p.seen).rcvNxt
        (takeData (k.env i) k.tcb p.seen).recv.used l →
      let v := k.tcb.windowView
      let n := bytesTaken (k.env i) k.tcb p.seen l + finLen p
      let v' := v.take n (bytesStored (k.env i) k.tcb p.seen l)
      v'.swsFloor ≤ v'.room ∨ v.room ≤ n
  | .setsockopt (.rcvbuf size) =>
    k.live = true → k.tcb.windowView.cap ≤ bufSize size ∨
      k.tcb.windowView.room < k.tcb.windowView.swsFloor
  | _ => True

/-! ## 2. Arithmetic of the window -/

variable {w : WindowView} {t : Tcb} {l : List OooBlock}

section Arithmetic

variable {v : WindowView}

theorem WindowView.cap_le (v : WindowView) : v.cap ≤ BUFFER_SIZE := by
  unfold cap
  split <;> omega

/-- Without a shift the window is the room, or nothing. -/
theorem window_eq (h : v.rcvWscale = 0) :
    v.window = if v.swsFloor ≤ v.room then v.room else 0 := by
  have hc : v.cap ≤ 8192 := v.cap_le
  have hr : v.room ≤ v.cap := Nat.sub_le _ _
  simp only [WindowView.window, h, Nat.shiftRight_zero, ge_iff_le, ite_self]
  split <;> omega

theorem window_le_room (h : v.rcvWscale = 0) : v.window ≤ v.room := by
  rw [window_eq h]
  split <;> omega

theorem window_mono (hv : v.rcvWscale = 0) (hw : w.rcvWscale = 0)
    (h : 0 < v.room → v.swsFloor ≤ v.room → w.swsFloor ≤ w.room ∧ v.room ≤ w.room) :
    v.window ≤ w.window := by
  rw [window_eq hv, window_eq hw]
  by_cases hlow : 0 < v.room ∧ v.swsFloor ≤ v.room
  · obtain ⟨h1, h2⟩ := h hlow.1 hlow.2
    rw [if_pos hlow.2, if_pos h1]
    exact h2
  · split <;> omega

/-- More free room never makes the window smaller. -/
theorem window_read (h : v.rcvWscale = 0) {used : Nat} (hu : used ≤ v.used) :
    v.window ≤ { v with used := used }.window := by
  have hf : { v with used := used }.swsFloor = v.swsFloor := rfl
  have hr : { v with used := used }.room = v.cap - min used v.cap := rfl
  have hr0 : v.room = v.cap - min v.used v.cap := rfl
  exact window_mono h h fun h0 hlow => ⟨by omega, by omega⟩

/-- Nor does a larger receive buffer: the floor grows at most half as fast as the buffer. -/
theorem window_rcvbuf (h : v.rcvWscale = 0) {size : Nat}
    (hk : v.cap ≤ bufSize size ∨ v.room < v.swsFloor) :
    v.window ≤ { v with rcvBufSize := bufSize size }.window := by
  have hsize : 256 ≤ bufSize size ∧ bufSize size ≤ BUFFER_SIZE := by
    simp only [bufSize, BUFFER_SIZE]
    omega
  have hcap : ({ v with rcvBufSize := bufSize size } : WindowView).cap = bufSize size := by
    show (if bufSize size = 0 then BUFFER_SIZE else min (bufSize size) BUFFER_SIZE) = _
    rw [if_neg (by omega)]
    omega
  have hf : ({ v with rcvBufSize := bufSize size } : WindowView).swsFloor =
      min (bufSize size / 2) v.mss := by rw [WindowView.swsFloor, hcap]
  have hr : ({ v with rcvBufSize := bufSize size } : WindowView).room =
      bufSize size - min v.used (bufSize size) := by rw [WindowView.room, hcap]
  have hf0 : v.swsFloor = min (v.cap / 2) v.mss := rfl
  have hr0 : v.room = v.cap - min v.used v.cap := rfl
  exact window_mono h h fun h0 hlow => ⟨by omega, by omega⟩

/-- In-order data moves the edge on, never back, under the condition of `KeepsEdge`. -/
theorem window_take (h : v.rcvWscale = 0) {n m : Nat} (hmn : m ≤ n)
    (hk : (v.take n m).swsFloor ≤ (v.take n m).room ∨ v.room ≤ n) :
    v.window ≤ n + (v.take n m).window := by
  have hw := window_le_room h
  rw [window_eq (v := v.take n m) h]
  split
  · have hmod : (v.used + m) % BUFFER_SIZE ≤ v.used + m := Nat.mod_le _ _
    have hr : v.room = v.cap - min v.used v.cap := rfl
    have hr' : (v.take n m).room = v.cap - min ((v.used + m) % BUFFER_SIZE) v.cap := rfl
    omega
  · rename_i hlow
    have := hk.resolve_left hlow
    omega

end Arithmetic

/-! ## 3. What a run keeps -/

theorem edgesOf_append (pos : Nat) (n : Seq) (l l' : List Segment) :
    edgesOf pos n (l ++ l') = edgesOf pos n l ++ edgesOf pos n l' := by
  simp only [edgesOf, filter_append, map_append]

/-- Segments that advertise `t` advertise one edge. -/
theorem edgesOf_advertises {l : List Segment} (h : ∀ s ∈ l, s.Advertises t) (pos : Nat)
    (n : Seq) : ∀ e ∈ edgesOf pos n l, e = nearest pos n t.rcvNxt + t.currentRecvWindow := by
  intro e he
  obtain ⟨s, hs, rfl⟩ := mem_map.mp he
  obtain ⟨hl, ha⟩ := mem_filter.mp hs
  obtain ⟨h1, h2⟩ := (h s hl).edge ha
  rw [h1, h2]

theorem length_blockData_le {m : Nat} (h : ∀ b ∈ l, b.len ≤ m) :
    (blockData l).length ≤ l.length * m := by
  induction l with
  | nil => simp
  | cons b l ih =>
    have hb : b.data.length ≤ m := h b (.head _)
    have hl := ih fun b' hb' => h b' (.tail _ hb')
    rw [blockData_cons, length_append, length_cons, Nat.add_mul]
    omega

/-- No step takes as much as half a turn of the numbers. -/
theorem bytesTaken_lt {env : Env} {p : Packet} {n : Seq} {u : Nat}
    (hq : QueueOk t.oooBlocks) (h : Drains t.oooBlocks n u l) :
    bytesTaken env t p.seen l + finLen p < 2 ^ 31 := by
  have hfin : finLen p ≤ 1 := by
    unfold finLen
    split <;> omega
  have hseen : p.seen.length < 65536 := by
    have hlt : p.ip.getTotalLength < 65536 := Nat.mod_lt _ (by decide)
    have hle : p.seen.length ≤ p.ipPayloadLen - p.tcp.getDataOffset := length_take_le _ _
    simp only [Packet.ipPayloadLen] at hle
    omega
  have htake : takeLen env t p.seen ≤ p.seen.length := by
    unfold takeLen
    split <;> omega
  obtain ⟨rest, hp⟩ := h.subperm
  have hlen := hp.length_eq
  have hslots := hq.slots
  have hdata : (blockData l).length ≤ l.length * MAX_TCP_PAYLOAD :=
    length_blockData_le fun b hb => hq.small b (hp.subset (mem_append_left rest hb))
  rw [length_append] at hlen
  simp only [OOO_SLOTS] at hslots
  simp only [MAX_TCP_PAYLOAD] at hdata
  simp only [bytesTaken]
  omega

theorem bytesStored_le (env : Env) (t : Tcb) (data : List Byte) (l : List OooBlock) :
    bytesStored env t data l ≤ bytesTaken env t data l := by
  unfold bytesStored bytesTaken
  split <;> omega

/-- **A move of the view moves the edge on, never back.** -/
theorem WindowMove.keeps {k : Conn} {i : Env × Event}
    (hq : QueueOk k.tcb.oooBlocks) (hlive : k.live = true) (hscale : k.tcb.rcvWscale = 0)
    (hk : KeepsEdge k i) (h : WindowMove (k.env i) k.tcb i.2 w) :
    w.rcvWscale = 0 ∧ ∃ n, n < 2 ^ 31 ∧ w.rcvNxt = place k.tcb.rcvNxt n ∧
      k.tcb.currentRecvWindow ≤ n + w.window := by
  have hs : k.tcb.windowView.rcvWscale = 0 := hscale
  have hw : k.tcb.currentRecvWindow = k.tcb.windowView.window := currentRecvWindow_eq _
  rw [hw]
  obtain ⟨env, e⟩ := i
  cases h with
  | stays => exact ⟨hscale, 0, by omega, (place_zero _).symm, by omega⟩
  | takes p h l drains =>
    have hle := bytesStored_le (k.env (env, .packet p)) k.tcb p.seen l
    exact ⟨hscale, _, bytesTaken_lt hq drains, rfl,
      window_take hs (hle.trans (Nat.le_add_right _ _)) (hk hlive h l drains)⟩
  | fin p h =>
    have hv : ({ k.tcb.windowView with rcvNxt := place k.tcb.rcvNxt 1 } : WindowView).window =
        k.tcb.windowView.window := rfl
    exact ⟨hscale, 1, by omega, rfl, by omega⟩
  | read bufLen used h =>
    exact ⟨hscale, 0, by omega, (place_zero _).symm,
      (window_read hs h).trans (Nat.le_add_left _ _)⟩
  | rcvbuf size =>
    exact ⟨hscale, 0, by omega, (place_zero _).symm,
      (window_rcvbuf hs (hk hlive)).trans (Nat.le_add_left _ _)⟩

/-- In SynSent no move changes `rcv_nxt`. -/
theorem WindowMove.synSent {env : Env} {e : Event}
    (h : WindowMove env t e w) (hs : t.state = .SynSent) : w.rcvNxt = t.rcvNxt := by
  cases h with
  | stays | read | rcvbuf => rfl
  | takes p h =>
    simp only [takesInOrder, Bool.and_eq_true, decide_eq_true_eq, hs] at h
    exact absurd h.1.1.1.2 (by decide)
  | fin p h => exact absurd hs (reachesHandler_state h).1

/-- What holds of the connection with its history. -/
structure EdgeInv (w : Conn × EdgeHistory) : Prop where
  scale : w.1.tcb.rcvWscale = 0
  grows : w.2.edges.Pairwise (· ≤ ·)
  inside : w.2.Within w.1.tcb.currentRecvWindow

theorem pairwise_le_of_eq {l : List Nat} {a : Nat} (h : ∀ e ∈ l, e = a) : l.Pairwise (· ≤ ·) :=
  pairwise_iff_forall_sublist.mpr fun {x y} hxy => by
    rw [h x (hxy.subset (.head _)), h y (hxy.subset (.tail _ (.head _)))]

/-- A list of edges, then edges at `a`, then edges at `b`. -/
theorem pairwise_le_append {l la lb : List Nat} {a b : Nat} (h : l.Pairwise (· ≤ ·))
    (hl : ∀ e ∈ l, e ≤ a) (ha : ∀ e ∈ la, e = a) (hb : ∀ e ∈ lb, e = b) (hab : a ≤ b) :
    (l ++ (la ++ lb)).Pairwise (· ≤ ·) := by
  refine pairwise_append.mpr ⟨h, pairwise_append.mpr ⟨pairwise_le_of_eq ha,
    pairwise_le_of_eq hb, fun x hx y hy => ?_⟩, fun x hx y hy => ?_⟩
  · rw [ha x hx, hb y hy]
    exact hab
  have hxa := hl x hx
  rcases mem_append.mp hy with hy | hy
  · rw [ha y hy]
    exact hxa
  · rw [hb y hy]
    exact hxa.trans hab

theorem log_new {k : Conn} (h : k.live = true) (i : Env × Event) :
    (connStep k i).log.drop k.log.length = segments (handle (k.env i) k.tcb i.2).1.out := by
  rw [connStep_live h]
  exact List.drop_left

/-- A step that keeps the edge keeps what is known of it. -/
theorem edgeInv_step {w : Conn × EdgeHistory} {i : Env × Event} (hw : EdgeInv w)
    (hq : w.1.live = true → QueueOk w.1.tcb.oooBlocks) (hk : KeepsEdge w.1 i) :
    EdgeInv (advertising.step w i) := by
  obtain ⟨k, h⟩ := w
  obtain ⟨hscale, hgrows, hinside⟩ := hw
  show EdgeInv (connStep k i, noteEdges h k i)
  cases hlive : k.live with
  | false =>
    have he : connStep k i = k := connStep_dead hlive
    have hnote : noteEdges h k i = ⟨0, []⟩ ∨ noteEdges h k i = h := by
      unfold noteEdges
      simp only [he, drop_length, nearest_self, edgesOf, filter_nil, map_nil, append_nil]
      split
      · exact .inl rfl
      · exact .inr rfl
    rw [he]
    rcases hnote with hn | hn <;> rw [hn]
    · exact ⟨hscale, .nil, nofun⟩
    · exact ⟨hscale, hgrows, hinside⟩
  | true =>
    have hnew := log_new hlive i
    have htcb : (connStep k i).tcb = (handle (k.env i) k.tcb i.2).1.tcb := by
      rw [connStep_live hlive]
    generalize hc : (handle (k.env i) k.tcb i.2).1 = c' at hnew htcb
    have hstep : WindowStep (k.env i) k.tcb i.2 c' := hc ▸ handle_window _ _ _ (hq hlive) hscale
    cases hstep with
    | opens p he ho scale unscaled adds =>
      have hs := opensActive_state ho
      have hadv : ∀ s ∈ segments c'.out, s.Advertises c'.tcb := adds.segments rfl
      have hnote : noteEdges h k i = ⟨0, edgesOf 0 c'.tcb.rcvNxt (segments c'.out)⟩ := by
        unfold noteEdges
        rw [if_pos hs, htcb, hnew]
      have hall := edgesOf_advertises hadv 0 c'.tcb.rcvNxt
      have hall : ∀ e ∈ edgesOf 0 c'.tcb.rcvNxt (segments c'.out), e = c'.tcb.currentRecvWindow := by
        intro e he
        rw [edgesOf_advertises hadv 0 c'.tcb.rcvNxt e he, nearest_self, Nat.zero_add]
      rw [hnote]
      refine ⟨by rw [htcb]; exact scale, pairwise_le_of_eq hall, fun e he => ?_⟩
      rw [hall e he, htcb]
      exact Nat.le_add_left _ _
    | moves move sends =>
      obtain ⟨l, l', hseg, hl, hl'⟩ := sends
      have hseg' : segments c'.out = l ++ l' := hseg
      obtain ⟨hscale', n, hn, hnxt, hedge⟩ := move.keeps (hq hlive) hlive hscale hk
      change c'.tcb.rcvNxt = _ at hnxt
      change k.tcb.currentRecvWindow ≤ n + c'.tcb.currentRecvWindow at hedge
      obtain ⟨h0, hgrows0, hinside0, hnote⟩ : ∃ h0 : EdgeHistory,
          h0.edges.Pairwise (· ≤ ·) ∧ h0.Within k.tcb.currentRecvWindow ∧
          noteEdges h k i = ⟨nearest h0.pos k.tcb.rcvNxt c'.tcb.rcvNxt,
            h0.edges ++ edgesOf h0.pos k.tcb.rcvNxt (l ++ l')⟩ := by
        unfold noteEdges
        simp only [htcb, hnew, hseg']
        by_cases hs : k.tcb.state = .SynSent
        · have hsame : c'.tcb.rcvNxt = k.tcb.rcvNxt := move.synSent hs
          refine ⟨⟨0, []⟩, .nil, nofun, ?_⟩
          rw [if_pos hs, hsame, nearest_self, nil_append]
        · exact ⟨h, hgrows, hinside, by rw [if_neg hs]⟩
      have hpos : nearest h0.pos k.tcb.rcvNxt c'.tcb.rcvNxt = h0.pos + n := by
        rw [hnxt, nearest_ahead _ _ (by omega)]
      have hla : ∀ e ∈ edgesOf h0.pos k.tcb.rcvNxt l, e = h0.pos + k.tcb.currentRecvWindow := by
        intro e he
        rw [edgesOf_advertises hl _ _ e he, nearest_self]
      have hlb : ∀ e ∈ edgesOf h0.pos k.tcb.rcvNxt l',
          e = h0.pos + n + c'.tcb.currentRecvWindow := by
        intro e he
        rw [edgesOf_advertises hl' _ _ e he, hpos]
      rw [hnote, edgesOf_append, hpos]
      refine ⟨by rw [htcb]; exact hscale',
        pairwise_le_append hgrows0 hinside0 hla hlb (by omega), fun e he => ?_⟩
      show e ≤ h0.pos + n + (connStep k i).tcb.currentRecvWindow
      rw [htcb]
      rcases mem_append.mp he with he | he
      · have := hinside0 e he
        omega
      rcases mem_append.mp he with he | he
      · have := hla e he
        omega
      · have := hlb e he
        omega

/-! ## 4. The start -/

theorem buildSynOptions_rcvWscale (h : t.rcvWscale = 0) (isSynAck : Bool)
    (o : Option TcpOptions) (ts : Seq) : (buildSynOptions t isSynAck o ts).2.rcvWscale = 0 := by
  have hs : calculateWindowScale BUFFER_SIZE = 0 := by decide
  unfold buildSynOptions
  rw [hs]
  cases o with
  | none => cases isSynAck <;> first | rfl | exact h
  | some o =>
    simp only
    split_ifs <;> first | rfl | exact h

/-- The first SYN-ACK carries the option exactly where the peer's SYN had it, and scaling is on
    then. -/
theorem synAck_carries (t : Tcb) (o : TcpOptions) (ts : Seq) :
    carriedShift (buildSynOptions t true (some o) ts).1 = none ∨
      carriedShift (buildSynOptions t true (some o) ts).1 = some 0 ∧
        (buildSynOptions t true (some o) ts).2.wscaleOk = true := by
  rw [carriedShift_buildSynOptions]
  cases hw : o.wscalePresent with
  | false => exact .inl (by simp [hw])
  | true =>
    refine .inr ⟨by simp [hw], ?_⟩
    unfold buildSynOptions
    simp only [Option.any_some, hw, Bool.not_true, Bool.false_or, Bool.and_self, if_true]
    split_ifs <;> rfl

/-- The SYN-ACK advertises the window of the TCB with what it negotiated. -/
theorem answerSyn_window (env : Env) (c : Ctx) (p : Packet) (h : c.tcb.rcvWscale = 0) :
    (answerSyn env c p).1.tcb.rcvWscale = 0 ∧
      c.Adds (Segment.Advertises (answerSyn env c p).1.tcb) (answerSyn env c p).1 := by
  have hsend : (sendSynAckWithOptions env c (some (parseOptions p))).1.tcb.rcvWscale = 0 ∧
      c.Adds (Segment.Advertises (sendSynAckWithOptions env c (some (parseOptions p))).1.tcb)
        (sendSynAckWithOptions env c (some (parseOptions p))).1 := by
    unfold sendSynAckWithOptions
    split
    · exact ⟨h, .rfl⟩
    refine ⟨buildSynOptions_rcvWscale h true (some (parseOptions p)) env.timestamp,
      .trans (.of_out_eq rfl) (sendWithOptions_window env _ _ _ _ _
        ⟨fun _ => ⟨rfl, rfl⟩, fun _ h => ?_, fun _ _ => ?_⟩).adds⟩
    · cases h
    · exact synAck_carries c.tcb (parseOptions p) env.timestamp
  unfold answerSyn
  simp only
  split
  · refine ⟨hsend.1, Ctx.Adds.trans (hsend.2.mono fun s hs => ?_) (.of_out_eq rfl)⟩
    refine hs.congr ?_
    rfl
  · exact hsend

/-- A SYN acknowledges nothing. -/
theorem sendFirstSyn_window (env : Env) (c : Ctx) (h : c.tcb.rcvWscale = 0) :
    (sendFirstSyn env c).1.tcb.rcvWscale = 0 ∧
      c.Adds (fun s => s.flags.ack = false) (sendFirstSyn env c).1 := by
  have hsend : (sendSyn env c).1.tcb.rcvWscale = 0 ∧
      c.Adds (fun s => s.flags.ack = false) (sendSyn env c).1 := by
    unfold sendSyn
    split
    · exact ⟨h, .rfl⟩
    · exact ⟨buildSynOptions_rcvWscale h false none env.timestamp,
        .trans (.of_out_eq rfl) (.emit_segment rfl)⟩
  unfold sendFirstSyn
  simp only
  split
  · exact ⟨hsend.1, hsend.2.trans (.of_out_eq rfl)⟩
  · exact hsend

theorem edgeInv_born {k : Conn} (h : Opens k) : EdgeInv (k, born k) := by
  cases h with
  | active env now gen tps e iss o h =>
    simp only [openActive, Prod.mk.injEq] at h
    obtain ⟨rfl, -⟩ := h
    obtain ⟨hscale, hadds⟩ := sendFirstSyn_window env { tcb := activeTcb (newTcb e now gen) iss } rfl
    generalize (sendFirstSyn env { tcb := activeTcb (newTcb e now gen) iss }).1 = c at hscale hadds
    have hnil : edgesOf 0 (o.apply c.tcb).rcvNxt (segments c.out) = [] := by
      have hno := hadds.segments rfl
      rw [edgesOf, filter_eq_nil_iff.mpr fun s hs => by rw [hno s hs]; decide, map_nil]
    have hborn : born (Conn.born now (tickLength tps) (c.upd o.apply)) = ⟨0, []⟩ :=
      congrArg (mk 0) hnil
    rw [hborn]
    exact ⟨hscale, .nil, fun e he => by cases he⟩
  | passive env now gen tps e listener p iss hv ho h =>
    simp only [openPassive, Prod.mk.injEq] at h
    obtain ⟨rfl, -⟩ := h
    have hzero : (passiveTcb (newTcb e now gen) listener p iss).rcvWscale = 0 := by
      unfold passiveTcb takeListenOptions
      simp only
      split_ifs <;> rfl
    obtain ⟨hscale, hadds⟩ :=
      answerSyn_window env { tcb := passiveTcb (newTcb e now gen) listener p iss } p hzero
    generalize (answerSyn env { tcb := passiveTcb (newTcb e now gen) listener p iss } p).1 = c
      at hscale hadds
    have hall : ∀ e ∈ edgesOf 0 c.tcb.rcvNxt (segments c.out), e = c.tcb.currentRecvWindow := by
      intro e he
      rw [edgesOf_advertises (hadds.segments rfl) _ _ e he, nearest_self, Nat.zero_add]
    refine ⟨hscale, pairwise_le_of_eq hall, fun e he => ?_⟩
    rw [hall e he]
    exact Nat.le_add_left _ _

/-! ## 5. The law -/

/-- **What a run promises of the window**: the advertised edges never go back; in-order data inside
    one of them passes the acceptability test, and the ring has the room for it, to be read back
    unless it fills the ring to the last place. -/
structure EdgeLaw (w : Conn × EdgeHistory) : Prop where
  grows : w.2.edges.Pairwise (· ≤ ·)
  accepts : ∀ p : Packet, p.payload ≠ [] → p.tcp.seqNum = w.1.tcb.rcvNxt →
    (∃ e ∈ w.2.edges, w.2.pos + p.payload.length ≤ e) →
    acceptable w.1.tcb p = true ∧ p.payload.length ≤ w.1.tcb.recvSpace ∧
      ((w.1.tcb.recv.pushAll p.payload).contents = w.1.tcb.recv.contents ++ p.payload ↔
        w.1.tcb.recv.used + p.payload.length ≠ BUFFER_SIZE)

theorem acceptable_next {p : Packet} (hs : p.tcp.seqNum = t.rcvNxt)
    (hw : 0 < t.currentRecvWindow) : acceptable t p = true := by
  have h0 : t.currentRecvWindow ≠ 0 := by omega
  simp only [acceptable, hs, dist_self, h0, if_false, hw, decide_true, Bool.true_or, ite_self]

/-- Where the elements fit, they are read back unless they fill the ring. -/
theorem contents_pushAll_iff {r : RingBuf Byte BUFFER_SIZE} {l : List Byte} (hl : l ≠ [])
    (h : r.used + l.length ≤ BUFFER_SIZE) :
    (r.pushAll l).contents = r.contents ++ l ↔ r.used + l.length ≠ BUFFER_SIZE := by
  constructor
  · intro hc hfull
    have hnil : (r.pushAll l).contents = [] := by
      rw [RingBuf.contents, RingBuf.used_pushAll_full r l hfull]
      rfl
    rw [hnil] at hc
    exact hl (append_eq_nil_iff.mp hc.symm).2
  · intro hne
    exact RingBuf.contents_pushAll r l (by omega)

/-- **In a run whose steps keep the edge, no advertised edge is taken back**, and what the peer
    sends inside one is accepted and finds its room. -/
theorem edgeLaw {w : Conn × EdgeHistory} (h : advertising.Reach (fun w i => KeepsEdge w.1 i) w) :
    EdgeLaw w := by
  have hinv : EdgeInv w := by
    refine h.invariant (fun w hw => ?_) fun w i hr hw hk => ?_
    · obtain ⟨k, hist⟩ := w
      obtain ⟨hk, hborn⟩ := hw
      change hist = born k at hborn
      rw [hborn]
      exact edgeInv_born hk
    · exact edgeInv_step hw (queueOk_reach hr.forgetFrom.reachable) hk
  refine ⟨hinv.grows, fun p hp hs he => ?_⟩
  obtain ⟨e, he, hle⟩ := he
  have hin := hinv.inside e he
  have hlen := length_pos_iff.mpr hp
  have hspace := w.1.tcb.currentRecvWindow_le
  have hroom := w.1.tcb.recvSpace_eq
  exact ⟨acceptable_next hs (by omega), by omega, contents_pushAll_iff hp (by omega)⟩

theorem advertising_start (ticksPerSec : Nat) :
    advertising.start (plainClient ticksPerSec, born (plainClient ticksPerSec)) :=
  ⟨plainClient_opens ticksPerSec, rfl⟩

/-- Two segments of four bytes. -/
def twoSegments : List (Env × Event) :=
  [plainSynAck 8192, plainData 501 [1, 2, 3, 4], plainData 505 [5, 6, 7, 8]]

/-- With an empty queue the drain takes nothing. -/
theorem drains_nil {n : Seq} {used : Nat} (h : Drains [] n used l) : l = [] := by
  cases h with
  | stop => rfl
  | next hp => exact absurd hp.length_eq (by simp)

theorem twoSegments_keep :
    advertising.Along (fun w i => KeepsEdge w.1 i)
      (plainClient 1000, born (plainClient 1000)) twoSegments := by
  refine ⟨fun _ ht => ?_, fun _ _ l hl => ?_, fun _ _ l hl => ?_, trivial⟩
  · exact absurd ht (by decide +kernel)
  · have hnil : l = [] := drains_nil hl
    rw [hnil]
    decide +kernel
  · have hnil : l = [] := drains_nil hl
    rw [hnil]
    decide +kernel

/-- There both ACKs advertise the same edge. -/
theorem edgeLaw_twoSegments :
    EdgeLaw (advertising.exec (plainClient 1000, born (plainClient 1000)) twoSegments) ∧
      (advertising.exec (plainClient 1000, born (plainClient 1000))
        twoSegments).2.edges = [8192, 8192] :=
  ⟨edgeLaw (Machine.Reach.exec (.start (advertising_start 1000)) twoSegments_keep),
    by decide +kernel⟩

/-- 7000 bytes into an empty ring of 8192 leave less than a segment free; the next byte is refused. -/
def nearlyFilled : List (Env × Event) :=
  [plainSynAck 8192, plainData 501 (List.replicate 7000 0), plainData 7501 [1]]

/-- **Not every run obeys the law**: the edge goes back from 8192 to 7000. -/
theorem edgeLaw_refuted : ¬ ∀ w, advertising.Reachable w → EdgeLaw w := by
  intro h
  have hlaw := h _ (Machine.Reachable.exec (.start (advertising_start 1000)) nearlyFilled)
  have hedges : (advertising.exec (plainClient 1000, born (plainClient 1000))
      nearlyFilled).2.edges = [8192, 7000] := by decide +kernel
  have hgrows := hlaw.grows
  rw [hedges] at hgrows
  exact absurd hgrows (by decide)

end Zigk.Tcp
