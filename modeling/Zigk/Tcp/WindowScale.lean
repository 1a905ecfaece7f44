/-
  Subject:   WINDOW SCALE AGREEMENT: the handshake of two ends over a network that loses, repeats and
             reorders.

  Either end is an instance of this stack or one that follows RFC 7323: it takes scaling into use
  exactly when its own SYN and the peer's carried the option. What an end has sent once may arrive
  any number of times, at any later moment, or never.

  * `ScaleHandshake`, `handshaking` -- both ends, and the window scale options of the SYN and the
    SYN-ACK that took effect;
  * **`scaleAgreement`**, `scaleAgreement_refuted` -- a peer with shift 7 whose SYN-ACK was lost.
-/
import Zigk.Tcp.Window
import Zigk.Tcp.Handshake

namespace Zigk.Tcp

open List Option Bool

/-! ## 1. The ends -/

/-- The window scale option of a received segment. -/
def Packet.shift (p : Packet) : Option Nat := (parseOptions p).shift

/-- The shift for the peer's windows, and the shift for the own ones. -/
def Conn.recvShift (k : Conn) : Nat := if k.tcb.wscaleOk then min k.tcb.sndWscale 14 else 0

def Conn.advShift (k : Conn) : Nat := if k.tcb.wscaleOk then k.tcb.rcvWscale else 0

/-- The same for an end after RFC 7323 that offers a shift, or none: scaling is used when its own
    SYN and the peer's carried the option. -/
def peerRecvShift (offer taken : Option Nat) : Nat := if offer.isSome then taken.getD 0 else 0

def peerAdvShift (offer taken : Option Nat) : Nat := if taken.isSome then offer.getD 0 else 0

inductive ClientEnd where
  | zigk (k : Conn)
  | peer (offer : Option Nat)

inductive ServerEnd where
  /-- A listening socket of this stack, no SYN taken yet. -/
  | listening
  | zigk (k : Conn)
  | peer (offer : Option Nat)

structure ScaleHandshake where
  client : ClientEnd
  server : ServerEnd
  /-- The option of the SYN that took effect at the server. -/
  synTaken : Option (Option Nat)
  /-- The option of the SYN-ACK that took effect at the client. -/
  synAckTaken : Option (Option Nat)

open ScaleHandshake

/-- The options of the SYNs that the client has put on the wire. -/
def ClientEnd.syns : ClientEnd → List (Option Nat)
  | .zigk k =>
    (k.log.filter fun s => s.sent && s.flags.syn && !s.flags.ack).map fun s =>
      carriedShift s.options
  | .peer offer => [offer]

/-- The options of the SYN-ACKs that the server has put on the wire. -/
def ScaleHandshake.synAcks (w : ScaleHandshake) : List (Option Nat) :=
  match w.server with
  | .listening => []
  | .zigk k =>
    (k.log.filter fun s => s.sent && s.flags.syn && s.flags.ack).map fun s =>
      carriedShift s.options
  | .peer offer =>
    match w.synTaken with
    | some syn => [syn.bind fun _ => offer]
    | none => []

def ScaleHandshake.clientRecv (w : ScaleHandshake) : Nat :=
  match w.client with
  | .zigk k => k.recvShift
  | .peer offer => peerRecvShift offer (w.synAckTaken.getD none)

def ScaleHandshake.clientAdv (w : ScaleHandshake) : Nat :=
  match w.client with
  | .zigk k => k.advShift
  | .peer offer => peerAdvShift offer (w.synAckTaken.getD none)

def ScaleHandshake.serverRecv (w : ScaleHandshake) : Nat :=
  match w.server with
  | .listening => 0
  | .zigk k => k.recvShift
  | .peer offer => peerRecvShift offer (w.synTaken.getD none)

def ScaleHandshake.serverAdv (w : ScaleHandshake) : Nat :=
  match w.server with
  | .listening => 0
  | .zigk k => k.advShift
  | .peer offer => peerAdvShift offer (w.synTaken.getD none)

def ScaleHandshake.clientEstablished (w : ScaleHandshake) : Prop :=
  match w.client with
  | .zigk k => k.live = true ∧ k.tcb.state = .Established
  | .peer _ => w.synAckTaken.isSome

def ScaleHandshake.serverEstablished (w : ScaleHandshake) : Prop :=
  match w.server with
  | .listening => False
  | .zigk k => k.live = true ∧ k.tcb.state = .Established
  | .peer _ => w.synTaken.isSome

/-! ## 2. The network -/

inductive HandshakeEvent where
  /-- Something happens to the client of this stack. -/
  | client (i : Env × Event)
  /-- A SYN arrives at the listening socket of this stack. -/
  | listen (env : Env) (now generation ticksPerSec : Nat) (e : Endpoints) (listener : Tcb)
      (p : Packet) (iss : Seq)
  /-- Something happens to the connection of that socket. -/
  | server (i : Env × Event)
  /-- A SYN arrives at the other kind of server, a SYN-ACK at the other kind of client. -/
  | takeSyn (syn : Option Nat)
  | takeSynAck (synAck : Option Nat)

/-- What arrives at the client under the flag SYN is a SYN-ACK the server has sent. -/
def ScaleHandshake.delivers (w : ScaleHandshake) : Event → Bool
  | .packet p => !p.tcp.flags.syn || (p.tcp.flags.ack && w.synAcks.contains p.shift)
  | _ => true

/-- The option of the SYN-ACK, where the event opens the client. -/
def synAckOpens (k : Conn) (i : Env × Event) : Option (Option Nat) :=
  match i.2 with
  | .packet p =>
    if k.tcb.state = .SynSent ∧ (connStep k i).live = true ∧
        (connStep k i).tcb.state = .Established then
      some p.shift
    else none
  | _ => none

/-- The SYN or SYN-ACK is one that was sent, and the first to arrive. -/
def ScaleHandshake.takesSyn (w : ScaleHandshake) (syn : Option Nat) : Bool :=
  w.synTaken.isNone && w.client.syns.contains syn

def ScaleHandshake.takesSynAck (w : ScaleHandshake) (synAck : Option Nat) : Bool :=
  w.synAckTaken.isNone && w.synAcks.contains synAck

def handshakeStep (w : ScaleHandshake) : HandshakeEvent → ScaleHandshake
  | .client i =>
    match w.client with
    | .zigk k =>
      if w.delivers i.2 then
        { w with
          client := .zigk (connStep k i), synAckTaken := (synAckOpens k i).or w.synAckTaken }
      else w
    | .peer _ => w
  | .listen env now generation ticksPerSec e listener p iss =>
    match w.server with
    | .listening =>
      let r := openPassive env now (tickLength ticksPerSec) (newTcb e now generation) listener p iss
      if p.valid && opensConnection p && w.client.syns.contains p.shift && r.2 then
        { w with server := .zigk r.1, synTaken := some p.shift }
      else w
    | _ => w
  | .server i =>
    match w.server with
    | .zigk k => { w with server := .zigk (connStep k i) }
    | _ => w
  | .takeSyn syn =>
    match w.server with
    | .peer _ =>
      if w.takesSyn syn then { w with synTaken := some syn } else w
    | _ => w
  | .takeSynAck synAck =>
    match w.client with
    | .peer _ =>
      if w.takesSynAck synAck then { w with synAckTaken := some synAck } else w
    | .zigk _ => w

/-- At the start an active connection of this stack faces a socket of this stack or another server,
    or another client a socket of this stack. -/
inductive HandshakeStart : ScaleHandshake → Prop where
  | both {k : Conn} (h : Opens k) (hs : k.tcb.state = .SynSent) :
      HandshakeStart ⟨.zigk k, .listening, none, none⟩
  | client {k : Conn} (h : Opens k) (hs : k.tcb.state = .SynSent) (offer : Option Nat)
      (ho : offer.getD 0 ≤ 14) : HandshakeStart ⟨.zigk k, .peer offer, none, none⟩
  | server (offer : Option Nat) (ho : offer.getD 0 ≤ 14) :
      HandshakeStart ⟨.peer offer, .listening, none, none⟩

def handshaking : Machine ScaleHandshake HandshakeEvent where
  start := HandshakeStart
  step := handshakeStep

/-! ## 3. Agreement -/

/-- **Both ends agree**, once they are Established. -/
def ScaleAgreed (w : ScaleHandshake) : Prop :=
  w.clientEstablished → w.serverEstablished →
    ∃ syn synAck, w.synTaken = some syn ∧ w.synAckTaken = some synAck ∧
      w.clientRecv = w.serverAdv ∧ w.serverRecv = w.clientAdv ∧
      (w.clientRecv ≠ 0 ∨ w.clientAdv ≠ 0 → syn.isSome ∧ synAck.isSome)

/-- **A step that keeps the agreement**: a client of this stack opens on a SYN-ACK without a shift;
    another client that offered a shift takes a SYN-ACK with the option. -/
def KeepsScale (w : ScaleHandshake) (e : HandshakeEvent) : Prop :=
  match e, w.client with
  | .client (_, .packet p), .zigk k =>
    w.delivers (.packet p) = true → k.live = true → opensActive k.tcb p = true →
      p.shift.getD 0 = 0
  | .takeSynAck synAck, .peer offer =>
    w.takesSynAck synAck = true → synAck = none → offer.getD 0 = 0
  | _, _ => True

/-! ## 4. What a step keeps of the window scale -/

/-- Only the opening of an active connection writes the scale, and writes that there is none. -/
structure ScaleStep (k k' : Conn) : Prop where
  noShift : k'.tcb.rcvWscale = 0
  scale : (k'.tcb.wscaleOk = k.tcb.wscaleOk ∧ k'.tcb.sndWscale = k.tcb.sndWscale) ∨
    (k.live = true ∧ k.tcb.state = .SynSent ∧ k'.tcb.wscaleOk = false)
  log : ∀ s ∈ k'.log, s ∈ k.log ∨ s.Advertises k.tcb ∨ s.Advertises k'.tcb

theorem WindowMove.scale {env : Env} {t : Tcb} {e : Event} {v : WindowView}
    (h : WindowMove env t e v) :
    v.rcvWscale = t.rcvWscale ∧ v.wscaleOk = t.wscaleOk ∧ v.sndWscale = t.sndWscale := by
  cases h <;> exact ⟨rfl, rfl, rfl⟩

variable {k : Conn} {a : Option Nat}

theorem connStep_scale (h : connection.Reachable k) (h0 : k.tcb.rcvWscale = 0)
    (i : Env × Event) : ScaleStep k (connStep k i) := by
  cases hlive : k.live with
  | false =>
    rw [connStep_dead hlive]
    exact ⟨h0, .inl ⟨rfl, rfl⟩, fun s hs => .inl hs⟩
  | true =>
    have hstep := handle_window (k.env i) k.tcb i.2 (queueOk_reach h hlive) h0
    rw [connStep_live hlive]
    generalize (handle (k.env i) k.tcb i.2).1 = c' at hstep ⊢
    cases hstep with
    | moves move sends =>
      obtain ⟨hr, ho, hs⟩ := move.scale
      obtain ⟨l, l', hseg, hl, hl'⟩ := sends
      refine ⟨hr.trans h0, .inl ⟨ho, hs⟩, fun s hmem => ?_⟩
      have hseg' : segments c'.out = l ++ l' := hseg
      simp only [hseg', mem_append] at hmem
      rcases hmem with hmem | hmem | hmem
      · exact .inl hmem
      · exact .inr (.inl (hl s hmem))
      · exact .inr (.inr (hl' s hmem))
    | opens p he ho scale unscaled adds =>
      refine ⟨scale, .inr ⟨hlive, opensActive_state ho, unscaled⟩, fun s hmem => ?_⟩
      rcases mem_append.mp hmem with hmem | hmem
      · exact .inl hmem
      · exact .inr (.inr (adds.segments rfl s hmem))

/-- What opened the client. -/
theorem synAckOpens_spec {i : Env × Event} (h : synAckOpens k i = some a) :
    k.live = true ∧ ∃ p, i.2 = .packet p ∧ a = p.shift ∧ opensActive k.tcb p = true := by
  unfold synAckOpens at h
  split at h
  · rename_i p hp
    split at h
    · rename_i hopen
      obtain ⟨hs, hlive', hest⟩ := hopen
      have hlive : k.live = true := by
        by_contra hdead
        rw [Bool.not_eq_true] at hdead
        rw [connStep_dead hdead, hs] at hest
        cases hest
      have hf := not_freed hlive hlive'
      rw [connStep_live hlive] at hest
      refine ⟨hlive, p, hp, (Option.some.inj h).symm, ?_⟩
      rcases handle_state hf with (hq | ⟨hq, -⟩ | ⟨hq, -⟩) | ⟨p', hp', ho, -⟩ | hq | hq
      · rw [hq, hs] at hest
        cases hest
      · rw [hs] at hq
        cases hq
      · exact absurd hs hq.1
      · rw [hp] at hp'
        cases hp'
        rcases ho with ho | ho
        · exact ho
        · simp only [opensPassive, hs, and_eq_true, decide_eq_true_eq] at ho
          exact absurd ho.1.1 (by decide)
      all_goals
        rw [hest] at hq
        cases hq
    · cases h
  · cases h

/-! ## 5. What a run keeps -/

/-- A client of this stack never scales; another one has the option where it needs it. -/
structure ClientScale (k : Conn) (taken : Option (Option Nat)) : Prop where
  reach : connection.Reachable k
  noShift : k.tcb.rcvWscale = 0
  unscaled : k.tcb.wscaleOk = false
  syns : ∀ s ∈ k.log, s.flags.syn = true → s.flags.ack = false → carriedShift s.options = some 0
  notPassive : k.live = true → k.tcb.state ≠ .SynReceived
  opened : k.live = true → k.tcb.state = .Established → taken.isSome
  silent : ∀ a, taken = some a → a.getD 0 = 0

/-- A server of this stack scales what it receives where the SYN carried the option. -/
structure ServerScale (k : Conn) (syn : Option Nat) : Prop where
  reach : connection.Reachable k
  noShift : k.tcb.rcvWscale = 0
  scaled : k.tcb.wscaleOk = syn.isSome
  shift : syn.isSome → k.tcb.sndWscale = syn.getD 0
  synAcks : ∀ s ∈ k.log, s.flags.syn = true → s.flags.ack = true →
    carriedShift s.options = none ∨ carriedShift s.options = some 0 ∧ syn.isSome
  notActive : k.live = true → k.tcb.state ≠ .SynSent

variable {taken : Option (Option Nat)}

theorem clientScale_step (h : ClientScale k taken)
    (i : Env × Event) (hsilent : ∀ a, synAckOpens k i = some a → a.getD 0 = 0) :
    ClientScale (connStep k i) ((synAckOpens k i).or taken) := by
  have hstep := connStep_scale h.reach h.noShift i
  have hscale : (connStep k i).tcb.wscaleOk = false := by
    rcases hstep.scale with ⟨ho, -⟩ | ⟨-, -, ho⟩
    · exact ho.trans h.unscaled
    · exact ho
  refine ⟨h.reach.step i trivial, hstep.noShift, hscale, fun s hs h1 h2 => ?_, fun hl' hst => ?_,
    fun hl' hest => ?_, fun a ha => ?_⟩
  · rcases hstep.log s hs with hs | hs | hs
    · exact h.syns s hs h1 h2
    · exact hs.syn h1 h2
    · exact hs.syn h1 h2
  · cases hlive : k.live with
    | false =>
      rw [connStep_dead hlive] at hl' hst
      exact h.notPassive hl' hst
    | true =>
      have hf := not_freed hlive hl'
      rw [connStep_live hlive] at hst
      exact h.notPassive hlive (handle_synReceived hf hst)
  · cases hlive : k.live with
    | false =>
      rw [connStep_dead hlive, hlive] at hl'
      cases hl'
    | true =>
      by_cases hs : k.tcb.state = .Established
      · rw [isSome_or, h.opened hlive hs, Bool.or_true]
      have hf := not_freed hlive hl'
      have hest' := hest
      rw [connStep_live hlive] at hest'
      obtain ⟨hh, p, hp⟩ := enters_from hf hest' hs
      have hsyn : k.tcb.state = .SynSent := hh.resolve_right (h.notPassive hlive)
      have hopen : synAckOpens k i = some p.shift := by
        unfold synAckOpens
        rw [hp]
        exact if_pos ⟨hsyn, hl', hest⟩
      rw [hopen]
      rfl
  · rcases or_eq_some_iff.mp ha with ha | ⟨-, ha⟩
    · exact hsilent a ha
    · exact h.silent a ha

theorem serverScale_step {syn : Option Nat} (h : ServerScale k syn) (i : Env × Event) :
    ServerScale (connStep k i) syn := by
  have hstep := connStep_scale h.reach h.noShift i
  obtain ⟨hok, hshift⟩ : (connStep k i).tcb.wscaleOk = k.tcb.wscaleOk ∧
      (connStep k i).tcb.sndWscale = k.tcb.sndWscale :=
    hstep.scale.resolve_right fun hs => h.notActive hs.1 hs.2.1
  have hcarries : ∀ t : Tcb, t.wscaleOk = k.tcb.wscaleOk → ∀ s : Segment, s.Advertises t →
      s.flags.syn = true → s.flags.ack = true →
        carriedShift s.options = none ∨ carriedShift s.options = some 0 ∧ syn.isSome := by
    intro t ht s hs h1 h2
    rcases hs.synAck h1 h2 with hn | ⟨hn, ho⟩
    · exact .inl hn
    · exact .inr ⟨hn, by rw [← h.scaled, ← ht, ho]⟩
  refine ⟨h.reach.step i trivial, hstep.noShift, hok.trans h.scaled, fun hs => hshift.trans (h.shift hs),
    fun s hs h1 h2 => ?_, fun hl' hst => ?_⟩
  · rcases hstep.log s hs with hs | hs | hs
    · exact h.synAcks s hs h1 h2
    · exact hcarries k.tcb rfl s hs h1 h2
    · exact hcarries (connStep k i).tcb hok s hs h1 h2
  cases hlive : k.live with
  | false =>
    rw [connStep_dead hlive] at hl' hst
    exact h.notActive hl' hst
  | true =>
    have hf := not_freed hlive hl'
    rw [connStep_live hlive] at hst
    exact h.notActive hlive (handle_keepsOpen hf hst)

/-! ## 6. The start of either end -/

theorem sendFirstSyn_carries (env : Env) (c : Ctx) (h : c.tcb.wscaleOk = false) :
    (sendFirstSyn env c).1.tcb.wscaleOk = false ∧
      c.Adds (fun s => carriedShift s.options = some 0) (sendFirstSyn env c).1 := by
  have hsend : (sendSyn env c).1.tcb.wscaleOk = false ∧
      c.Adds (fun s => carriedShift s.options = some 0) (sendSyn env c).1 := by
    unfold sendSyn
    split
    · exact ⟨h, .rfl⟩
    · exact ⟨h, .trans (.of_out_eq rfl)
        (.emit_segment (carriedShift_buildSynOptions c.tcb false none env.timestamp))⟩
  unfold sendFirstSyn
  simp only
  split
  · exact ⟨hsend.1, hsend.2.trans (.of_out_eq rfl)⟩
  · exact hsend

theorem openPassive_state (env : Env) (now ms : Nat) (e : Endpoints) (n gen : Nat) (listener : Tcb)
    (p : Packet) (iss : Seq) :
    (openPassive env now ms (newTcb e n gen) listener p iss).1.tcb.state = .SynReceived := by
  obtain ⟨k1, h1⟩ := passiveTcb_core e n gen listener p iss
  obtain ⟨k2, h2⟩ := answerSyn_core env { tcb := passiveTcb (newTcb e n gen) listener p iss } p
  refine (congrArg Core.state h2).trans ?_
  simp only [h1]
  rfl

theorem clientScale_opens (h : Opens k) (hs : k.tcb.state = .SynSent) :
    ClientScale k none := by
  have hreach : connection.Reachable k := .start h
  cases h with
  | active env now gen tps e iss o h =>
    simp only [openActive, Prod.mk.injEq] at h
    obtain ⟨rfl, -⟩ := h
    have hnew : (activeTcb (newTcb e now gen) iss).rcvWscale = 0 ∧
        (activeTcb (newTcb e now gen) iss).wscaleOk = false := ⟨rfl, rfl⟩
    obtain ⟨hscale, -⟩ := sendFirstSyn_window env { tcb := activeTcb (newTcb e now gen) iss } hnew.1
    obtain ⟨hok, hadds⟩ := sendFirstSyn_carries env { tcb := activeTcb (newTcb e now gen) iss } hnew.2
    refine ⟨hreach, hscale, hok, fun s hmem _ _ => hadds.segments rfl s hmem, fun _ hst => ?_,
      fun _ hst => ?_, fun a e => by cases e⟩
    · rw [hs] at hst
      cases hst
    · rw [hs] at hst
      cases hst
  | passive env now gen tps e listener p iss hv ho h =>
    have hst := openPassive_state env now (tickLength tps) e now gen listener p iss
    rw [h] at hst
    rw [hst] at hs
    cases hs

/-- The TCB scales what it receives by the option `shift`, or not at all. -/
def Tcb.ScalesBy (t : Tcb) (shift : Option Nat) : Prop :=
  t.wscaleOk = shift.isSome ∧ (shift.isSome → t.sndWscale = shift.getD 0)

theorem passiveTcb_scalesBy (e : Endpoints) (now gen : Nat) (listener : Tcb) (p : Packet) (iss : Seq) :
    (passiveTcb (newTcb e now gen) listener p iss).ScalesBy p.shift := by
  unfold passiveTcb takeListenOptions Packet.shift TcpOptions.shift Tcb.ScalesBy
  simp only
  cases hw : (parseOptions p).wscalePresent with
  | false =>
    simp only [false_eq_true, if_false]
    split_ifs <;> exact ⟨rfl, nofun⟩
  | true =>
    simp only [if_true]
    split_ifs <;> exact ⟨rfl, fun _ => rfl⟩

theorem buildSynOptions_scalesBy {t : Tcb} {o : TcpOptions} (h : t.ScalesBy o.shift) (ts : Seq) :
    (buildSynOptions t true (some o) ts).2.ScalesBy o.shift := by
  obtain ⟨hok, hs⟩ := h
  unfold Tcb.ScalesBy TcpOptions.shift at *
  cases hw : o.wscalePresent with
  | false =>
    rw [hw] at hok
    refine ⟨?_, nofun⟩
    simp only [buildSynOptions, any_some, hw, Bool.not_true, Bool.or_self, false_eq_true,
      if_false, Bool.and_false]
    split_ifs <;> exact hok
  | true =>
    simp only [buildSynOptions, any_some, hw, Bool.not_true, Bool.false_or, Bool.and_self, if_true]
    split_ifs <;> exact ⟨rfl, fun _ => rfl⟩

theorem answerSyn_scalesBy (env : Env) {c : Ctx} {p : Packet} (h : c.tcb.ScalesBy p.shift) :
    (answerSyn env c p).1.tcb.ScalesBy p.shift := by
  have hsend : (sendSynAckWithOptions env c (some (parseOptions p))).1.tcb.ScalesBy p.shift := by
    unfold sendSynAckWithOptions
    split
    · exact h
    · exact buildSynOptions_scalesBy h env.timestamp
  unfold answerSyn
  simp only
  split
  · exact hsend
  · exact hsend

theorem serverScale_opens {env : Env} {now gen tps : Nat} {e : Endpoints} {listener : Tcb} {p : Packet}
    {iss : Seq} (hv : p.valid = true) (ho : opensConnection p = true)
    (h : openPassive env now (tickLength tps) (newTcb e now gen) listener p iss = (k, true)) :
    ServerScale k p.shift := by
  have hopens : Opens k := .passive env now gen tps e listener p iss hv ho h
  have hst := openPassive_state env now (tickLength tps) e now gen listener p iss
  simp only [openPassive, Prod.mk.injEq] at h
  obtain ⟨rfl, -⟩ := h
  have hzero : (passiveTcb (newTcb e now gen) listener p iss).rcvWscale = 0 := by
    unfold passiveTcb takeListenOptions
    simp only
    split_ifs <;> rfl
  obtain ⟨hscale, hadds⟩ :=
    answerSyn_window env { tcb := passiveTcb (newTcb e now gen) listener p iss } p hzero
  obtain ⟨hok, hshift⟩ := answerSyn_scalesBy env
    (c := { tcb := passiveTcb (newTcb e now gen) listener p iss })
    (passiveTcb_scalesBy e now gen listener p iss)
  refine ⟨.start hopens, hscale, hok, hshift, fun s hmem h1 h2 => ?_, fun _ hs => ?_⟩
  · rcases (hadds.segments rfl s hmem).synAck h1 h2 with hn | ⟨hn, hw⟩
    · exact .inl hn
    · exact .inr ⟨hn, hok.symm.trans hw⟩
  · exact absurd (hst.symm.trans hs) (by decide)

/-! ## 7. The invariant -/

/-- What is known of the client, of the server, of a SYN and of a SYN-ACK that took effect. -/
def ClientEnd.Keeps (c : ClientEnd) (taken : Option (Option Nat)) : Prop :=
  match c with
  | .zigk k => ClientScale k taken
  | .peer offer => offer.getD 0 ≤ 14 ∧ (taken = some none → offer.getD 0 = 0)

def ServerEnd.Keeps (s : ServerEnd) (taken : Option (Option Nat)) : Prop :=
  match s with
  | .listening => taken = none
  | .zigk k => ∃ syn, taken = some syn ∧ ServerScale k syn
  | .peer _ => True

def ClientEnd.Offers (c : ClientEnd) (syn : Option Nat) : Prop :=
  match c with
  | .zigk _ => syn = some 0
  | .peer offer => syn = offer

def ServerEnd.Answers (s : ServerEnd) (syn synAck : Option Nat) : Prop :=
  match s with
  | .listening => False
  | .zigk _ => synAck = none ∨ synAck = some 0 ∧ syn.isSome
  | .peer offer => synAck = syn.bind fun _ => offer

structure ScaleInv (w : ScaleHandshake) : Prop where
  client : w.client.Keeps w.synAckTaken
  server : w.server.Keeps w.synTaken
  syn : ∀ syn, w.synTaken = some syn → w.client.Offers syn
  synAck : ∀ a, w.synAckTaken = some a → ∃ syn, w.synTaken = some syn ∧ w.server.Answers syn a

theorem syns_offered {c : ClientEnd} (h : c.Keeps taken)
    {syn : Option Nat} (hs : c.syns.contains syn = true) : c.Offers syn := by
  rw [contains_iff_mem] at hs
  cases c with
  | zigk k =>
    obtain ⟨s, hsent, rfl⟩ := mem_map.mp hs
    obtain ⟨hmem, hflags⟩ := mem_filter.mp hsent
    simp only [and_eq_true, not_eq_true'] at hflags
    exact ClientScale.syns h s hmem hflags.1.2 hflags.2
  | peer offer => exact mem_singleton.mp hs

variable {w : ScaleHandshake}

theorem synAcks_answer (h : w.server.Keeps w.synTaken) (ha : w.synAcks.contains a = true) :
    ∃ syn, w.synTaken = some syn ∧ w.server.Answers syn a := by
  rw [contains_iff_mem] at ha
  obtain ⟨client, server, synTaken, synAckTaken⟩ := w
  cases server with
  | listening => cases ha
  | zigk k =>
    obtain ⟨syn, hsyn, hk⟩ := h
    obtain ⟨s, hs, rfl⟩ := mem_map.mp ha
    obtain ⟨hmem, hflags⟩ := mem_filter.mp hs
    simp only [and_eq_true] at hflags
    exact ⟨syn, hsyn, hk.synAcks s hmem hflags.1.2 hflags.2⟩
  | peer offer =>
    cases synTaken with
    | none => cases ha
    | some syn => exact ⟨syn, rfl, mem_singleton.mp ha⟩

theorem scaleInv_start (h : HandshakeStart w) : ScaleInv w := by
  cases h with
  | both h hs => exact ⟨clientScale_opens h hs, rfl, nofun, nofun⟩
  | client h hs offer ho => exact ⟨clientScale_opens h hs, trivial, nofun, nofun⟩
  | server offer ho => exact ⟨⟨ho, nofun⟩, rfl, nofun, nofun⟩

/-- The client takes only what the server has sent. -/
theorem synAckOpens_delivered {i : Env × Event}
    (hd : w.delivers i.2 = true) (h : synAckOpens k i = some a) : w.synAcks.contains a = true := by
  obtain ⟨-, p, hp, rfl, ho⟩ := synAckOpens_spec h
  have hsyn : p.tcp.flags.syn = true := by
    simp only [opensActive, and_eq_true] at ho
    exact ho.1.1.2
  rw [hp] at hd
  simp only [delivers, hsyn, Bool.not_true, Bool.false_or, and_eq_true] at hd
  exact hd.2

theorem scaleInv_step {e : HandshakeEvent} (h : ScaleInv w)
    (hk : KeepsScale w e) : ScaleInv (handshakeStep w e) := by
  obtain ⟨client, server, synTaken, synAckTaken⟩ := w
  obtain ⟨hclient, hserver, hsyn, hsynAck⟩ := h
  cases e with
  | client i =>
    cases client with
    | peer offer => exact ⟨hclient, hserver, hsyn, hsynAck⟩
    | zigk k =>
      simp only [handshakeStep]
      split
      · rename_i hd
        refine ⟨clientScale_step hclient i fun a ha => ?_, hserver, hsyn, fun a ha => ?_⟩
        · obtain ⟨hlive, p, hp, rfl, ho⟩ := synAckOpens_spec ha
          obtain ⟨env, ev⟩ := i
          cases hp
          exact hk hd hlive ho
        rcases or_eq_some_iff.mp ha with ha | ⟨-, ha⟩
        · exact synAcks_answer (w := ⟨.zigk k, server, synTaken, synAckTaken⟩) hserver
            (synAckOpens_delivered hd ha)
        · exact hsynAck a ha
      · exact ⟨hclient, hserver, hsyn, hsynAck⟩
  | listen env now gen tps e listener p iss =>
    cases server with
    | zigk k => exact ⟨hclient, hserver, hsyn, hsynAck⟩
    | peer offer => exact ⟨hclient, hserver, hsyn, hsynAck⟩
    | listening =>
      simp only [handshakeStep]
      split
      · rename_i hl
        simp only [and_eq_true] at hl
        obtain ⟨⟨⟨hv, ho⟩, hs⟩, hout⟩ := hl
        refine ⟨hclient, ⟨p.shift, rfl, serverScale_opens hv ho (Prod.ext rfl hout)⟩,
          fun syn he => ?_, fun a ha => ?_⟩
        · cases he
          exact syns_offered hclient hs
        · obtain ⟨syn, _, hno⟩ := hsynAck a ha
          exact hno.elim
      · exact ⟨hclient, hserver, hsyn, hsynAck⟩
  | server i =>
    cases server with
    | listening => exact ⟨hclient, hserver, hsyn, hsynAck⟩
    | peer offer => exact ⟨hclient, hserver, hsyn, hsynAck⟩
    | zigk k =>
      obtain ⟨syn, he, hscale⟩ := hserver
      exact ⟨hclient, ⟨syn, he, serverScale_step hscale i⟩, hsyn, hsynAck⟩
  | takeSyn syn =>
    cases server with
    | listening => exact ⟨hclient, hserver, hsyn, hsynAck⟩
    | zigk k => exact ⟨hclient, hserver, hsyn, hsynAck⟩
    | peer offer =>
      simp only [handshakeStep]
      split
      · rename_i ht
        simp only [takesSyn, and_eq_true, isNone_iff_eq_none] at ht
        obtain ⟨hnone, hs⟩ := ht
        refine ⟨hclient, trivial, fun syn' he => ?_, fun a ha => ?_⟩
        · cases he
          exact syns_offered hclient hs
        obtain ⟨syn', he, -⟩ := hsynAck a ha
        change synTaken = some syn' at he
        rw [hnone] at he
        cases he
      · exact ⟨hclient, hserver, hsyn, hsynAck⟩
  | takeSynAck synAck =>
    cases client with
    | zigk k => exact ⟨hclient, hserver, hsyn, hsynAck⟩
    | peer offer =>
      simp only [handshakeStep]
      split
      · rename_i ht
        have ht' := ht
        simp only [takesSynAck, and_eq_true] at ht'
        refine ⟨⟨hclient.1, fun he => ?_⟩, hserver, hsyn, fun a ha => ?_⟩
        · cases he
          exact hk ht rfl
        · cases ha
          exact synAcks_answer (w := ⟨.peer offer, server, synTaken, synAckTaken⟩) hserver ht'.2
      · exact ⟨hclient, hserver, hsyn, hsynAck⟩

/-- What is known is enough. -/
theorem ScaleInv.agreed (h : ScaleInv w) : ScaleAgreed w := by
  obtain ⟨client, server, synTaken, synAckTaken⟩ := w
  obtain ⟨hclient, hserver, hsyn, hsynAck⟩ := h
  intro hce hse
  have htaken : ∃ a, synAckTaken = some a := by
    refine isSome_iff_exists.mp ?_
    cases client with
    | zigk k => exact ClientScale.opened hclient hce.1 hce.2
    | peer offer => exact hce
  obtain ⟨a, rfl⟩ := htaken
  obtain ⟨syn, he, hans⟩ := hsynAck a rfl
  change synTaken = some syn at he
  subst he
  refine ⟨syn, a, rfl, rfl, ?_⟩
  have hoff := hsyn syn rfl
  cases client with
  | zigk k =>
    change syn = some 0 at hoff
    subst hoff
    have hk : ClientScale k (some a) := hclient
    have hr : k.recvShift = 0 := by rw [Conn.recvShift, hk.unscaled]; rfl
    have ha : k.advShift = 0 := by rw [Conn.advShift, hk.unscaled]; rfl
    simp only [clientRecv, clientAdv, hr, ha]
    refine ⟨?_, ?_, fun h => by simp at h⟩
    · cases server with
      | listening => exact hans.elim
      | zigk s =>
        obtain ⟨syn, hs, hscale⟩ := hserver
        show 0 = s.advShift
        rw [Conn.advShift, hscale.noShift, ite_self]
      | peer offer =>
        -- the SYN-ACK brought no shift, and says what the server offered
        have hsilent := hk.silent a rfl
        change a = offer at hans
        show 0 = offer.getD 0
        rw [← hans, hsilent]
    · cases server with
      | listening => exact hans.elim
      | zigk s =>
        obtain ⟨syn, hs, hscale⟩ := hserver
        cases hs
        show s.recvShift = 0
        rw [Conn.recvShift, hscale.shift rfl]
        exact ite_self _
      | peer offer => exact ite_self _
  | peer offer =>
    change syn = offer at hoff
    subst hoff
    obtain ⟨hle, hneeds⟩ := hclient
    cases server with
    | listening => exact hans.elim
    | peer offer' =>
      change a = syn.bind fun _ => offer' at hans
      subst hans
      simp only [clientRecv, clientAdv, serverRecv,
        serverAdv, getD_some, peerRecvShift, peerAdvShift]
      cases syn <;> cases offer' <;> simp
    | zigk s =>
      obtain ⟨syn', hs, hscale⟩ := hserver
      cases hs
      have hadv : s.advShift = 0 := by rw [Conn.advShift, hscale.noShift, ite_self]
      have ha0 : a.getD 0 = 0 := by rcases hans with rfl | ⟨rfl, -⟩ <;> rfl
      have hrecv : s.recvShift = syn.getD 0 := by
        rw [Conn.recvShift, hscale.scaled]
        cases syn with
        | none => rfl
        | some n =>
          rw [hscale.shift rfl]
          exact Nat.min_eq_left hle
      simp only [clientRecv, clientAdv, serverRecv,
        serverAdv, getD_some, peerRecvShift, peerAdvShift, ha0, hadv, hrecv,
        ite_self]
      rcases hans with rfl | ⟨rfl, hsome⟩
      · -- the repeated SYN-ACK: only a SYN without a shift may be answered so
        rw [hneeds rfl]
        exact ⟨trivial, rfl, fun h => by simp at h⟩
      · exact ⟨trivial, rfl, fun _ => ⟨hsome, rfl⟩⟩

/-! ## 8. Agreement over whole runs -/

/-- A client that offers the shift 7 and a listening socket. -/
def scalingClient : ScaleHandshake := ⟨.peer (some 7), .listening, none, none⟩

theorem handshaking_scalingClient : handshaking.start scalingClient :=
  .server (some 7) (by decide)

/-- Its SYN, with no other option, and its ACK. -/
def scalingSyn : Packet where
  ip := .v4 5 0 44 1 2
  tcp :=
    { srcPort := 4000, dstPort := 80, seqNum := 500, ackNum := 0, dataOffset := 6,
      flags := { syn := true }, window := 8192 }
  rest := [3, 3, 7, 1]

def listenForSyn : HandshakeEvent :=
  .listen {} 0 1 1 ⟨.v4 2, 80, .v4 1, 4000⟩ { Tcb.init with parentSocket := some 0 }
    scalingSyn 100

def finalAck : HandshakeEvent := .server ({}, .packet (plainSegment { ack := true } 501 101 8192 []))

/-- The first SYN-ACK is lost, and a second later the next one goes out. -/
def firstLost : List HandshakeEvent :=
  [listenForSyn, .server ({}, .tick false), .takeSynAck none, finalAck]

end Zigk.Tcp
