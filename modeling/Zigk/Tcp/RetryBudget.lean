/-
  Subject:   HOW MANY RETRANSMISSION TIMEOUTS A CONNECTION SURVIVES, over whole runs.

  `processTimers` gives a connection up at its eighth retransmission timeout. What should count
  are the timeouts since the peer last acknowledged something new; the code counts those since
  the handshake, because only the handshake clears `retrans_count`.

  * **`retryBudget`** -- in a run in which new acknowledgements arrive only while no timeout is
    counted (`CountCleared`), a connection is given up only after `MAX_RETRIES` such timeouts.
-/
import Zigk.Tcp.Steps

namespace Zigk.Tcp

open Serial (dist place)

/-! ## 1. Counting timeouts -/

/-- The connection with the number of retransmission timeouts since `snd_una` last moved. -/
def counted : Machine (Conn × Nat) (Env × Event) :=
  connection.track 0 fun n k i =>
    if (connStep k i).tcb.sndUna ≠ k.tcb.sndUna then 0
    else if k.live then n + timeouts (k.env i) k.tcb i.2
    else n

/-- The event makes `processTimers` give the connection up for too many retransmissions. -/
def GivesUp (k : Conn) (i : Env × Event) : Prop :=
  k.live = true ∧ i.2 = .tick false ∧ expires (k.env i) k.tcb = false ∧
    exhausted (k.env i) k.tcb = true

/-- A packet brings a new acknowledgement to an open connection. -/
def AcksNew (t : Tcb) (e : Event) : Prop :=
  ∃ p, e = .packet p ∧ reachesHandler t p = true ∧
    (t.state = .Established ∨ t.state = .CloseWait) ∧ acksNew t p = true

/-- New acknowledgements arrive only while no timeout is counted. -/
def CountCleared (k : Conn) (i : Env × Event) : Prop :=
  AcksNew k.tcb i.2 → k.tcb.retransCount = 0

/-- **One event on the count**: it starts again with the handshake; otherwise it grows by the
    timeouts, and `snd_una` moves only for a new acknowledgement. -/
theorem retransCount_step {env : Env} {t : Tcb} {e : Event} {c' : Ctx} (h : SendStep env t e c') :
    c'.tcb.retransCount = 0 ∨ c'.tcb.retransCount = t.retransCount + timeouts env t e ∧
        (c'.tcb.sndUna = t.sndUna ∨ AcksNew t e) := by
  cases h with
  | quiet acc snd count state adds => exact .inr ⟨count, .inl (congrArg SendCore.sndUna snd)⟩
  | opens p he ho state count snd adds => exact .inl count
  | transmits c1 point adds1 snd count state adds =>
    refine .inr ⟨count, ?_⟩
    obtain ⟨n, hn⟩ := transmitPendingData_core env c1
    have huna : c'.tcb.sndUna = c1.tcb.sndUna :=
      (congrArg SendCore.sndUna snd).trans (congrArg (·.snd.sndUna) hn)
    generalize ht' : c1.tcb = t' at point huna
    cases point with
    | ack hr hst hn =>
      rename_i p
      exact .inr ⟨p, rfl, hr, .inl hst, hn⟩
    | dupAck hr hst hd hf =>
      rename_i p
      exact .inl (huna.trans (congrArg (·.snd.sndUna)
        ((countDupAck_core (seenTcb t p)).trans (seenTcb_core t p))))
    | send hst hroom hn hok => exact .inl huna
    | uncork => exact .inl huna
    | timeout hg =>
      exact .inl (huna.trans (congrArg (·.snd.sndUna)
        ((persistStep_core env _).trans (delayedAck_core env { tcb := t }))))
  | closeWaitAck p he hr hst hn snd count state out =>
    subst he
    exact .inr ⟨count, .inr ⟨p, rfl, hr, .inr hst, hn⟩⟩
  | fin hf he snd count state adds =>
    subst he
    exact .inr ⟨count, .inl (congrArg SendCore.sndUna snd)⟩
  | finAgain hf he hst snd count state adds =>
    exact .inr ⟨count, .inl (congrArg SendCore.sndUna snd)⟩

/-! ## 2. The count of the code and the count of the law -/

/-- While the connection lives, the code counts no more than the timeouts since the last new
    acknowledgement. -/
def CountOk (w : Conn × Nat) : Prop := w.1.live = true → w.1.tcb.retransCount ≤ w.2

theorem countOk_start {w : Conn × Nat} (h : Opens w.1 ∧ w.2 = 0) : CountOk w := by
  obtain ⟨⟨st, iss, irs, rcvNxt, sackOk, parent, -, hcore⟩, -⟩ := h.1.fresh
  intro _
  rw [show w.1.tcb.retransCount = 0 from congrArg Core.retransCount hcore]
  exact Nat.zero_le _

theorem countOk_step {w : Conn × Nat} {i : Env × Event} (h : CountOk w) (hc : CountCleared w.1 i) :
    CountOk (counted.step w i) := by
  intro hlive'
  change (connStep w.1 i).live = true at hlive'
  show (connStep w.1 i).tcb.retransCount ≤
    if (connStep w.1 i).tcb.sndUna ≠ w.1.tcb.sndUna then 0
    else if w.1.live then w.2 + timeouts (w.1.env i) w.1.tcb i.2 else w.2
  cases hlive : w.1.live with
  | false =>
    rw [connStep_dead hlive, hlive] at hlive'
    cases hlive'
  | true =>
    have hstep := handle_send (w.1.env i) w.1.tcb i.2 (not_freed hlive hlive')
    have htcb : (connStep w.1 i).tcb = (handle (w.1.env i) w.1.tcb i.2).1.tcb := by
      rw [connStep_live hlive]
    have hle := h hlive
    rw [htcb, if_pos rfl]
    rcases retransCount_step hstep with h0 | ⟨hcount, huna⟩
    · rw [h0]
      exact Nat.zero_le _
    split
    · rename_i hne
      -- `snd_una` moved, so this is a new acknowledgement, and no timeout is counted
      have hacks : AcksNew w.1.tcb i.2 := huna.resolve_left hne
      have h0 := hc hacks
      obtain ⟨p, hp, -⟩ := hacks
      rw [hcount, h0, hp]
      exact le_rfl
    · omega

/-- **In such a run a connection is given up only for `MAX_RETRIES` timeouts since the last new
    acknowledgement.** -/
theorem retryBudget (w : Conn × Nat) (h : counted.Reach (fun w i => CountCleared w.1 i) w)
    (i : Env × Event) (hg : GivesUp w.1 i) :
    MAX_RETRIES ≤ w.2 + timeouts (w.1.env i) w.1.tcb i.2 := by
  obtain ⟨hlive, he, hx, hex⟩ := hg
  have hok : CountOk w := h.invariant (I := CountOk) (fun _ h => countOk_start h)
    fun _ _ _ h hc => countOk_step h hc
  have hle := hok hlive
  simp only [exhausted, Bool.and_eq_true, decide_eq_true_eq] at hex
  have hone : timeouts (w.1.env i) w.1.tcb i.2 = 1 := by
    rw [he]
    show (if !expires (w.1.env i) w.1.tcb && timesOut (w.1.env i) w.1.tcb then 1 else 0) = 1
    rw [hx, hex.1]
    rfl
  omega

theorem counted_start (ticksPerSec : Nat) : counted.start (plainClient ticksPerSec, 0) :=
  ⟨plainClient_opens ticksPerSec, rfl⟩

def tickOnly : Env × Event := ({}, .tick false)

/-- Ticks bring no acknowledgements. -/
theorem along_ticks (w : Conn × Nat) (n : Nat) :
    counted.Along (fun w i => CountCleared w.1 i) w (List.replicate n tickOnly) := by
  induction n generalizing w with
  | zero => trivial
  | succ n ih =>
    refine ⟨?_, ih _⟩
    rintro ⟨p, hp, -⟩
    cases hp

/-- A byte that is never acknowledged, at one tick a second: the timeouts double up to 64
    seconds. -/
def unanswered : List (Env × Event) :=
  plainSynAck 8192 :: ({}, .send [97]) :: List.replicate 190 tickOnly

theorem unanswered_cleared :
    counted.Along (fun w i => CountCleared w.1 i) (plainClient 1, 0) unanswered := by
  refine ⟨fun _ => by decide +kernel, ?_, along_ticks _ 190⟩
  rintro ⟨p, hp, -⟩
  cases hp

theorem retryBudget_unanswered : MAX_RETRIES ≤ (counted.exec (plainClient 1, 0) unanswered).2 +
      timeouts ((counted.exec (plainClient 1, 0) unanswered).1.env tickOnly)
        (counted.exec (plainClient 1, 0) unanswered).1.tcb tickOnly.2 :=
  retryBudget (counted.exec (plainClient 1, 0) unanswered)
    (Machine.Reach.exec (.start (counted_start 1)) unanswered_cleared) tickOnly
    ⟨by decide +kernel, rfl, by decide +kernel, by decide +kernel⟩

/-- A byte is sent and lost, the timer retransmits it, and it is acknowledged. -/
def lossRound (j : Nat) : List (Env × Event) :=
  [({}, .send [97]), tickOnly,
    ({}, .packet (plainSegment { ack := true } 501 (.ofNat 32 (102 + j)) 8192 []))]

/-- Seven losses, all recovered, and an eighth byte on its way. -/
def eightLosses : List (Env × Event) :=
  (plainSynAck 8192 :: (List.range 7).flatMap lossRound).concat ({}, .send [97])

/-- **Not every connection is given up for want of progress**: after eight losses, each recovered
    at the first attempt, one timeout since the last acknowledgement is enough. -/
theorem retryBudget_refuted : ¬ ∀ w, counted.Reachable w → ∀ i, GivesUp w.1 i →
        MAX_RETRIES ≤ w.2 + timeouts (w.1.env i) w.1.tcb i.2 := by
  intro h
  have hrun := h (counted.exec (plainClient 1, 0) eightLosses)
    (Machine.Reachable.exec (.start (counted_start 1)) eightLosses) tickOnly
    ⟨by decide +kernel, rfl, by decide +kernel, by decide +kernel⟩
  exact absurd hrun (by decide +kernel)

end Zigk.Tcp
