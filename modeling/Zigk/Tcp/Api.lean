/-
  Subject:   THE CALLS OF THE SOCKET LAYER on one connection (api.zig and the socket options of
             socket/options.zig that write into the TCB).

  * `send` and `recv` move bytes between the application and the rings; `peek` only looks;
  * `sendFinPacket` is the write half of `shutdown`, `close` gives the TCB up at once;
  * `activeTcb` is the TCB `connect` fills in before it sends the SYN.
-/
import Zigk.Tcp.Established

namespace Zigk.Tcp

open Serial (dist place)

/-- The errors of `TcpError` that these calls return. -/
inductive TcpError where
  | NoResources | AlreadyConnected | NotConnected | NetworkError | WouldBlock | ConnectionReset
  deriving DecidableEq

/-! ## 1. Opening -/

/-- `connectIp` up to the SYN: `t0` is the newly allocated TCB with its addresses. -/
def activeTcb (t0 : Tcb) (iss : Seq) : Tcb :=
  { t0 with iss := iss, sndNxt := iss + 1, sndUna := iss, state := .SynSent }

/-- The SYN of `connectIp`; where it does not get out the TCB is freed again. -/
def sendFirstSyn (env : Env) (c : Ctx) : Ctx × Bool :=
  let r := sendSyn env c
  if r.2 then (r.1.upd fun t => { t with retransTimer := 1 }, true) else r

/-! ## 2. Data -/

/-- `send`: as much as fits goes to the send ring, then `transmitPendingData` runs. -/
def send (env : Env) (c : Ctx) (data : List Byte) : Ctx × Except TcpError Nat :=
  if c.tcb.closing then (c, .error .ConnectionReset)
  else if c.tcb.state ≠ .Established ∧ c.tcb.state ≠ .CloseWait then (c, .error .NotConnected)
  else if data.length = 0 then (c, .ok 0)
  else
    let copyLen := min data.length c.tcb.sendBufferSpace
    if copyLen = 0 then (c, .error .WouldBlock)
    else
      let c := c.upd fun t => { t with send := t.send.pushAll (data.take copyLen) }
      (transmitPendingData env c, .ok copyLen)

/-- What `recv` and `peek` answer when no data is there. -/
def noData (t : Tcb) : Except TcpError (List Byte) :=
  match t.state with
  | .CloseWait | .LastAck | .Closing | .TimeWait | .Closed => .ok []
  | .Established | .FinWait1 | .FinWait2 => .error .WouldBlock
  | .Listen | .SynSent | .SynReceived => .error .NotConnected

/-- A window update when at least a segment's worth of room came free in the receive ring, which
    held `oldUsed` bytes before. -/
def windowUpdate (env : Env) (c : Ctx) (oldUsed : Nat) : Ctx :=
  if oldUsed - c.tcb.recvBufferAvailable ≥ DEFAULT_MSS then (sendAck env c).1 else c

/-- `recv` into a buffer of `bufLen` bytes. -/
def recv (env : Env) (c : Ctx) (bufLen : Nat) : Ctx × Except TcpError (List Byte) :=
  if c.tcb.closing then (c, .error .ConnectionReset)
  else
    let available := c.tcb.recvBufferAvailable
    if available > 0 then
      let r := c.tcb.recv.popAll (min bufLen available)
      (windowUpdate env (c.upd fun t => { t with recv := r.2 }) available, .ok r.1)
    else (c, noData c.tcb)

/-- `peek`: like `recv`, without moving the read position and without a window update. -/
def peek (c : Ctx) (bufLen : Nat) : Except TcpError (List Byte) :=
  if c.tcb.closing then .error .ConnectionReset
  else
    let available := c.tcb.recvBufferAvailable
    if available > 0 then .ok (c.tcb.recv.popAll (min bufLen available)).1
    else noData c.tcb

/-! ## 3. Closing -/

/-- A FIN is sent under `snd_nxt` and counted. -/
def sendFinAndCount (env : Env) (c : Ctx) : Ctx :=
  (sendFin env c).1.upd fun t => { t with sndNxt := t.sndNxt + 1 }

/-- `sendFinPacket`. -/
def sendFinPacket (env : Env) (c : Ctx) : Ctx :=
  if c.tcb.closing then c
  else
    match c.tcb.state with
    | .Established | .SynReceived =>
      (sendFinAndCount env c).upd fun t => { t with state := .FinWait1, retransTimer := 1 }
    | .CloseWait =>
      (sendFinAndCount env c).upd fun t => { t with state := .LastAck, retransTimer := 1 }
    | _ => c

/-- `close`; the TCB is freed afterwards. -/
def close (env : Env) (c : Ctx) : Ctx :=
  let c := c.upd fun t => { t with closing := true }
  let c := match c.tcb.state with
    | .SynReceived | .Established | .CloseWait => sendFinAndCount env c
    | _ => c
  c.upd fun t => { t with blockedThread := none, parentSocket := none, state := .Closed }

/-! ## 4. Socket options -/

inductive SockOpt where
  | nodelay (on : Bool)
  | cork (on : Bool)
  | rcvbuf (size : Nat)
  | sndbuf (size : Nat)

/-- The buffer size that a request sets. -/
def bufSize (requested : Nat) : Nat := max 256 (min requested BUFFER_SIZE)

/-- `setsockopt` as far as it reaches the TCB. Clearing the cork flushes. -/
def setsockopt (env : Env) (c : Ctx) : SockOpt → Ctx
  | .nodelay on => c.upd fun t => { t with nodelay := on }
  | .cork on =>
    let c := c.upd fun t => { t with tcpCork := on }
    if on then c else transmitPendingData env c
  | .rcvbuf size => c.upd fun t => { t with rcvBufSize := bufSize size }
  | .sndbuf size => c.upd fun t => { t with sndBufSize := bufSize size }

/-! ## 5. What they do -/

/-- **All `send` can do**: refuse and change nothing, or append what it accepts to the send ring
    and call `transmitPendingData`. -/
theorem send_cases (env : Env) (c : Ctx) (data : List Byte) :
    ((send env c data).1 = c ∧ ∀ n, (send env c data).2 = .ok n → n = 0) ∨
    ∃ n, 0 < n ∧ n ≤ data.length ∧ c.tcb.send.used + n < BUFFER_SIZE ∧
      (c.tcb.state = .Established ∨ c.tcb.state = .CloseWait) ∧
      send env c data = (transmitPendingData env
          (c.upd fun t => { t with send := t.send.pushAll (data.take n) }), .ok n) := by
  unfold send
  split
  · exact .inl ⟨rfl, fun n h => by cases h⟩
  split
  · exact .inl ⟨rfl, fun n h => by cases h⟩
  split
  · exact .inl ⟨rfl, fun n h => by cases h; rfl⟩
  rename_i h1 h2 h3
  simp only
  split
  · exact .inl ⟨rfl, fun n h => by cases h⟩
  rename_i h4
  have hs := c.tcb.sendBufferSpace_lt (by omega)
  refine .inr ⟨_, by omega, Nat.min_le_left _ _, by omega, ?_, rfl⟩
  by_contra hn
  exact h2 (not_or.mp hn)

theorem windowUpdate_core (env : Env) (c : Ctx) (n : Nat) :
    (windowUpdate env c n).tcb.core = c.tcb.core := by
  unfold windowUpdate
  split
  · exact sendAck_core env c
  · rfl

theorem windowUpdate_adds (env : Env) (c : Ctx) (n : Nat) :
    c.Adds (fun s => s.Control ∧ s.Reports c.tcb) (windowUpdate env c n) := by
  unfold windowUpdate
  split
  · exact sendAck_adds env c
  · exact .rfl

/-- **All `recv` can do**: answer without touching the connection, or consume what it returns from
    the receive ring, possibly with a window update. -/
theorem recv_cases (env : Env) (c : Ctx) (bufLen : Nat) :
    ((recv env c bufLen).1 = c ∧ ∀ l, (recv env c bufLen).2 = .ok l → l = []) ∨
    ∃ n, n ≤ c.tcb.recv.used ∧ (recv env c bufLen).2 = .ok (c.tcb.recv.contents.take n) ∧
      ∃ t, t = { c.tcb with recv := c.tcb.recv.advance n } ∧
        (recv env c bufLen).1.tcb.core = t.core ∧
        c.Adds (fun s => s.Control ∧ s.Reports t) (recv env c bufLen).1 := by
  unfold recv
  split
  · exact .inl ⟨rfl, fun l h => by cases h⟩
  simp only
  split
  · refine .inr ⟨min bufLen c.tcb.recv.used, Nat.min_le_right _ _, ?_, _, rfl, ?_, ?_⟩ <;>
      rw [RingBuf.popAll_eq] <;> simp only [Tcb.recvBufferAvailable]
    · rw [RingBuf.slice_eq _ (by omega), List.drop_zero]
    · exact windowUpdate_core env _ _
    · exact (Ctx.Adds.of_out_eq rfl).trans (windowUpdate_adds env (c.upd _) _)
  · refine .inl ⟨rfl, fun l h => ?_⟩
    unfold noData at h
    split at h <;> cases h <;> rfl

/-- The FIN segment of a TCB: its number is `snd_nxt`, it carries nothing else. -/
structure FinOf (t : Tcb) (s : Segment) : Prop where
  fin : s.flags.fin = true
  seq : s.seq = t.sndNxt
  data : s.data = []
  options : s.options = []

theorem FinOf.congr {t t' : Tcb} (h : t'.core.snd = t.core.snd) {s : Segment} (hs : FinOf t' s) :
    FinOf t s :=
  ⟨hs.fin, hs.seq.trans (congrArg SendCore.sndNxt h), hs.data, hs.options⟩

theorem sendFin_adds (env : Env) (c : Ctx) : c.Adds (FinOf c.tcb) (sendFin env c).1 :=
  .emit_segment ⟨rfl, rfl, rfl, rfl⟩

/-- **All `sendFinPacket` can do**: nothing, or send one FIN under `snd_nxt`, count it and leave
    the states in which data is sent. -/
theorem sendFinPacket_cases (env : Env) (c : Ctx) : sendFinPacket env c = c ∨
    (c.tcb.state = .Established ∨ c.tcb.state = .SynReceived ∨ c.tcb.state = .CloseWait) ∧
      (sendFinPacket env c).tcb.core =
        { c.tcb.core with
          snd.sndNxt := c.tcb.sndNxt + 1
          state := if c.tcb.state = .CloseWait then .LastAck else .FinWait1 } ∧
      c.Adds (FinOf c.tcb) (sendFinPacket env c) := by
  unfold sendFinPacket
  split
  · exact .inl rfl
  have hfin := sendFin_adds env c
  split
  · rename_i hs
    exact .inr ⟨.inl hs, by rw [if_neg (by rw [hs]; decide)]; rfl, hfin.trans (.of_out_eq rfl)⟩
  · rename_i hs
    exact .inr ⟨.inr (.inl hs), by rw [if_neg (by rw [hs]; decide)]; rfl,
      hfin.trans (.of_out_eq rfl)⟩
  · rename_i hs
    exact .inr ⟨.inr (.inr hs), by rw [if_pos hs]; rfl, hfin.trans (.of_out_eq rfl)⟩
  · exact .inl rfl

/-- Closing sends at most one FIN, under `snd_nxt`. -/
theorem close_adds (env : Env) (c : Ctx) : (close env c).out = c.out ∨
      (c.tcb.state = .SynReceived ∨ c.tcb.state = .Established ∨ c.tcb.state = .CloseWait) ∧
        c.Adds (FinOf c.tcb) (close env c) := by
  have hfin : c.Adds (FinOf c.tcb)
      (sendFinAndCount env (c.upd fun t => { t with closing := true })) :=
    .trans (.of_out_eq rfl) ((sendFin_adds env (c.upd fun t => { t with closing := true })).trans
      (.of_out_eq rfl) |>.mono fun s hs => ⟨hs.fin, hs.seq, hs.data, hs.options⟩)
  unfold close
  simp only [upd_tcb]
  split
  · exact .inr ⟨.inl (by assumption), hfin.trans (.of_out_eq rfl)⟩
  · exact .inr ⟨.inr (.inl (by assumption)), hfin.trans (.of_out_eq rfl)⟩
  · exact .inr ⟨.inr (.inr (by assumption)), hfin.trans (.of_out_eq rfl)⟩
  · exact .inl rfl

theorem close_iss (env : Env) (c : Ctx) : (close env c).tcb.iss = c.tcb.iss := by
  unfold close
  simp only
  split <;> rfl

/-- A socket option other than a cleared cork changes no stream variable and sends nothing. -/
theorem setsockopt_cases (env : Env) (c : Ctx) (o : SockOpt) :
    ((setsockopt env c o).tcb.core = c.tcb.core ∧ (setsockopt env c o).out = c.out) ∨
    (o = .cork false ∧ setsockopt env c o =
      transmitPendingData env (c.upd fun t => { t with tcpCork := false })) := by
  cases o with
  | nodelay on => exact .inl ⟨rfl, rfl⟩
  | cork on =>
    cases on with
    | true => exact .inl ⟨rfl, rfl⟩
    | false => exact .inr ⟨rfl, rfl⟩
  | rcvbuf size => exact .inl ⟨rfl, rfl⟩
  | sndbuf size => exact .inl ⟨rfl, rfl⟩

end Zigk.Tcp
