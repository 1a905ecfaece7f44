/-
  Subject:   THE MAILBOXES (syscall/misc/ipc.zig): messages between processes, first in, first out.

  * `Mail`, `queueMessage`, `recvSection` -- the calls under the lock of a mailbox;
    `mailStep` -- all threads of all processes, from one section to the next;
  * `MailLaw` -- the mailbox is what was sent and not yet taken; who took a message returned it, or
    is about to; at rest nobody sleeps before a message;
  * `MailCalm` -- the copies to the user succeed, nobody takes the slot of another sleeper, and a
    wakeup finds its thread;
  * **`mailbox`** -- the law, in every run of calm steps.

  A send reads its message before it takes the lock and touches nothing else: it is one section.
-/
import Zigk.Proc.Park

namespace Zigk.Mailbox

open Function List
open Sched

/-! ## 1. ipc.zig -/

def MAX_MAILBOX_MESSAGES : Nat := 128
def MAX_PAYLOAD_SIZE : Nat := 2048

structure Message where
  sender_pid : Nat
  payload_len : Nat
  payload : List (BitVec 8)
  deriving DecidableEq, Repr

/-- Where a thread stands in `sys_recv`. -/
inductive RecvCall where
  /-- At the head of the loop. -/
  | head
  /-- In the slot, before its `block()`. -/
  | waiting
  | inBlock
  /-- With a message, before the copy to the user. -/
  | copy (msg : Message)
  deriving DecidableEq, Repr

structure Mail (P T : Type) where
  mailbox : P → List Message := fun _ => []
  mailbox_len : P → Nat := fun _ => 0
  msg_waiter : P → Option T := fun _ => none
  parks : T → Park := fun _ => {}
  calls : T → Option RecvCall := fun _ => none

/-- The processes: where a thread belongs, and the pids. -/
structure Procs (P T : Type) where
  home : T → P
  pid : P → Nat

namespace Mail

variable {P T : Type} [DecidableEq P] [DecidableEq T] (s : Mail P T)

def setCall (t : T) (c : Option RecvCall) : Mail P T :=
  { s with calls := update s.calls t c }

def setPark (t : T) (p : Park) : Mail P T := { s with parks := update s.parks t p }

def setMailbox (p : P) (l : List Message) (len : Nat) : Mail P T :=
  { s with
    mailbox := update s.mailbox p l
    mailbox_len := update s.mailbox_len p len }

def setWaiter (p : P) (w : Option T) : Mail P T :=
  { s with msg_waiter := update s.msg_waiter p w }

def wakeWaiter (p : P) : Mail P T :=
  match s.msg_waiter p with
  | some t => (s.setPark t (s.parks t).unblock).setWaiter p none
  | none => s

def hasRoom (p : P) : Bool := s.mailbox_len p < MAX_MAILBOX_MESSAGES

/-- The section of `sys_send` and of `sendKernelMessage`; without room it fails with `EAGAIN`. -/
def queueMessage (p : P) (msg : Message) : Mail P T :=
  if s.hasRoom p then
    (s.setMailbox p (s.mailbox p ++ [msg]) (s.mailbox_len p + 1)).wakeWaiter p
  else s

/-- A round of `sys_recv` under the lock. -/
def recvSection (p : P) (t : T) : Mail P T :=
  match s.mailbox p with
  | msg :: rest =>
    let len := if s.mailbox_len p > 0 then s.mailbox_len p - 1 else s.mailbox_len p
    (s.setMailbox p rest len).setCall t (some (.copy msg))
  | [] => (s.setWaiter p (some t)).setCall t (some .waiting)

/-- The next section of a thread in `sys_recv`. -/
def next (p : P) (t : T) : RecvCall → Mail P T
  | .head => s.recvSection p t
  | .waiting => (s.setPark t (s.parks t).block).setCall t
      (some (if (s.parks t).pending then .head else .inBlock))
  | .inBlock => s.setCall t (some .head)
  | .copy _ => s.setCall t none

/-- A thread that runs outside of `sys_recv`. -/
def idle (t : T) : Bool := s.calls t = none ∧ (s.parks t).state = .Running

end Mail

/-- The message of a thread: whatever it says, it is from its process. -/
def Message.from (msg : Message) (pid : Nat) : Message := { msg with sender_pid := pid }

/-- A message of the kernel, cut off at the size of a payload and filled up with zeros. -/
def kernelMessage (payload : List (BitVec 8)) : Message where
  sender_pid := 0
  payload_len := min payload.length MAX_PAYLOAD_SIZE
  payload := payload.take MAX_PAYLOAD_SIZE ++ List.replicate (MAX_PAYLOAD_SIZE - payload.length) 0

inductive MailStep (P T : Type) where
  | send (t : T) (target : P) (msg : Message)
  | kernelSend (target : P) (payload : List (BitVec 8))
  | recv (t : T)
  /-- The thread goes on; `ok` says whether a copy to the user succeeds. -/
  | next (t : T) (ok : Bool)
  | preempt (t : T)
  | dispatch (t : T)
  /-- A wakeup from elsewhere, such as a signal. -/
  | unblock (t : T)

section Machine

variable {P T : Type} [DecidableEq P] [DecidableEq T]

def mailStep (ps : Procs P T) (s : Mail P T) : MailStep P T → Mail P T
  | .send t target msg =>
    if s.idle t then s.queueMessage target (msg.from (ps.pid (ps.home t))) else s
  | .kernelSend target payload => s.queueMessage target (kernelMessage payload)
  | .recv t => if s.idle t then s.setCall t (some .head) else s
  | .next t _ =>
    match s.calls t with
    | some c => if (s.parks t).state = .Running then s.next (ps.home t) t c else s
    | none => s
  | .preempt t => s.setPark t (s.parks t).preempt
  | .dispatch t => s.setPark t (s.parks t).dispatch
  | .unblock t => s.setPark t (s.parks t).unblock

def mailMachine (ps : Procs P T) : Machine (Mail P T) (MailStep P T) where
  start s := (∀ p, s.mailbox p = [] ∧ s.mailbox_len p = 0 ∧ s.msg_waiter p = none) ∧
    ∀ t, s.calls t = none
  step := mailStep ps

/-! ## 2. The law -/

/-- What became of a message that was taken. -/
inductive Fate where
  | copying
  /-- `sys_recv` returned with this value. -/
  | returned (value : Nat)
  | lost
  deriving DecidableEq

structure Taken (T : Type) where
  reader : T
  msg : Message
  fate : Fate

/-- What was sent to each process, with the pid of the sender, and what was taken, in order. -/
structure MailHistory (P T : Type) where
  sends : P → List (Nat × Message) := fun _ => []
  taken : P → List (Taken T) := fun _ => []

/-- The end of the copy of `t`. -/
def Taken.settle (t : T) (ok : Bool) (e : Taken T) : Taken T :=
  if e.reader = t ∧ e.fate = .copying then
    { e with fate := if ok then .returned e.msg.sender_pid else .lost }
  else e

def MailHistory.sent (h : MailHistory P T) (s : Mail P T) (p : P) (pid : Nat) (msg : Message) :
    MailHistory P T :=
  if s.hasRoom p then { h with sends := update h.sends p (h.sends p ++ [(pid, msg)]) }
  else h

def MailHistory.setTaken (h : MailHistory P T) (p : P) (l : List (Taken T)) : MailHistory P T :=
  { h with taken := update h.taken p l }

def MailHistory.after (ps : Procs P T) (h : MailHistory P T) (s : Mail P T) :
    MailStep P T → MailHistory P T
  | .send t target msg =>
    if s.idle t then h.sent s target (ps.pid (ps.home t)) (msg.from (ps.pid (ps.home t))) else h
  | .kernelSend target payload => h.sent s target 0 (kernelMessage payload)
  | .next t ok =>
    match s.calls t, (s.parks t).state with
    | some .head, .Running =>
      match s.mailbox (ps.home t) with
      | msg :: _ => h.setTaken (ps.home t) (h.taken (ps.home t) ++ [⟨t, msg, .copying⟩])
      | [] => h
    | some (.copy _), .Running =>
      h.setTaken (ps.home t) ((h.taken (ps.home t)).map (Taken.settle t ok))
    | _, _ => h
  | _ => h

def mailTracked (ps : Procs P T) : Machine (Mail P T × MailHistory P T) (MailStep P T) :=
  (mailMachine ps).track {} (MailHistory.after ps)

/-- Every thread is outside of `sys_recv`, or asleep. -/
def Mail.Quiet (s : Mail P T) : Prop :=
  ∀ t c, s.calls t = some c → c = .inBlock ∧ (s.parks t).state = .Blocked

/-- A message that was taken was returned with its sender, or its reader is about to. -/
def Taken.Kept (ps : Procs P T) (s : Mail P T) (p : P) (e : Taken T) : Prop :=
  match e.fate with
  | .copying => ps.home e.reader = p ∧ s.calls e.reader = some (.copy e.msg)
  | .returned value => value = e.msg.sender_pid
  | .lost => False

def Taken.isCopying (e : Taken T) : Bool := e.fate = .copying

structure MailLaw (ps : Procs P T) (x : Mail P T × MailHistory P T) (p : P) : Prop where
  len : x.1.mailbox_len p = (x.1.mailbox p).length
  bounded : (x.1.mailbox p).length ≤ MAX_MAILBOX_MESSAGES
  fifo : (x.2.sends p).map Prod.snd = (x.2.taken p).map Taken.msg ++ x.1.mailbox p
  sender : ∀ e ∈ x.2.sends p, e.2.sender_pid = e.1
  kept : ∀ e ∈ x.2.taken p, e.Kept ps x.1 p
  once : (((x.2.taken p).filter Taken.isCopying).map Taken.reader).Nodup
  awake : x.1.Quiet → ∀ t, ps.home t = p → x.1.calls t = some .inBlock → x.1.mailbox p = []

/-! ## 3. Calm steps -/

def RecvCall.stage : Option RecvCall → Option WaitStage
  | some .waiting => some .before
  | some .inBlock => some .inBlock
  | _ => none

/-- Where a thread of the process waits. -/
def Mail.stage (ps : Procs P T) (s : Mail P T) (p : P) (t : T) : Option WaitStage :=
  if ps.home t = p then RecvCall.stage (s.calls t) else none

/-- A message that comes in finds whom it wakes. -/
def Mail.FindsWaiter (ps : Procs P T) (s : Mail P T) (p : P) : Prop :=
  s.hasRoom p = true → ∀ u, s.msg_waiter p = some u → Finds s.parks (s.stage ps p) u

def MailCalm (ps : Procs P T) (s : Mail P T) : MailStep P T → Prop
  | .send t target _ => s.idle t = true → s.FindsWaiter ps target
  | .kernelSend target _ => s.FindsWaiter ps target
  | .next t ok =>
    match s.calls t with
    | some .head => s.mailbox (ps.home t) = [] →
        MayTake s.parks (s.stage ps (ps.home t)) (s.msg_waiter (ps.home t)) t
    | some (.copy _) => ok = true
    | _ => True
  | _ => True

/-! ## 4. The invariant -/

structure MailInv (ps : Procs P T) (x : Mail P T × MailHistory P T) (p : P) : Prop where
  slot : SlotInv x.1.parks (x.1.stage ps p) (x.1.msg_waiter p) false
  empty : x.1.msg_waiter p ≠ none → x.1.mailbox p = []
  len : x.1.mailbox_len p = (x.1.mailbox p).length
  bounded : (x.1.mailbox p).length ≤ MAX_MAILBOX_MESSAGES
  fifo : (x.2.sends p).map Prod.snd = (x.2.taken p).map Taken.msg ++ x.1.mailbox p
  sender : ∀ e ∈ x.2.sends p, e.2.sender_pid = e.1
  kept : ∀ e ∈ x.2.taken p, e.Kept ps x.1 p
  once : (((x.2.taken p).filter Taken.isCopying).map Taken.reader).Nodup

variable {ps : Procs P T} {s : Mail P T} {h : MailHistory P T} {p : P} {t : T}

theorem stage_setCall (ps : Procs P T) (s : Mail P T) (p : P) (t : T) (c : Option RecvCall) :
    (s.setCall t c).stage ps p =
      update (s.stage ps p) t (if ps.home t = p then RecvCall.stage c else none) := by
  funext u
  unfold Mail.stage Mail.setCall
  by_cases e : u = t
  · subst e
    simp only [update_self]
  · simp only [update_of_ne e]

namespace MailInv

omit [DecidableEq T] in
/-- **The invariant gives the law.** -/
theorem law {x : Mail P T × MailHistory P T} (hi : MailInv ps x p) : MailLaw ps x p where
  len := hi.len
  bounded := hi.bounded
  fifo := hi.fifo
  sender := hi.sender
  kept := hi.kept
  once := hi.once
  awake hq t ht hc := by
    have hst : x.1.stage ps p t = some .inBlock := by
      rw [Mail.stage, if_pos ht, hc]
      rfl
    have hslot := hi.slot.asleep t hst (hq t _ hc).2
    exact hi.empty (hslot ▸ nofun)

omit [DecidableEq P] [DecidableEq T] in
/-- A message that is kept is kept as long as its reader goes on copying. -/
theorem kept_congr {s' : Mail P T} {e : Taken T} (he : e.Kept ps s p)
    (hcall : e.fate = .copying → s'.calls e.reader = s.calls e.reader) : e.Kept ps s' p := by
  unfold Taken.Kept at he ⊢
  cases hf : e.fate with
  | copying =>
    rw [hf] at he
    exact ⟨he.1, (hcall hf).trans he.2⟩
  | returned v =>
    rw [hf] at he
    exact he
  | lost =>
    rw [hf] at he
    exact he

section

variable (hi : MailInv ps (s, h) p)
include hi

/-- Milder things happen to a thread. -/
theorem setPark {q : Park} (hq : (s.parks t).Milder q) :
    MailInv ps (s.setPark t q, h) p where
  slot := hi.slot.milder (Park.milder_update hq) fun _ => .inr rfl
  empty := hi.empty
  len := hi.len
  bounded := hi.bounded
  fifo := hi.fifo
  sender := hi.sender
  kept := hi.kept
  once := hi.once

/-- A thread that copies nothing goes on to another place of its call, or begins one, with what its
    `block()` did. -/
theorem moved {q : Park} {c : Option RecvCall}
    (hc : ∀ msg, s.calls t ≠ some (.copy msg))
    (hslot : SlotInv (update s.parks t q)
      (update (s.stage ps p) t (if ps.home t = p then RecvCall.stage c else none))
      (s.msg_waiter p) false) : MailInv ps ((s.setPark t q).setCall t c, h) p where
  slot := by
    simp only
    rw [stage_setCall]
    exact hslot
  empty := hi.empty
  len := hi.len
  bounded := hi.bounded
  fifo := hi.fifo
  sender := hi.sender
  kept e he := by
    refine kept_congr (hi.kept e he) fun hf => ?_
    have hk := hi.kept e he
    rw [Taken.Kept, hf] at hk
    refine update_of_ne ?_ ..
    rintro rfl
    exact hc _ hk.2
  once := hi.once

/-- The same without a `block()`. -/
theorem went {c : Option RecvCall}
    (hc : ∀ msg, s.calls t ≠ some (.copy msg))
    (hslot : SlotInv s.parks
      (update (s.stage ps p) t (if ps.home t = p then RecvCall.stage c else none))
      (s.msg_waiter p) false) : MailInv ps (s.setCall t c, h) p := by
  rw [← update_eq_self t s.parks] at hslot
  have hm := hi.moved hc hslot
  have hself : s.setPark t (s.parks t) = s := by
    unfold Mail.setPark
    rw [update_eq_self]
  rwa [hself] at hm

/-- A thread goes to a place where it does not wait. -/
theorem gone {c : Option RecvCall}
    (hc : ∀ msg, s.calls t ≠ some (.copy msg)) (hst : RecvCall.stage c = none) :
    MailInv ps (s.setCall t c, h) p := by
  refine hi.went hc ?_
  rw [hst, ite_self]
  exact hi.slot.leave t

omit [DecidableEq T] in
/-- What is filed for a process: its queue, and what was sent to it. -/
theorem filed {s' : Mail P T} {h' : MailHistory P T} {pid : Nat}
    {msg : Message} (hslot : SlotInv s'.parks (s'.stage ps p) (s'.msg_waiter p) false)
    (hnone : s'.msg_waiter p = none) (hbox : s'.mailbox p = s.mailbox p ++ [msg])
    (hlen : s'.mailbox_len p = s.mailbox_len p + 1) (hroom : s.hasRoom p = true)
    (hcalls : s'.calls = s.calls) (hsends : h'.sends p = h.sends p ++ [(pid, msg)])
    (htaken : h'.taken = h.taken) (hpid : msg.sender_pid = pid) : MailInv ps (s', h') p where
  slot := hslot
  empty hne := absurd hnone hne
  len := by
    simp only [hbox, hlen, length_append, length_singleton]
    exact congrArg (· + 1) hi.len
  bounded := by
    have hlt : s.mailbox_len p < MAX_MAILBOX_MESSAGES := of_decide_eq_true hroom
    have hl : s.mailbox_len p = (s.mailbox p).length := hi.len
    simp only [hbox, length_append, length_singleton]
    omega
  fifo := by
    have hfifo := hi.fifo
    simp only at hfifo ⊢
    rw [hsends, htaken, hbox, map_append, hfifo, append_assoc]
    rfl
  sender e he := by
    simp only [hsends] at he
    rcases mem_append.1 he with he | he
    · exact hi.sender e he
    · rw [mem_singleton.1 he]
      exact hpid
  kept e he := by
    simp only [htaken] at he
    exact kept_congr (hi.kept e he) fun _ => congrFun hcalls _
  once := by
    simp only [htaken]
    exact hi.once

omit [DecidableEq T] in
/-- What happens to another process, or what is only milder to the threads of this one. -/
theorem aside {s' : Mail P T} {h' : MailHistory P T}
    (hparks : ∀ t, (s.parks t).Milder (s'.parks t)) (hcalls : s'.calls = s.calls)
    (hbox : s'.mailbox p = s.mailbox p) (hlen : s'.mailbox_len p = s.mailbox_len p)
    (hslot : s'.msg_waiter p = s.msg_waiter p) (hsends : h'.sends p = h.sends p)
    (htaken : h'.taken p = h.taken p) : MailInv ps (s', h') p where
  slot := by
    simp only [hslot]
    refine hi.slot.milder hparks fun t => .inr ?_
    unfold Mail.stage
    rw [hcalls]
  empty := by
    simp only [hslot, hbox]
    exact hi.empty
  len := by
    simp only [hlen, hbox]
    exact hi.len
  bounded := by
    simp only [hbox]
    exact hi.bounded
  fifo := by
    simp only [hsends, htaken, hbox]
    exact hi.fifo
  sender := by
    simp only [hsends]
    exact hi.sender
  kept := by
    simp only [htaken]
    exact fun e he => kept_congr (hi.kept e he) fun _ => congrFun hcalls _
  once := by
    simp only [htaken]
    exact hi.once

end

omit [DecidableEq T] in
theorem stage_ne_check (s : Mail P T) (p : P) (t : T) : s.stage ps p t ≠ some .check := by
  unfold Mail.stage RecvCall.stage
  split_ifs
  · split <;> exact nofun
  · exact nofun

section

variable (hi : MailInv ps (s, h) p)
include hi

/-- A message comes in. -/
theorem queueMessage (q : P) (pid : Nat) (msg : Message)
    (hpid : msg.sender_pid = pid) (hf : s.FindsWaiter ps q) :
    MailInv ps (s.queueMessage q msg, h.sent s q pid msg) p := by
  unfold Mail.queueMessage MailHistory.sent
  by_cases hroom : s.hasRoom q = true
  · rw [if_pos hroom, if_pos hroom]
    unfold Mail.wakeWaiter
    cases hw : s.msg_waiter q with
    | none =>
      have hw' : (s.setMailbox q (s.mailbox q ++ [msg]) (s.mailbox_len q + 1)).msg_waiter q =
        none := hw
      rw [hw']
      by_cases e : p = q
      · subst e
        exact hi.filed hi.slot hw (update_self ..) (update_self ..) hroom rfl
          (update_self ..) rfl hpid
      · exact hi.aside (fun _ => .refl _) rfl (update_of_ne e ..)
          (update_of_ne e ..) rfl (update_of_ne e ..) rfl
    | some u =>
      have hw' : (s.setMailbox q (s.mailbox q ++ [msg]) (s.mailbox_len q + 1)).msg_waiter q =
        some u := hw
      rw [hw']
      by_cases e : p = q
      · subst e
        have hnone : update s.msg_waiter p none p = none := update_self ..
        have hwoken : SlotInv (update s.parks u (s.parks u).unblock) (s.stage ps p)
            (update s.msg_waiter p none p) false := by
          rw [hnone]
          exact (hi.slot.wake hw (hf hroom u hw)).anyWoken (stage_ne_check s p) false
        exact hi.filed hwoken hnone (update_self ..)
          (update_self ..) hroom rfl (update_self ..) rfl hpid
      · exact hi.aside (Park.milder_update (Park.unblock_milder _)) rfl
          (update_of_ne e ..) (update_of_ne e ..) (update_of_ne e ..)
          (update_of_ne e ..) rfl
  · rw [if_neg hroom, if_neg hroom]
    exact hi

omit [DecidableEq T] in
/-- Who copies nothing is the reader of no copy. -/
theorem reader_ne (hc : ∀ msg, s.calls t ≠ some (.copy msg))
    {e : Taken T} (he : e ∈ h.taken p) (hf : e.fate = .copying) : e.reader ≠ t := by
  have hk := hi.kept e he
  rw [Taken.Kept, hf] at hk
  rintro rfl
  exact hc _ hk.2

/-- The calls of the readers are as they were when another thread goes on. -/
theorem kept_setCall (hc : ∀ msg, s.calls t ≠ some (.copy msg))
    {s' : Mail P T} {c : Option RecvCall} (hcalls : s'.calls = update s.calls t c)
    {e : Taken T} (he : e ∈ h.taken p) : e.Kept ps s' p :=
  kept_congr (hi.kept e he) fun hf => by
    rw [hcalls]
    exact update_of_ne (hi.reader_ne hc he hf) ..

/-- A reader takes the first message. -/
theorem takes (ht : s.calls t = some .head) {msg : Message}
    {rest : List Message} (hbox : s.mailbox (ps.home t) = msg :: rest) :
    MailInv ps (s.recvSection (ps.home t) t,
      h.setTaken (ps.home t) (h.taken (ps.home t) ++ [⟨t, msg, .copying⟩])) p := by
  have hc : ∀ m, s.calls t ≠ some (.copy m) := fun m hm => nomatch ht.symm.trans hm
  have hslot : SlotInv s.parks ((s.setCall t (some (.copy msg))).stage ps p) (s.msg_waiter p)
      false := by
    have hst : RecvCall.stage (some (.copy msg)) = none := rfl
    rw [stage_setCall, hst, ite_self]
    exact hi.slot.leave t
  unfold Mail.recvSection MailHistory.setTaken
  rw [hbox]
  by_cases e : p = ps.home t
  · subst e
    exact {
      slot := hslot
      empty := fun hne => nomatch hbox.symm.trans (hi.empty hne)
      len := by
        have hl : s.mailbox_len (ps.home t) = (s.mailbox (ps.home t)).length := hi.len
        rw [hbox, length_cons] at hl
        simp only [Mail.setCall, Mail.setMailbox, update_self]
        rw [if_pos (hl ▸ Nat.succ_pos _), hl, Nat.add_sub_cancel]
      bounded := by
        have hb := hi.bounded
        simp only [hbox, length_cons] at hb
        simp only [Mail.setCall, Mail.setMailbox, update_self]
        omega
      fifo := by
        have hfifo := hi.fifo
        simp only [hbox] at hfifo
        simp only [Mail.setCall, Mail.setMailbox, update_self, map_append,
          map_cons, map_nil, append_assoc]
        exact hfifo
      sender := hi.sender
      kept := by
        intro e he
        simp only [update_self] at he
        rcases mem_append.1 he with he | he
        · exact hi.kept_setCall hc rfl he
        · rw [mem_singleton.1 he]
          exact ⟨rfl, update_self ..⟩
      once := by
        simp only [update_self]
        have hnew : [(⟨t, msg, .copying⟩ : Taken T)].filter Taken.isCopying =
          [⟨t, msg, .copying⟩] := rfl
        rw [filter_append, hnew, map_append, nodup_append]
        refine ⟨hi.once, nodup_singleton _, fun u hu v hv => ?_⟩
        obtain ⟨e, he, rfl⟩ := mem_map.1 hu
        obtain ⟨he, hf⟩ := mem_filter.1 he
        rw [mem_singleton.1 hv]
        exact hi.reader_ne hc he (of_decide_eq_true hf) }
  · exact {
      slot := hslot
      empty := by
        simp only [Mail.setCall, Mail.setMailbox, update_of_ne e]
        exact hi.empty
      len := by
        simp only [Mail.setCall, Mail.setMailbox, update_of_ne e]
        exact hi.len
      bounded := by
        simp only [Mail.setCall, Mail.setMailbox, update_of_ne e]
        exact hi.bounded
      fifo := by
        simp only [Mail.setCall, Mail.setMailbox, update_of_ne e]
        exact hi.fifo
      sender := hi.sender
      kept := by
        simp only [update_of_ne e]
        exact fun e he => hi.kept_setCall hc rfl he
      once := by
        simp only [update_of_ne e]
        exact hi.once }

/-- A reader that finds nothing takes the slot. -/
theorem sleeps (ht : s.calls t = some .head)
    (hrun : (s.parks t).state = .Running) (hbox : s.mailbox (ps.home t) = [])
    (hm : MayTake s.parks (s.stage ps (ps.home t)) (s.msg_waiter (ps.home t)) t) :
    MailInv ps (s.recvSection (ps.home t) t, h) p := by
  have hc : ∀ m, s.calls t ≠ some (.copy m) := fun m hm => nomatch ht.symm.trans hm
  have hstage : ((s.setWaiter (ps.home t) (some t)).setCall t (some .waiting)).stage ps p =
      update (s.stage ps p) t (if ps.home t = p then some .before else none) :=
    stage_setCall ..
  unfold Mail.recvSection
  rw [hbox]
  exact {
    slot := by
      simp only
      rw [hstage]
      by_cases e : ps.home t = p
      · subst e
        rw [if_pos rfl]
        simp only [Mail.setCall, Mail.setWaiter, update_self]
        exact hi.slot.publish hrun hm fun hw => nomatch hw
      · rw [if_neg e]
        simp only [Mail.setCall, Mail.setWaiter, update_of_ne (Ne.symm e)]
        exact hi.slot.leave t
    empty := fun hne => by
      by_cases e : p = ps.home t
      · exact e ▸ hbox
      · exact hi.empty (update_of_ne e (some t) s.msg_waiter ▸ hne)
    len := hi.len
    bounded := hi.bounded
    fifo := hi.fifo
    sender := hi.sender
    kept := fun e he => hi.kept_setCall hc rfl he
    once := hi.once }

/-- A thread makes its `block()`. -/
theorem blocks (ht : s.calls t = some .waiting) :
    MailInv ps ((s.setPark t (s.parks t).block).setCall t
      (some (if (s.parks t).pending then .head else .inBlock)), h) p := by
  have hst : RecvCall.stage (some (if (s.parks t).pending then .head else .inBlock)) =
      if (s.parks t).pending then none else some .inBlock := by
    cases (s.parks t).pending <;> rfl
  refine hi.moved (fun m hm => nomatch ht.symm.trans hm) ?_
  rw [hst]
  by_cases e : ps.home t = p
  · rw [if_pos e]
    refine hi.slot.block ?_
    change s.stage ps p t = _
    rw [Mail.stage, if_pos e, ht]
    rfl
  · rw [if_neg e]
    refine (hi.slot.other ?_ (s.parks t).block).leave t
    change s.stage ps p t = _
    rw [Mail.stage, if_neg e]

end

omit [DecidableEq P] in
theorem msg_settle (t : T) (ok : Bool) (l : List (Taken T)) :
    (l.map (Taken.settle t ok)).map Taken.msg = l.map Taken.msg := by
  rw [map_map]
  refine map_congr_left fun e _ => ?_
  simp only [Function.comp, Taken.settle]
  split <;> rfl

/-- Who copies after a copy has ended, copied before. -/
theorem copying_settle (t : T) (ok : Bool) (l : List (Taken T)) :
    (((l.map (Taken.settle t ok)).filter Taken.isCopying).map Taken.reader).Sublist
      ((l.filter Taken.isCopying).map Taken.reader) := by
  induction l with
  | nil => exact .slnil
  | cons e l ih =>
    rw [map_cons]
    by_cases hs : e.reader = t ∧ e.fate = .copying
    · have hold : e.isCopying = true := decide_eq_true hs.2
      have hnew : ¬(e.settle t ok).isCopying = true := by
        rw [Taken.settle, if_pos hs]
        cases ok <;> exact nofun
      rw [filter_cons_of_neg hnew, filter_cons_of_pos hold]
      exact ih.cons _
    have hsame : e.settle t ok = e := by rw [Taken.settle, if_neg hs]
    rw [hsame]
    by_cases hf : e.isCopying = true
    · rw [filter_cons_of_pos hf, filter_cons_of_pos hf]
      exact ih.cons_cons _
    · rw [filter_cons_of_neg hf, filter_cons_of_neg hf]
      exact ih

/-- A copy succeeds, and `sys_recv` returns the sender. -/
theorem returns (hi : MailInv ps (s, h) p) :
    MailInv ps (s.setCall t none,
      h.setTaken (ps.home t) ((h.taken (ps.home t)).map (Taken.settle t true))) p := by
  have hslot : SlotInv s.parks ((s.setCall t none).stage ps p) (s.msg_waiter p) false := by
    have hst : RecvCall.stage none = none := rfl
    rw [stage_setCall, hst, ite_self]
    exact hi.slot.leave t
  have hold : ∀ e ∈ h.taken p, (e.fate = .copying → e.reader ≠ t) →
      e.Kept ps (s.setCall t none) p := fun e he hne =>
    kept_congr (hi.kept e he) fun hf => update_of_ne (hne hf) ..
  unfold MailHistory.setTaken
  by_cases e : p = ps.home t
  · subst e
    exact {
      slot := hslot
      empty := hi.empty
      len := hi.len
      bounded := hi.bounded
      fifo := by
        simp only [update_self, msg_settle]
        exact hi.fifo
      sender := hi.sender
      kept := by
        intro e he
        simp only [update_self] at he
        obtain ⟨d, hd, rfl⟩ := mem_map.1 he
        by_cases hs : d.reader = t ∧ d.fate = .copying
        · rw [Taken.settle, if_pos hs]
          exact rfl
        · rw [Taken.settle, if_neg hs]
          exact hold d hd fun hf hr => hs ⟨hr, hf⟩
      once := by
        simp only [update_self]
        exact hi.once.sublist (copying_settle ..) }
  · exact {
      slot := hslot
      empty := hi.empty
      len := hi.len
      bounded := hi.bounded
      fifo := by
        simp only [update_of_ne e]
        exact hi.fifo
      sender := hi.sender
      kept := by
        simp only [update_of_ne e]
        refine fun d hd => hold d hd fun hf => ?_
        have hk := hi.kept d hd
        rw [Taken.Kept, hf] at hk
        rintro rfl
        exact e hk.1.symm
      once := by
        simp only [update_of_ne e]
        exact hi.once }

/-- **A calm step keeps the invariant.** -/
theorem step {x : Mail P T × MailHistory P T} (hi : MailInv ps x p) (i : MailStep P T)
    (hc : MailCalm ps x.1 i) : MailInv ps ((mailTracked ps).step x i) p := by
  obtain ⟨s, h⟩ := x
  change MailInv ps (mailStep ps s i, h.after ps s i) p
  cases i with
  | send t target msg =>
    rw [mailStep, MailHistory.after]
    by_cases hidle : s.idle t = true
    · rw [if_pos hidle, if_pos hidle]
      exact hi.queueMessage target _ _ rfl (hc hidle)
    · rw [if_neg hidle, if_neg hidle]
      exact hi
  | kernelSend target payload => exact hi.queueMessage target 0 _ rfl hc
  | recv t =>
    rw [mailStep]
    split_ifs with hidle
    · refine hi.gone (fun m hm => ?_) rfl
      have hnone : s.calls t = none := (of_decide_eq_true hidle).1
      exact nomatch hnone.symm.trans hm
    · exact hi
  | next t ok =>
    rw [mailStep, MailHistory.after]
    cases ht : s.calls t with
    | none => exact hi
    | some c =>
      simp only
      by_cases hrun : (s.parks t).state = .Running
      · rw [if_pos hrun, hrun]
        rw [MailCalm, ht] at hc
        cases c with
        | head =>
          cases hbox : s.mailbox (ps.home t) with
          | nil => exact hi.sleeps ht hrun hbox (hc hbox)
          | cons msg rest => exact hi.takes ht hbox
        | waiting => exact hi.blocks ht
        | inBlock => exact hi.gone (fun m hm => nomatch ht.symm.trans hm) rfl
        | copy msg =>
          obtain rfl : ok = true := hc
          exact hi.returns
      · rw [if_neg hrun]
        split
        · next hr => exact absurd hr hrun
        · next hr => exact absurd hr hrun
        · exact hi
  | preempt t => exact hi.setPark (Park.preempt_milder _)
  | dispatch t => exact hi.setPark (Park.dispatch_milder _)
  | unblock t => exact hi.setPark (Park.unblock_milder _)

end MailInv

/-- **Every message sent is taken once, in order and with its sender, and returned to who took it;
    at rest nobody sleeps before a message**, in a run of calm steps. -/
theorem mailbox (ps : Procs P T) (x : Mail P T × MailHistory P T)
    (hx : (mailTracked ps).Reach (fun x i => MailCalm ps x.1 i) x) (p : P) : MailLaw ps x p := by
  refine MailInv.law
    (hx.invariant (I := fun x => MailInv ps x p) ?_ fun x i _ hi hc => hi.step i hc)
  rintro ⟨s, h⟩ ⟨⟨hempty, hcalls⟩, hh⟩
  obtain rfl : h = {} := hh
  have hbox : s.mailbox p = [] := (hempty p).1
  have hlen : s.mailbox_len p = 0 := (hempty p).2.1
  have hstage : ∀ t, s.stage ps p t = none := by
    intro t
    have hst : RecvCall.stage (s.calls t) = none := congrArg RecvCall.stage (hcalls t)
    rw [Mail.stage, hst, ite_self]
  exact {
    slot := .idle hstage
    empty := fun _ => hbox
    len := by simp only [hlen, hbox, length_nil]
    bounded := by simp only [hbox, length_nil, Nat.zero_le]
    fifo := by simp only [hbox, map_nil, append_nil]
    sender := nofun
    kept := nofun
    once := nodup_nil }

theorem noMail_start (ps : Procs P T) : (mailTracked ps).start ({}, {}) :=
  ⟨⟨fun _ => ⟨rfl, rfl, rfl⟩, fun _ => rfl⟩, rfl⟩

end Machine

/-- Two processes of one thread each. -/
def twoProcs : Procs Bool Bool where
  home t := t
  pid p := if p then 1 else 2

def greeting : Message := ⟨0, 1, [7]⟩

/-- A receiver goes to sleep, a message comes, and the receiver takes it. -/
def sleepAndTake : List (MailStep Bool Bool) :=
  [.recv true, .next true true, .next true true, .send false true greeting, .dispatch true,
    .next true true, .next true true, .next true true]

/-- It is returned with the pid of its sender. -/
theorem mailbox_sleepAndTake : ∃ x : Mail Bool Bool × MailHistory Bool Bool,
    MailLaw twoProcs x true ∧ (x.2.taken true).map Taken.fate = [.returned 2] := by
  refine ⟨(mailTracked twoProcs).exec ({}, {}) sleepAndTake, mailbox twoProcs _ ?_ true,
    by decide⟩
  refine Machine.Reach.exec (.start (noMail_start twoProcs))
    ⟨trivial, ?_, trivial, ?_, trivial, trivial, ?_, rfl, trivial⟩
  · intro _ u hne hu
    cases u with
    | true => exact absurd rfl hne
    | false => trivial
  · intro _ _ u hu
    obtain rfl : true = u := Option.some.inj hu
    exact fun hb => nomatch hb
  · exact fun hbox => nomatch hbox

/-- **A message whose copy faults is lost**: it was sent, and no `sys_recv` returns it. -/
theorem mailbox_refuted : ¬∀ (x : Mail Bool Bool × MailHistory Bool Bool),
    (mailTracked twoProcs).Reachable x → ∀ p, MailLaw twoProcs x p := by
  intro h
  have hlaw := h _ (Machine.Reachable.exec (.start (noMail_start twoProcs))
    [.send false true greeting, .recv true, .next true true, .next true false]) true
  exact hlaw.kept _ (mem_singleton_self
    (⟨true, greeting.from 2, .lost⟩ : Taken Bool))

end Zigk.Mailbox
