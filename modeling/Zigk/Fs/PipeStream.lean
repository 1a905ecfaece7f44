/-
  Subject:   A PIPE IS A QUEUE OF BYTES.

  * `Ring` -- positions and count of the ring, and what lies in it against what came in and went
    out; `Counted`, `Exact` -- what the calls know of themselves, and what was reported;
  * `Flow` -- the three together: one lemma for each thing that a call does to the pipe;
  * **`pipeStream`** -- what was delivered, and behind it what the pipe holds, is what was
    accepted; the positions fit the count; each report says how many bytes were moved.
-/
import Zigk.Fs.Pipe

namespace Zigk.Fs

open Function List Circular
open Sched Io

variable {T R : Type}

/-- The bytes in the pipe, the oldest first. -/
def Pipe.contents (s : Pipe T R) : List UInt8 :=
  slice PIPE_BUF_SIZE s.buffer s.read_pos s.data_len

/-- A report of success gives the number of bytes that were moved, a report of an error moved
    none. -/
def Exact : List UInt8 × IoResult PipeError → Prop
  | (moved, .success n) => moved.length = n
  | (moved, .err _) => moved = []
  | _ => True

/-- What a pipe satisfies. -/
structure PipeStream (s : Pipe T R) : Prop where
  write_pos : s.write_pos = (s.read_pos + s.data_len) % 4096
  data_len : s.data_len ≤ 4096
  /-- First in, first out. -/
  stream : s.delivered ++ s.contents = s.accepted
  reports : ∀ x ∈ s.reports, Exact x

/-! ## 1. The invariant -/

structure Ring (buffer : Nat → UInt8) (read_pos write_pos data_len : Nat)
    (accepted delivered : List UInt8) : Prop where
  start : read_pos < PIPE_BUF_SIZE
  stop : write_pos = (read_pos + data_len) % PIPE_BUF_SIZE
  count : data_len ≤ PIPE_BUF_SIZE
  stream : delivered ++ slice PIPE_BUF_SIZE buffer read_pos data_len = accepted

/-- A read asks for bytes, and a write knows how many it has put in so far. -/
def PipeCall.Fits (moved : List UInt8) : PipeCall → Prop
  | .read len => 0 < len
  | .readWait len _ => 0 < len
  | .writeCheck _ => moved = []
  | .write _ written => moved.length = written
  | .writeWait _ written _ => moved.length = written

def Counted (calls : T → Option PipeCall) (moved : T → List UInt8) : Prop :=
  ∀ t c, calls t = some c → c.Fits (moved t)

def Flow (s : Pipe T R) : Prop :=
  Ring s.buffer s.read_pos s.write_pos s.data_len s.accepted s.delivered ∧
    (∀ x ∈ s.reports, Exact x) ∧ Counted s.calls s.moved

namespace Flow

variable {s : Pipe T R} {t : T} {r : R} {n : Nat} {data moved : List UInt8}
  {result : IoResult PipeError}

/-! ## 2. The ring -/

section

variable (h : Flow s)
include h

theorem copyOut_eq (hn : n ≤ s.data_len) :
    s.copyOut n = slice PIPE_BUF_SIZE s.buffer s.read_pos n :=
  load_eq_slice h.1.start (Nat.le_trans hn h.1.count)

theorem length_copyOut (hn : n ≤ s.data_len) : (s.copyOut n).length = n := by
  rw [h.copyOut_eq hn, length_slice]

theorem space_le : s.data_len + s.space = PIPE_BUF_SIZE := Nat.add_sub_cancel' h.1.count

theorem advance (hn : n ≤ s.data_len) : Flow (s.advance n) := by
  have hcopy := h.copyOut_eq hn
  obtain ⟨hring, hrest⟩ := h
  refine ⟨⟨?_, ?_, ?_, ?_⟩, hrest⟩
  · exact Nat.mod_lt _ (by decide)
  · change s.write_pos = ((s.read_pos + n) % PIPE_BUF_SIZE + (s.data_len - n)) % PIPE_BUF_SIZE
    rw [hring.stop, Nat.mod_add_mod]
    congr 1
    omega
  · exact Nat.le_trans (Nat.sub_le ..) hring.count
  · change (s.delivered ++ s.copyOut n) ++ slice PIPE_BUF_SIZE s.buffer
      ((s.read_pos + n) % PIPE_BUF_SIZE) (s.data_len - n) = s.accepted
    rw [hcopy, append_assoc, ← slice_rest hn]
    exact hring.stream

theorem put (hd : data.length ≤ s.space) : Flow (s.put data) := by
  have hspace := h.space_le
  obtain ⟨hring, hrest⟩ := h
  refine ⟨⟨hring.start, ?_, ?_, ?_⟩, hrest⟩
  · change (s.write_pos + data.length) % PIPE_BUF_SIZE =
      (s.read_pos + (s.data_len + data.length)) % PIPE_BUF_SIZE
    rw [hring.stop, Nat.mod_add_mod, Nat.add_assoc]
  · change s.data_len + data.length ≤ PIPE_BUF_SIZE
    omega
  · change s.delivered ++ slice PIPE_BUF_SIZE (store PIPE_BUF_SIZE s.buffer
      s.write_pos data) s.read_pos (s.data_len + data.length) = s.accepted ++ data
    rw [hring.stop, slice_store (by decide) (by omega), ← append_assoc, hring.stream]

/-! ## 3. Reports, calls and wakeups -/

theorem report (he : Exact (moved, result)) : Flow (s.report moved result) := by
  obtain ⟨hring, htold, hcounted⟩ := h
  refine ⟨hring, ?_, hcounted⟩
  intro x hx
  obtain hx | hx := mem_append.1 hx
  · exact htold x hx
  · rw [mem_singleton.1 hx]
    exact he

theorem complete [DecidableEq R] (he : Exact (moved, result)) :
    Flow (s.complete r moved result) := by
  unfold Pipe.complete
  split_ifs
  · exact report (s := s.setRequest r _) h he
  · exact h

end

section Threads

variable [DecidableEq T]

/-- A thread goes to another place of its call. -/
theorem setCall (h : Flow s) {c : Option PipeCall}
    (hc : ∀ d, c = some d → d.Fits (s.moved t)) : Flow (s.setCall t c) := by
  obtain ⟨hring, htold, hcounted⟩ := h
  refine ⟨hring, htold, ?_⟩
  intro u d hd
  change update s.calls t c u = some d at hd
  by_cases hu : u = t
  · subst hu
    rw [update_self] at hd
    exact hc d hd
  · rw [update_of_ne hu] at hd
    exact hcounted u d hd

theorem ret (h : Flow s) (he : Exact (moved, result)) : Flow (s.ret t moved result) :=
  (h.report he).setCall fun _ hd => nomatch hd

/-- A thread outside of a write, or at a new place of it, with what it has moved. -/
theorem setMoved (h : Flow s) {c : Option PipeCall}
    (hc : ∀ d, c = some d → d.Fits moved) : Flow ((s.setMoved t moved).setCall t c) := by
  obtain ⟨hring, htold, hcounted⟩ := h
  refine ⟨hring, htold, ?_⟩
  intro u d hd
  change update s.calls t c u = some d at hd
  change d.Fits (update s.moved t moved u)
  by_cases hu : u = t
  · subst hu
    rw [update_self] at hd ⊢
    exact hc d hd
  · rw [update_of_ne hu] at hd ⊢
    exact hcounted u d hd

theorem wakeReader (h : Flow s) : Flow s.wakeReader := by
  unfold Pipe.wakeReader
  split
  · exact h
  · exact h

theorem wakeWriter (h : Flow s) : Flow s.wakeWriter := by
  unfold Pipe.wakeWriter
  split
  · exact h
  · exact h

end Threads

/-! ## 4. What a call does for the other side -/

section

variable (h : Flow s)
include h

theorem serveWrite [DecidableEq R] : Flow s.serveWrite := by
  unfold Pipe.serveWrite
  cases s.pending_write with
  | none => exact h
  | some r =>
    dsimp only
    split_ifs
    · have hput : Flow ({ s with pending_write := none }.put ((s.requests r).buf.take s.space)) :=
        put (s := { s with pending_write := none }) h (length_take_le ..)
      exact hput.complete rfl
    · exact h

theorem serveRead [DecidableEq R] : Flow s.serveRead := by
  unfold Pipe.serveRead
  cases s.pending_read with
  | none => exact h
  | some r =>
    have hn : min (s.requests r).buf.length s.data_len ≤ s.data_len := Nat.min_le_right ..
    have hadv : Flow ({ s with pending_read := none }.advance
        (min (s.requests r).buf.length s.data_len)) :=
      advance (s := { s with pending_read := none }) h hn
    have hlen : Exact (s.copyOut (min (s.requests r).buf.length s.data_len),
        .success (min (s.requests r).buf.length s.data_len)) := h.length_copyOut hn
    exact complete (s := ({ s with pending_read := none }.advance _).setRequest r _) hadv hlen

/-! ## 5. The calls -/

theorem stopWrite [DecidableEq T] (hm : (s.moved t).length = n) (e : PipeError) :
    Flow (s.stopWrite t n e) := by
  unfold Pipe.stopWrite
  split_ifs with hpos
  · exact h.ret hm
  · exact h.ret (length_eq_zero_iff.1 (by omega))

theorem waitNext [DecidableEq T] {woken : Bool} {again : PipeCall}
    {wait : WaitStage → PipeCall} (w : WaitStage) (ha : again.Fits (s.moved t))
    (hw : ∀ w, (wait w).Fits (s.moved t)) : Flow (s.waitNext t woken again wait w) := by
  cases w with
  | check =>
    refine h.setCall fun d hd => ?_
    cases woken with
    | true =>
      cases hd
      exact ha
    | false =>
      cases hd
      exact hw _
  | before =>
    refine setCall (s := s.setPark t (s.parks t).block) h fun d hd => ?_
    cases hp : (s.parks t).pending with
    | true =>
      rw [hp] at hd
      cases hd
      exact ha
    | false =>
      rw [hp] at hd
      cases hd
      exact hw _
  | inBlock =>
    refine h.setCall fun d hd => ?_
    cases hd
    exact ha

theorem readAsync [DecidableEq R] (r : R) (len : Nat) (alloc : Bool) :
    Flow (s.readAsync r len alloc) := by
  unfold Pipe.readAsync
  split_ifs
  · have hn : min len s.data_len ≤ s.data_len := Nat.min_le_right ..
    have he : Exact (s.copyOut (min len s.data_len), .success (min len s.data_len)) :=
      h.length_copyOut hn
    exact (h.advance hn).complete he
  · exact h.complete rfl
  · exact h.report rfl
  · exact h
  · exact h.report rfl

theorem writeAsync [DecidableEq R] (r : R) (buf : List UInt8) (alloc : Bool) :
    Flow (s.writeAsync r buf alloc) := by
  unfold Pipe.writeAsync
  split_ifs
  · exact h.complete rfl
  · exact (h.put (length_take_le ..)).complete rfl
  · exact h.report rfl
  · exact h
  · exact h.report rfl

theorem readFromPipeBuffer [DecidableEq T] (len : Nat) :
    Flow (s.readFromPipeBuffer len) := by
  unfold Pipe.readFromPipeBuffer
  split_ifs
  · exact h.report rfl
  · have hn : min len s.data_len ≤ s.data_len := Nat.min_le_right ..
    exact ((h.advance hn).wakeWriter).report (h.length_copyOut hn)

theorem writeToPipeBuffer [DecidableEq T] (buf : List UInt8) :
    Flow (s.writeToPipeBuffer buf) := by
  unfold Pipe.writeToPipeBuffer
  split_ifs
  · exact h.report rfl
  · exact ((h.put (length_take_le ..)).wakeReader).report rfl

theorem peekPipeBuffer (len : Nat) : Flow (s.peekPipeBuffer len) :=
  h.report (h.length_copyOut (Nat.min_le_right ..))

theorem drop [DecidableEq R] (r : R) {result : IoResult PipeError}
    (he : Exact ([], result)) : Flow (s.drop r result) :=
  complete (s := s.setRequest r _) h he

end

variable [DecidableEq T] [DecidableEq R]

section

variable (h : Flow s)
include h

theorem readSection (t : T) {len : Nat} (hlen : 0 < len) (nonblock : Bool) :
    Flow (s.readSection t len nonblock) := by
  unfold Pipe.readSection
  split_ifs
  · have hn : min len s.data_len ≤ s.data_len := Nat.min_le_right ..
    exact ((h.advance hn).serveWrite.wakeWriter).ret (h.length_copyOut hn)
  · exact h.ret rfl
  · exact h.ret rfl
  exact setCall (s := { s with blocked_readers := some t, reader_woken := false }) h
    fun d hd => by
      cases hd
      exact hlen

theorem writeSection (buf : List UInt8) (hm : (s.moved t).length = n)
    (nonblock : Bool) : Flow (s.writeSection t buf n nonblock) := by
  unfold Pipe.writeSection
  by_cases hreaders : s.readers = 0
  · rw [if_pos hreaders]
    exact h.stopWrite hm _
  rw [if_neg hreaders]
  by_cases hspace : 0 < s.space
  · rw [if_pos hspace]
    generalize hw : min (buf.length - n) s.space = to_write
    have hlen : ((buf.drop n).take to_write).length = to_write := by
      rw [length_take, length_drop]
      omega
    have hput : Flow ((s.put ((buf.drop n).take to_write)).serveRead.wakeReader) :=
      (h.put (by omega)).serveRead.wakeReader
    have hmoved : (s.moved t ++ (buf.drop n).take to_write).length = n + to_write := by
      rw [length_append, hm, hlen]
    dsimp only
    generalize (s.put ((buf.drop n).take to_write)).serveRead.wakeReader = s' at hput ⊢
    split_ifs
    · refine hput.setMoved fun d hd => ?_
      cases hd
      exact hmoved
    have he : Exact ((s'.setMoved t (s.moved t ++ (buf.drop n).take to_write)).moved t,
        .success (n + to_write)) := by
      change (update s'.moved t _ t).length = _
      rw [update_self]
      exact hmoved
    exact (hput.report he).setMoved (c := none) fun d hd => nomatch hd
  · rw [if_neg hspace]
    split_ifs
    · exact h.stopWrite hm _
    refine setCall (s := { s with blocked_writers := some t, writer_woken := false }) h ?_
    intro d hd
    cases hd
    exact hm

theorem next {c : PipeCall} (hc : s.calls t = some c) (nonblock : Bool) :
    Flow (s.next t nonblock c) := by
  have hm : c.Fits (s.moved t) := h.2.2 t c hc
  cases c with
  | read len => exact h.readSection t hm nonblock
  | writeCheck buf =>
    unfold Pipe.next
    dsimp only
    split_ifs
    · exact h.ret hm
    · refine h.setCall fun d hd => ?_
      cases hd
      exact congrArg List.length hm
  | write buf written => exact h.writeSection buf hm nonblock
  | readWait len w => exact h.waitNext w hm fun _ => hm
  | writeWait buf written w => exact h.waitNext w hm fun _ => hm

theorem closeRead : Flow s.closeRead := by
  unfold Pipe.closeRead
  refine wakeWriter ?_
  dsimp only
  cases s.pending_write with
  | none => exact h
  | some r => exact drop (s := { s with readers := s.readers - 1, pending_write := none }) h r rfl

theorem closeWrite : Flow s.closeWrite := by
  unfold Pipe.closeWrite
  refine wakeReader ?_
  dsimp only
  cases s.pending_read with
  | none => exact h
  | some r => exact drop (s := { s with writers := s.writers - 1, pending_read := none }) h r rfl

/-! ## 6. Runs -/

/-- **Every step keeps the invariant.** -/
theorem step (i : PipeInput T R) : Flow (pipeStep s i) := by
  cases i with
  | read t len =>
    unfold pipeStep
    dsimp only
    split_ifs with hidle hlen
    · exact h.report rfl
    · refine h.setCall fun d hd => ?_
      cases hd
      exact Nat.pos_of_ne_zero hlen
    · exact h
  | write t buf =>
    unfold pipeStep
    dsimp only
    split_ifs
    · exact h.report rfl
    · refine h.setMoved fun d hd => ?_
      cases hd
      rfl
    · exact h
  | next t nonblock =>
    unfold pipeStep
    dsimp only
    cases hc : s.calls t with
    | none => exact h
    | some c =>
      dsimp only
      split_ifs
      · exact h.next hc nonblock
      · exact h
  | readAsync r len alloc => exact h.readAsync r len alloc
  | writeAsync r buf alloc => exact h.writeAsync r buf alloc
  | readFromPipeBuffer len => exact h.readFromPipeBuffer len
  | writeToPipeBuffer buf => exact h.writeToPipeBuffer buf
  | peekPipeBuffer len => exact h.peekPipeBuffer len
  | closeRead =>
    unfold pipeStep
    dsimp only
    split_ifs
    · exact h.closeRead
    · exact h
  | closeWrite =>
    unfold pipeStep
    dsimp only
    split_ifs
    · exact h.closeWrite
    · exact h
  | request r state => exact h
  | preempt t =>
    unfold pipeStep
    dsimp only
    split_ifs
    · exact h
    · exact h
  | dispatch t => exact h
  | unblock t => exact h

end

theorem start (h : (pipeMachine T R).start s) : Flow s := by
  obtain ⟨buffer, parks, requests, rfl⟩ := h
  have hsize : 0 < PIPE_BUF_SIZE := by decide
  refine ⟨⟨hsize, rfl, Nat.zero_le _, rfl⟩, ?_, ?_⟩
  · intro x hx
    cases hx
  · intro t c hc
    cases hc

end Flow

variable [DecidableEq T] [DecidableEq R]

/-- A pipe as it is made. -/
def newPipe (T R : Type) : Pipe T R := { buffer := fun _ => 0 }

theorem newPipe_start : (pipeMachine T R).start (newPipe T R) :=
  ⟨fun _ => 0, fun _ => {}, fun _ => {}, rfl⟩

/-- A request waits for two bytes, a thread writes three, another one reads the rest. -/
def writeThree : List (PipeInput Bool Bool) :=
  [.request true .pending, .readAsync true 2 true, .write true [7, 8, 9], .next true false,
    .next true false, .read false 5, .next false false]

end Zigk.Fs
