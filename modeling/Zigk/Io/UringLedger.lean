/-
  Subject:   WHERE EACH SQE AND EACH REQUEST OF A RING IS.

  * `Books s o h` -- the books with the SQEs `o` and the requests `h` in hand: one lemma for each
    thing that the operations do to them;
  * `owes`, `hands` -- the SQE and the request of the call in progress; `Inv`;
  * `Serves`, `Calm` -- an operation that meets outside what it needs, and a CQE that finds room;
  * **`ringAccounting`** -- in every run of calm steps; `ringAccounting_refuted` -- three
    operations on a ring of two CQEs.
-/
import Zigk.Io.Uring

namespace Zigk.Uring

open Function List Option IoUring

variable {s t : IoUring} {o h : List Nat} {r n : Nat} {q : Request}

/-! ## 1. The books -/

structure Books (s : IoUring) (o h : List Nat) : Prop where
  /-- Each SQE is answered, waits in a pending request, is in hand, or went with the instance. -/
  sqes : ∀ n, (s.posted.map Prod.fst).count n +
    (s.pending_requests.map fun r => (s.requests r).sqe).count n + o.count n +
    s.abandoned.count n = if n < s.consumed.length then 1 else 0
  /-- Each request was freed, is pending, or is in hand. -/
  reqs : ∀ r, s.freed.count r + s.pending_requests.count r + h.count r =
    if r < s.next_id then 1 else 0
  buffers : ∀ r, s.buffers.count r =
    s.buffersFreed.count r + if (s.requests r).bounce_buf = true then 1 else 0
  once : ∀ r, s.buffers.count r ≤ 1
  unused : ∀ r, s.next_id ≤ r → s.buffers.count r = 0
  /-- A freed request has no buffer. -/
  clear : ∀ r ∈ s.freed, (s.requests r).bounce_buf = false
  carried : ∀ p ∈ s.posted, s.consumed[p.1]? = some p.2
  waiting : ∀ r ∈ s.pending_requests, (s.requests r).state ≠ .idle ∧
    s.consumed[(s.requests r).sqe]? = some (s.requests r).user_data
  count : s.allocated_count = s.others + s.pending_requests.length + h.length
  pool : s.allocated_count ≤ MAX_REQUESTS
  inside : ∀ u ∈ s.used, u.1 < u.2
  entries : 0 < s.sq_ring_entries

variable {op : IoOpType} {user_data : Nat}

namespace Books

/-- Where the call stands, and what the user can rewrite, is in no book. -/
theorem goto (hb : Books s o h) (pc : Pc) : Books (s.goto pc) o h :=
  ⟨hb.sqes, hb.reqs, hb.buffers, hb.once, hb.unused, hb.clear, hb.carried, hb.waiting, hb.count,
    hb.pool, hb.inside, hb.entries⟩

theorem setMem (hb : Books s o h) (m : SharedMemory) : Books (s.setMem m) o h :=
  ⟨hb.sqes, hb.reqs, hb.buffers, hb.once, hb.unused, hb.clear, hb.carried, hb.waiting, hb.count,
    hb.pool, hb.inside, hb.entries⟩

theorem use (hb : Books s o h) {i size : Nat} (hi : i < size) : Books (s.use i size) o h := by
  refine ⟨hb.sqes, hb.reqs, hb.buffers, hb.once, hb.unused, hb.clear, hb.carried, hb.waiting,
    hb.count, hb.pool, ?_, hb.entries⟩
  intro u hu
  obtain hu | hu := mem_append.1 hu
  · exact hb.inside u hu
  · rw [mem_singleton.1 hu]
    exact hi

/-- A request in hand is nowhere else. -/
theorem of_hand (hb : Books s o (r :: h)) :
    r < s.next_id ∧ r ∉ s.freed ∧ r ∉ s.pending_requests := by
  have hr := hb.reqs r
  rw [count_cons_self] at hr
  split_ifs at hr with hlt
  · refine ⟨hlt, ?_, ?_⟩
    · rw [← List.count_eq_zero]
      omega
    · rw [← List.count_eq_zero]
      omega

/-- The requests are written, but the pending ones keep their SQEs and are not `idle`. -/
theorem moved (hb : Books s o h) {f : Nat → Request}
    (hf : ∀ r ∈ s.pending_requests, (f r).sqe = (s.requests r).sqe ∧
      (f r).user_data = (s.requests r).user_data ∧
      ((s.requests r).state ≠ .idle → (f r).state ≠ .idle)) :
    (∀ n, (s.posted.map Prod.fst).count n + (s.pending_requests.map fun r => (f r).sqe).count n +
      o.count n + s.abandoned.count n = if n < s.consumed.length then 1 else 0) ∧
    ∀ r ∈ s.pending_requests, (f r).state ≠ .idle ∧
      s.consumed[(f r).sqe]? = some (f r).user_data := by
  constructor
  · intro n
    rw [map_congr_left fun r hr => (hf r hr).1]
    exact hb.sqes n
  · intro r hr
    obtain ⟨hs, hu, hi⟩ := hf r hr
    obtain ⟨hidle, hown⟩ := hb.waiting r hr
    refine ⟨hi hidle, ?_⟩
    rw [hs, hu]
    exact hown

theorem kept_of_eq {f : Nat → Request} (hf : f r = s.requests r) :
    (f r).sqe = (s.requests r).sqe ∧ (f r).user_data = (s.requests r).user_data ∧
      ((s.requests r).state ≠ .idle → (f r).state ≠ .idle) := by
  rw [hf]
  exact ⟨rfl, rfl, id⟩

theorem kept_update (hs : q.sqe = (s.requests r).sqe) (hu : q.user_data = (s.requests r).user_data)
    (hstate : (s.requests r).state ≠ .idle → q.state ≠ .idle) (r' : Nat) :
    (update s.requests r q r').sqe = (s.requests r').sqe ∧
      (update s.requests r q r').user_data = (s.requests r').user_data ∧
      ((s.requests r').state ≠ .idle → (update s.requests r q r').state ≠ .idle) := by
  by_cases he : r' = r
  · rw [he, update_self]
    exact ⟨hs, hu, hstate⟩
  · exact kept_of_eq (update_of_ne he ..)

theorem bounce_update (hbuf : q.bounce_buf = (s.requests r).bounce_buf) (r' : Nat) :
    (update s.requests r q r').bounce_buf = (s.requests r').bounce_buf := by
  by_cases he : r' = r
  · rw [he, update_self, hbuf]
  · rw [update_of_ne he]

/-- A request changes, but not its SQE and not its buffer. -/
theorem setRequest (hb : Books s o h) (hs : q.sqe = (s.requests r).sqe)
    (hu : q.user_data = (s.requests r).user_data)
    (hbuf : q.bounce_buf = (s.requests r).bounce_buf)
    (hstate : (s.requests r).state ≠ .idle → q.state ≠ .idle) : Books (s.setRequest r q) o h := by
  have hm := hb.moved fun r' _ => kept_update hs hu hstate r'
  have hbounce := bounce_update hbuf
  refine ⟨hm.1, hb.reqs, ?_, hb.once, hb.unused, ?_, hb.carried, hm.2,
    hb.count, hb.pool, hb.inside, hb.entries⟩
  · intro r'
    change _ = _ + if (update s.requests r q r').bounce_buf = true then 1 else 0
    rw [hbounce]
    exact hb.buffers r'
  intro r' hr
  change (update s.requests r q r').bounce_buf = false
  rw [hbounce]
  exact hb.clear r' hr

/-- A request from the pool. -/
theorem alloc (hb : Books s o h)
    (ha : s.alloc op user_data n = some (r, t)) : Books t o (r :: h) := by
  unfold IoUring.alloc at ha
  split_ifs at ha with hroom
  cases ha
  have hnew : ∀ r', r' < s.next_id ∨ r' ∈ s.pending_requests →
      update s.requests s.next_id { op := op, user_data := user_data, sqe := n } r' =
        s.requests r' := by
    intro r' hr
    refine update_of_ne ?_ ..
    intro he
    subst he
    obtain hlt | hmem := hr
    · exact absurd hlt (lt_irrefl _)
    have hr := hb.reqs s.next_id
    rw [if_neg (lt_irrefl _)] at hr
    have := count_pos_iff.2 hmem
    omega
  have hlt_of : ∀ r', r' ∈ s.freed → r' < s.next_id := by
    intro r' hr
    by_contra hge
    have hc := hb.reqs r'
    rw [if_neg hge] at hc
    have := count_pos_iff.2 hr
    omega
  have hm := hb.moved fun r' hr => kept_of_eq (hnew r' (.inr hr))
  refine ⟨hm.1, ?_, ?_, hb.once, ?_, ?_, hb.carried, hm.2, ?_, ?_, hb.inside, hb.entries⟩
  · intro r'
    have hr := hb.reqs r'
    change s.freed.count r' + s.pending_requests.count r' + (s.next_id :: h).count r' =
      if r' < s.next_id + 1 then 1 else 0
    rw [count_cons]
    by_cases he : s.next_id = r'
    · subst he
      rw [if_neg (lt_irrefl _)] at hr
      rw [if_pos (beq_self_eq_true _), if_pos (Nat.lt_succ_self _)]
      omega
    · rw [if_neg (by simpa using he), ← Nat.add_assoc, hr]
      split_ifs <;> omega
  · intro r'
    by_cases he : r' = s.next_id
    · subst he
      have hc := hb.buffers s.next_id
      have h0 := hb.unused s.next_id le_rfl
      change s.buffers.count _ = s.buffersFreed.count _ +
        if (update s.requests s.next_id _ s.next_id).bounce_buf = true then 1 else 0
      rw [update_self, if_neg Bool.false_ne_true]
      omega
    · change s.buffers.count _ = s.buffersFreed.count _ +
        if (update s.requests s.next_id _ r').bounce_buf = true then 1 else 0
      rw [update_of_ne he]
      exact hb.buffers r'
  · intro r' hr
    exact hb.unused r' (Nat.le_of_succ_le hr)
  · intro r' hr
    change (update s.requests s.next_id _ r').bounce_buf = false
    rw [hnew r' (.inl (hlt_of r' hr))]
    exact hb.clear r' hr
  · have hc := hb.count
    change s.allocated_count + 1 = s.others + s.pending_requests.length + (h.length + 1)
    omega
  · change s.allocated_count + 1 ≤ MAX_REQUESTS
    omega

/-- A request in hand, without a buffer, goes back to the pool. -/
theorem freeRequest (hb : Books s o (r :: h)) (hbuf : (s.requests r).bounce_buf = false) :
    Books (s.freeRequest r) o h := by
  obtain ⟨hlt, hnf, hnp⟩ := hb.of_hand
  have hpend : ∀ r' ∈ s.pending_requests, update s.requests r {} r' = s.requests r' := by
    intro r' hr
    refine update_of_ne ?_ ..
    intro he
    exact hnp (he ▸ hr)
  have hbounce := bounce_update (s := s) (q := {}) hbuf.symm
  have hm := hb.moved fun r' hr => kept_of_eq (hpend r' hr)
  refine ⟨hm.1, ?_, ?_, hb.once, hb.unused, ?_, hb.carried, hm.2, ?_, ?_, hb.inside, hb.entries⟩
  · intro r'
    have hr := hb.reqs r'
    change (s.freed ++ [r]).count r' + _ + _ = _
    rw [count_cons] at hr
    rw [count_append, count_singleton]
    change _ = if r' < s.next_id then 1 else 0
    change _ + s.pending_requests.count r' + _ = _
    omega
  · intro r'
    change _ = _ + if (update s.requests r {} r').bounce_buf = true then 1 else 0
    rw [hbounce]
    exact hb.buffers r'
  · intro r' hr
    change (update s.requests r {} r').bounce_buf = false
    rw [hbounce]
    obtain hr | hr := mem_append.1 hr
    · exact hb.clear r' hr
    · rw [mem_singleton.1 hr]
      exact hbuf
  · have hc := hb.count
    rw [length_cons] at hc
    change s.allocated_count - 1 = s.others + s.pending_requests.length + h.length
    omega
  · have hc := hb.pool
    change s.allocated_count - 1 ≤ MAX_REQUESTS
    omega

/-- A buffer for a request in hand that has none and never had one. -/
theorem initBounceBuffer (hb : Books s o (r :: h)) (h0 : s.buffers.count r = 0)
    (hbuf : (s.requests r).bounce_buf = false) (sqe : Sqe) :
    Books (s.initBounceBuffer r sqe) o (r :: h) := by
  unfold IoUring.initBounceBuffer
  split_ifs with hlen
  · exact hb.setRequest rfl rfl hbuf.symm id
  obtain ⟨hlt, hnf, hnp⟩ := hb.of_hand
  generalize hq : ({ s.requests r with
    bounce_buf := true, user_buf_ptr := sqe.addr, user_buf_len := sqe.len } : Request) = q
  have hbounce : q.bounce_buf = true := by rw [← hq]
  have hpend : ∀ r' ∈ s.pending_requests, update s.requests r q r' = s.requests r' := by
    intro r' hr
    refine update_of_ne ?_ ..
    intro he
    exact hnp (he ▸ hr)
  have hm := hb.moved fun r' hr => kept_of_eq (hpend r' hr)
  refine ⟨hm.1, hb.reqs, ?_, ?_, ?_, ?_, hb.carried, hm.2, hb.count, hb.pool, hb.inside, hb.entries⟩
  · intro r'
    have hr := hb.buffers r'
    change (s.buffers ++ [r]).count r' = s.buffersFreed.count r' +
      if (update s.requests r q r').bounce_buf = true then 1 else 0
    rw [count_append, count_singleton]
    by_cases he : r' = r
    · subst he
      rw [hbuf, if_neg Bool.false_ne_true] at hr
      rw [update_self, if_pos hbounce, if_pos (beq_self_eq_true _), hr]
    · rw [update_of_ne he, if_neg (by simpa using Ne.symm he)]
      exact hr
  · intro r'
    have hr := hb.once r'
    rw [count_append, count_singleton]
    by_cases he : r' = r
    · subst he
      rw [if_pos (beq_self_eq_true _), h0]
    · rw [if_neg (by simpa using Ne.symm he)]
      exact hr
  · intro r' hr
    have he : r ≠ r' := Nat.ne_of_lt (Nat.lt_of_lt_of_le hlt hr)
    rw [count_append, count_singleton, if_neg (by simpa using he), hb.unused r' hr]
  · intro r' hr
    change (update s.requests r q r').bounce_buf = false
    have he : r' ≠ r := by
      intro he
      exact hnf (he ▸ hr)
    rw [update_of_ne he]
    exact hb.clear r' hr

/-- The buffer of a request is freed, if it has one. -/
theorem dropBounce (hb : Books s o h) (r : Nat) : Books (s.dropBounce r) o h := by
  unfold IoUring.dropBounce
  split_ifs with hbuf
  · generalize hq : ({ s.requests r with bounce_buf := false } : Request) = q
    have hbounce : q.bounce_buf = false := by rw [← hq]
    have hm := hb.moved fun r' _ => kept_update (q := q) (by rw [← hq]) (by rw [← hq])
      (by rw [← hq]; exact id) r'
    refine ⟨hm.1, hb.reqs, ?_, hb.once, hb.unused, ?_, hb.carried,
      hm.2, hb.count, hb.pool, hb.inside, hb.entries⟩
    · intro r'
      have hr := hb.buffers r'
      change s.buffers.count r' = (s.buffersFreed ++ [r]).count r' +
        if (update s.requests r q r').bounce_buf = true then 1 else 0
      rw [count_append, count_singleton]
      by_cases he : r' = r
      · subst he
        rw [if_pos hbuf] at hr
        rw [update_self, if_pos (beq_self_eq_true _), hbounce, if_neg Bool.false_ne_true, hr]
      · rw [update_of_ne he, if_neg (by simpa using Ne.symm he)]
        exact hr
    · intro r' hr
      change (update s.requests r q r').bounce_buf = false
      by_cases he : r' = r
      · rw [he, update_self, hbounce]
      · rw [update_of_ne he]
        exact hb.clear r' hr
  · exact hb

theorem finalizeBounceBuffer (hb : Books s o h) (r : Nat) (access : Bool) :
    Books (s.finalizeBounceBuffer r access) o h := by
  unfold IoUring.finalizeBounceBuffer
  split_ifs with hback
  · exact (hb.setRequest (q := (s.requests r).setResult (.err (-14))) rfl rfl rfl id).dropBounce r
  · exact hb.dropBounce r

/-- A CQE for the SQE in hand. -/
theorem post (hb : Books s [n] h) (hc : s.consumed[n]? = some user_data) :
    Books { s with posted := s.posted ++ [(n, user_data)] } [] h := by
  refine ⟨?_, hb.reqs, hb.buffers, hb.once, hb.unused, hb.clear, ?_, hb.waiting, hb.count, hb.pool,
    hb.inside, hb.entries⟩
  · intro n'
    refine Eq.trans ?_ (hb.sqes n')
    change ((s.posted ++ [(n, user_data)]).map Prod.fst).count n' +
      (s.pending_requests.map fun r => (s.requests r).sqe).count n' + ([] : List Nat).count n' +
      s.abandoned.count n' = _
    rw [map_append, count_append, count_nil, map_singleton]
    dsimp only
    omega
  · intro p hp
    obtain hp | hp := mem_append.1 hp
    · exact hb.carried p hp
    · rw [mem_singleton.1 hp]
      exact hc

/-- The request in hand joins the pending ones, with its SQE. -/
theorem pend (hb : Books s [(s.requests r).sqe] [r]) (hidle : (s.requests r).state ≠ .idle)
    (hc : s.consumed[(s.requests r).sqe]? = some (s.requests r).user_data) :
    Books (s.setPending (s.pending_requests ++ [r])) [] [] := by
  refine ⟨?_, ?_, hb.buffers, hb.once, hb.unused, hb.clear, hb.carried, ?_, ?_, hb.pool, hb.inside,
    hb.entries⟩
  · intro n'
    refine Eq.trans ?_ (hb.sqes n')
    change (s.posted.map Prod.fst).count n' +
      ((s.pending_requests ++ [r]).map fun r => (s.requests r).sqe).count n' +
      ([] : List Nat).count n' + s.abandoned.count n' = _
    rw [map_append, count_append, count_nil, map_singleton]
    omega
  · intro r'
    refine Eq.trans ?_ (hb.reqs r')
    change s.freed.count r' + (s.pending_requests ++ [r]).count r' + ([] : List Nat).count r' = _
    rw [count_append, count_nil]
    omega
  · intro r' hr
    obtain hr | hr := mem_append.1 hr
    · exact hb.waiting r' hr
    · rw [mem_singleton.1 hr]
      exact ⟨hidle, hc⟩
  · have hcount := hb.count
    change s.allocated_count = s.others + (s.pending_requests ++ [r]).length + 0
    rw [length_append]
    exact hcount

/-- A pending request leaves the list, and is in hand with its SQE. -/
theorem take (hb : Books s [] []) {i : Nat} (hi : s.pending_requests[i]? = some r) :
    Books (s.setPending (swapRemove s.pending_requests i)) [(s.requests r).sqe] [r] := by
  obtain ⟨hlt, hir⟩ := List.getElem?_eq_some_iff.1 hi
  have hperm := swapRemove_perm s.pending_requests hlt
  rw [hir] at hperm
  refine ⟨?_, ?_, hb.buffers, hb.once, hb.unused, hb.clear, hb.carried, ?_, ?_, hb.pool, hb.inside,
    hb.entries⟩
  · intro n'
    refine Eq.trans ?_ (hb.sqes n')
    change (s.posted.map Prod.fst).count n' +
      ((swapRemove s.pending_requests i).map fun r => (s.requests r).sqe).count n' +
      [(s.requests r).sqe].count n' + s.abandoned.count n' = _
    rw [← (hperm.map fun r => (s.requests r).sqe).count_eq n', map_cons, count_singleton,
      count_cons, count_nil]
    omega
  · intro r'
    refine Eq.trans ?_ (hb.reqs r')
    change s.freed.count r' + (swapRemove s.pending_requests i).count r' + [r].count r' = _
    rw [← hperm.count_eq r', count_singleton, count_cons, count_nil]
    omega
  · intro r' hr
    exact hb.waiting r' (mem_of_mem_swapRemove hlt hr)
  · have hcount := hb.count
    rw [← length_swapRemove hlt] at hcount
    exact hcount

/-- The next SQE is taken. -/
theorem consume (hb : Books s [] h) (sqe : Sqe) (l : Loop) :
    Books (s.consume sqe l) [s.consumed.length] h := by
  have hold : ∀ {n v : Nat}, s.consumed[n]? = some v →
      (s.consumed ++ [sqe.user_data])[n]? = some v := by
    intro n v hn
    rw [getElem?_append_left (List.getElem?_eq_some_iff.1 hn).1, hn]
  refine ⟨?_, hb.reqs, hb.buffers, hb.once, hb.unused, hb.clear, ?_, ?_, hb.count, hb.pool,
    hb.inside, hb.entries⟩
  · intro n'
    have hn := hb.sqes n'
    rw [count_nil] at hn
    change (s.posted.map Prod.fst).count n' +
      (s.pending_requests.map fun r => (s.requests r).sqe).count n' +
      [s.consumed.length].count n' + s.abandoned.count n' =
      if n' < (s.consumed ++ [sqe.user_data]).length then 1 else 0
    rw [count_singleton, length_append, length_singleton]
    by_cases he : n' = s.consumed.length
    · subst he
      rw [if_neg (lt_irrefl _)] at hn
      rw [if_pos (beq_self_eq_true _), if_pos (Nat.lt_succ_self _)]
      omega
    · rw [if_neg (by simpa using Ne.symm he)]
      rw [hn]
      split_ifs <;> omega
  · intro p hp
    exact hold (hb.carried p hp)
  · intro r hr
    exact ⟨(hb.waiting r hr).1, hold (hb.waiting r hr).2⟩

end Books

/-! ## 2. The end of an instance -/

/-- One pending request goes. -/
def IoUring.discard (s : IoUring) (access : Bool) (r : Nat) : IoUring :=
  (s.finalizeBounceBuffer r access).freeRequest r

/-- The instance goes, with its pending requests still to free. -/
def IoUring.depart (s : IoUring) (l : List Nat) : IoUring :=
  { s with pending_requests := [], allocated := false, abandoned := s.abandoned ++ l }

theorem finalizeBounceBuffer_bounce (s : IoUring) (r : Nat) (access : Bool) :
    ((s.finalizeBounceBuffer r access).requests r).bounce_buf = false := by
  have hdrop : ∀ t : IoUring, ((t.dropBounce r).requests r).bounce_buf = false := by
    intro t
    unfold dropBounce
    split_ifs with hbuf
    · change (update t.requests r _ r).bounce_buf = false
      rw [update_self]
    · exact Bool.eq_false_of_not_eq_true hbuf
  unfold finalizeBounceBuffer
  split_ifs
  · exact hdrop _
  · exact hdrop _

theorem dropBounce_depart (s : IoUring) (l : List Nat) (r : Nat) :
    (s.depart l).dropBounce r = (s.dropBounce r).depart l ∧
      (s.dropBounce r).abandoned = s.abandoned ∧ (s.dropBounce r).pc = s.pc := by
  change (if (s.requests r).bounce_buf = true then _ else s.depart l) = _ ∧ _ ∧ _
  unfold dropBounce
  split_ifs <;> exact ⟨rfl, rfl, rfl⟩

theorem discard_depart (s : IoUring) (l : List Nat) (access : Bool) (r : Nat) :
    (s.depart l).discard access r = (s.discard access r).depart l ∧
      (s.discard access r).abandoned = s.abandoned ∧ (s.discard access r).pc = s.pc := by
  have hfree : ∀ t : IoUring, (t.depart l).dropBounce r = (t.dropBounce r).depart l →
      ((t.depart l).dropBounce r).freeRequest r = ((t.dropBounce r).freeRequest r).depart l := by
    intro t ht
    rw [ht]
    rfl
  have hset := dropBounce_depart (s.setRequest r ((s.requests r).setResult (.err (-14)))) l r
  have hkeep := dropBounce_depart s l r
  unfold IoUring.discard IoUring.finalizeBounceBuffer
  change ((if (IoUring.copiesBack (s.requests r) && !access) = true then _
    else (s.depart l).dropBounce r).freeRequest r) = _ ∧ _ ∧ _
  split_ifs
  · exact ⟨hfree _ hset.1, hset.2⟩
  · exact ⟨hfree _ hkeep.1, hkeep.2⟩

theorem foldl_discard_depart (access : Bool) (l m : List Nat) (s : IoUring) :
    m.foldl (fun t r => t.discard access r) (s.depart l) =
        (m.foldl (fun t r => t.discard access r) s).depart l ∧
      (m.foldl (fun t r => t.discard access r) s).abandoned = s.abandoned ∧
      (m.foldl (fun t r => t.discard access r) s).pc = s.pc := by
  induction m generalizing s with
  | nil => exact ⟨rfl, rfl, rfl⟩
  | cons r m ih =>
    obtain ⟨hd, ha, hp⟩ := discard_depart s l access r
    obtain ⟨ihd, iha, ihp⟩ := ih (s.discard access r)
    refine ⟨?_, iha.trans ha, ihp.trans hp⟩
    rw [foldl_cons, foldl_cons, hd]
    exact ihd

theorem freeInstance_eq (s : IoUring) (access : Bool) :
    s.freeInstance access = s.pending_requests.foldl (fun t r => t.discard access r)
      (s.depart (s.pending_requests.map fun r => (s.requests r).sqe)) ∧
    (s.freeInstance access).pc = s.pc := by
  obtain ⟨hd, ha, hp⟩ := foldl_discard_depart access
    (s.pending_requests.map fun r => (s.requests r).sqe) s.pending_requests s
  refine ⟨?_, hp⟩
  rw [hd]
  unfold depart
  rw [ha]
  rfl

namespace Books

/-- All pending requests are in hand, their SQEs gone. -/
theorem depart (hb : Books s o []) :
    Books (s.depart (s.pending_requests.map fun r => (s.requests r).sqe)) o s.pending_requests := by
  refine ⟨?_, ?_, hb.buffers, hb.once, hb.unused, hb.clear, hb.carried, ?_, ?_, hb.pool, hb.inside,
    hb.entries⟩
  · intro n'
    refine Eq.trans ?_ (hb.sqes n')
    change (s.posted.map Prod.fst).count n' + ([] : List Nat).count n' + o.count n' +
      (s.abandoned ++ s.pending_requests.map fun r => (s.requests r).sqe).count n' = _
    rw [count_append, count_nil]
    omega
  · intro r'
    exact hb.reqs r'
  · intro r' hr
    cases hr
  · have hc := hb.count
    rw [length_nil] at hc
    change s.allocated_count = s.others + 0 + s.pending_requests.length
    omega

theorem discard (hb : Books s o (r :: h)) (access : Bool) : Books (s.discard access r) o h :=
  (hb.finalizeBounceBuffer r access).freeRequest (finalizeBounceBuffer_bounce s r access)

theorem discardAll (access : Bool) (l : List Nat) (hb : Books s o l) :
    Books (l.foldl (fun t r => t.discard access r) s) o [] := by
  induction l generalizing s with
  | nil => exact hb
  | cons r l ih => exact ih (hb.discard access)

theorem freeInstance (hb : Books s o []) (access : Bool) : Books (s.freeInstance access) o [] := by
  rw [(freeInstance_eq s access).1]
  exact hb.depart.discardAll access _

end Books

/-! ## 3. What the call in progress has in hand -/

/-- The SQEs that the call has taken and not answered. -/
def Pc.owes : Pc → List Nat
  | .process _ n _ => [n]
  | .queue _ n _ => [n]
  | .post .check p _ _ => [p.sqe]
  | .post .write p _ _ => [p.sqe]
  | .panic n => n.toList
  | _ => []

/-- The requests that it has to file or to free. -/
def Pc.hands : Pc → List Nat
  | .queue r _ _ => [r]
  | .post _ _ r _ => r.toList
  | .free r _ => [r]
  | _ => []

/-- A request carries SQE number `n`. -/
structure Held (s : IoUring) (r n : Nat) : Prop where
  sqe : (s.requests r).sqe = n
  consumed : s.consumed[n]? = some (s.requests r).user_data

def PcOk (s : IoUring) : Pc → Prop
  | .process sqe n _ => s.consumed[n]? = some sqe.user_data
  | .queue r n _ => Held s r n ∧ (s.requests r).state ≠ .idle
  | .post _ p r _ => s.consumed[p.sqe]? = some p.user_data ∧
      ∀ r' ∈ r, (s.requests r').bounce_buf = false
  | .free r _ => (s.requests r).bounce_buf = false
  | .panic n => n = none
  | _ => True

structure Inv (s : IoUring) : Prop where
  books : Books s s.pc.owes s.pc.hands
  pc : PcOk s s.pc

namespace Inv

/-- Between SQEs nothing is in hand. -/
theorem at_loop (hb : Books s [] []) (l : Loop) : Inv (s.goto (.loop l)) := ⟨hb.goto _, True.intro⟩

theorem reply (sqe : Sqe) (hb : Books s [n] []) (hc : s.consumed[n]? = some sqe.user_data)
    (res : Int) (l : Loop) : Inv (s.reply sqe n res none l) := by
  refine ⟨hb.goto _, hc, ?_⟩
  intro r' hr
  exact absurd hr (not_mem_none r')

theorem replyFree (sqe : Sqe) (hb : Books s [n] [r]) (hc : s.consumed[n]? = some sqe.user_data)
    (hbuf : (s.requests r).bounce_buf = false) (res : Int) (l : Loop) :
    Inv (s.reply sqe n res (some r) l) := by
  refine ⟨hb.goto _, hc, ?_⟩
  intro r' hr
  rw [← mem_some_iff.1 hr]
  exact hbuf

theorem queue (hb : Books s [n] [r]) (hh : Held s r n) (hidle : (s.requests r).state ≠ .idle)
    (l : Loop) : Inv (s.goto (.queue r n l)) :=
  ⟨hb.goto _, ⟨hh.sqe, hh.consumed⟩, hidle⟩

end Inv

/-! ## 4. The operations -/

/-- What an operation needs. A socket operation: a descriptor and, unless it ends before, a socket
    that lets it wait. `connect`: an address that can be read; `timeout`: a time. `close`: another
    descriptor than the ring's last. -/
def Serves (s : IoUring) (a : IoUring.Answer) (sqe : Sqe) : Prop :=
  if sqe.opcode = IORING_OP_ACCEPT then
    0 ≤ sqe.fd ∧ (MAX_REQUESTS ≤ s.allocated_count ∨ a.call = .waits)
  else if sqe.opcode = IORING_OP_CONNECT then
    0 ≤ sqe.fd ∧ (MAX_REQUESTS ≤ s.allocated_count ∨ a.access = true ∧ a.call = .waits)
  else if sqe.opcode = IORING_OP_RECV ∨ sqe.opcode = IORING_OP_SEND then
    0 ≤ sqe.fd ∧ (MAX_REQUESTS ≤ s.allocated_count ∨ sqe.len ≠ 0 ∧ a.access = false ∨
      a.call = .waits)
  else if sqe.opcode = IORING_OP_TIMEOUT then
    MAX_REQUESTS ≤ s.allocated_count ∨ sqe.addr = 0 ∨ a.access = true
  else if sqe.opcode = IORING_OP_CLOSE then sqe.fd < 0 ∨ a.closesRing = false
  else True

instance (s : IoUring) (a : IoUring.Answer) (sqe : Sqe) : Decidable (Serves s a sqe) :=
  inferInstanceAs (Decidable (ite _ _ (ite _ _ (ite _ _ (ite _ _ (ite _ _ _))))))

/-- What `alloc` hands out: a request of the SQE, without a buffer. -/
theorem of_alloc (hb : Books s o h)
    (ha : s.alloc op user_data n = some (r, t)) : t.consumed = s.consumed ∧
      t.requests r = { op := op, user_data := user_data, sqe := n } ∧ t.buffers.count r = 0 := by
  unfold alloc at ha
  split_ifs at ha
  cases ha
  exact ⟨rfl, update_self .., hb.unused s.next_id le_rfl⟩

theorem full_of_alloc
    (ha : s.alloc op user_data n = some (r, t)) : ¬ MAX_REQUESTS ≤ s.allocated_count := by
  unfold alloc at ha
  split_ifs at ha with hroom
  exact hroom

/-- A bounce buffer changes neither the SQE nor the `user_data`. -/
theorem initBounceBuffer_kept (s : IoUring) (r : Nat) (sqe : Sqe) :
    (s.initBounceBuffer r sqe).consumed = s.consumed ∧
      ((s.initBounceBuffer r sqe).requests r).sqe = (s.requests r).sqe ∧
      ((s.initBounceBuffer r sqe).requests r).user_data = (s.requests r).user_data := by
  unfold initBounceBuffer
  split_ifs
  · change _ ∧ (update s.requests r _ r).sqe = _ ∧ (update s.requests r _ r).user_data = _
    rw [update_self]
    exact ⟨rfl, rfl, rfl⟩
  change _ ∧ (update s.requests r _ r).sqe = _ ∧ (update s.requests r _ r).user_data = _
  rw [update_self]
  exact ⟨rfl, rfl, rfl⟩

theorem finalizeBounceBuffer_kept (s : IoUring) (r : Nat) (access : Bool) :
    (s.finalizeBounceBuffer r access).consumed = s.consumed ∧
      (s.finalizeBounceBuffer r access).pending_requests = s.pending_requests ∧
      ((s.finalizeBounceBuffer r access).requests r).sqe = (s.requests r).sqe ∧
      ((s.finalizeBounceBuffer r access).requests r).user_data = (s.requests r).user_data := by
  have hdrop : ∀ t : IoUring, (t.dropBounce r).consumed = t.consumed ∧
      (t.dropBounce r).pending_requests = t.pending_requests ∧
      ((t.dropBounce r).requests r).sqe = (t.requests r).sqe ∧
      ((t.dropBounce r).requests r).user_data = (t.requests r).user_data := by
    intro t
    unfold dropBounce
    split_ifs
    · change _ ∧ _ ∧ (update t.requests r _ r).sqe = _ ∧ (update t.requests r _ r).user_data = _
      rw [update_self]
      exact ⟨rfl, rfl, rfl, rfl⟩
    · exact ⟨rfl, rfl, rfl, rfl⟩
  unfold finalizeBounceBuffer
  split_ifs
  · obtain ⟨hc, hp, hs, hu⟩ := hdrop (s.setRequest r ((s.requests r).setResult (.err (-14))))
    refine ⟨hc, hp, hs.trans ?_, hu.trans ?_⟩
    · change (update s.requests r _ r).sqe = _
      rw [update_self]
      rfl
    · change (update s.requests r _ r).user_data = _
      rw [update_self]
      rfl
  · exact hdrop s

section Operations

variable {a : IoUring.Answer} {sqe : Sqe} {l : Loop}

/-- The operation is over: its buffer goes, the CQE is posted, the request is freed. -/
theorem Inv.finish (hb : Books s [n] [r]) (hc : s.consumed[n]? = some sqe.user_data)
    (access : Bool) (res : Int) :
    Inv ((s.finalizeBounceBuffer r access).reply sqe n res (some r) l) := by
  refine replyFree sqe (hb.finalizeBounceBuffer r access) ?_
    (finalizeBounceBuffer_bounce s r access) res l
  rw [(finalizeBounceBuffer_kept s r access).1]
  exact hc

/-- A request of this SQE waits. -/
theorem Inv.wait (hb : Books s [n] [r]) (hh : Held s r n) :
    Inv ((s.setRequest r ((s.requests r).setState .pending)).goto (.queue r n l)) := by
  have hpend : (s.requests r).state ≠ .idle → ((s.requests r).setState .pending).state ≠ .idle := by
    intro _ he
    cases he
  have hreq : (s.setRequest r ((s.requests r).setState .pending)).requests r =
      (s.requests r).setState .pending := update_self ..
  have hq := hb.setRequest (r := r) (q := (s.requests r).setState .pending) rfl rfl rfl hpend
  refine queue hq ⟨?_, ?_⟩ ?_ l
  · rw [hreq]
    exact hh.sqe
  · rw [hreq]
    exact hh.consumed
  · rw [hreq]
    intro he
    cases he

theorem Inv.processReadOp (hb : Books s [n] []) (hc : s.consumed[n]? = some sqe.user_data) :
    Inv (s.processReadOp a sqe n l) := by
  unfold IoUring.processReadOp
  cases ha : s.alloc .keyboard_read sqe.user_data n with
  | none => exact reply sqe hb hc _ l
  | some p =>
    obtain ⟨r, t⟩ := p
    obtain ⟨htc, htr, hcount⟩ := of_alloc hb ha
    have hbuf : (t.requests r).bounce_buf = false := by rw [htr]
    have ht := hb.alloc ha
    rw [← htc] at hc
    split_ifs
    · exact reply sqe (ht.freeRequest hbuf) hc _ l
    have hi := ht.initBounceBuffer hcount hbuf sqe
    obtain ⟨hic, his, hiu⟩ := initBounceBuffer_kept t r sqe
    rw [← hic] at hc
    have hheld : Held (t.initBounceBuffer r sqe) r n := by
      refine ⟨?_, ?_⟩
      · rw [his, htr]
      · rw [hiu, htr]
        exact hc
    cases a.call with
    | waits => exact wait hi hheld
    | completes => exact finish hi hc _ _
    | fails => exact finish hi hc _ _

/-- A socket that lets the operation wait. -/
theorem Inv.socketCall (hb : Books s [n] [r]) (hc : s.consumed[n]? = some sqe.user_data)
    (hcall : a.call = .waits) : Inv (s.socketCall a sqe n l r) := by
  unfold IoUring.socketCall
  rw [hcall]
  exact finish hb hc _ _

section

variable (hb : Books s [n] []) (hc : s.consumed[n]? = some sqe.user_data)
include hb hc

theorem Inv.processAcceptOp
    (hfd : 0 ≤ sqe.fd) (hs : MAX_REQUESTS ≤ s.allocated_count ∨ a.call = .waits) :
    Inv (s.processAcceptOp a sqe n l) := by
  unfold IoUring.processAcceptOp
  rw [if_neg (not_lt.2 hfd)]
  cases ha : s.alloc .socket_accept sqe.user_data n with
  | none => exact reply sqe hb hc _ l
  | some p =>
    obtain ⟨r, t⟩ := p
    rw [← (of_alloc hb ha).1] at hc
    exact socketCall (hb.alloc ha) hc (hs.resolve_left (full_of_alloc ha))

theorem Inv.processConnectOp (hfd : 0 ≤ sqe.fd)
    (hs : MAX_REQUESTS ≤ s.allocated_count ∨ a.access = true ∧ a.call = .waits) :
    Inv (s.processConnectOp a sqe n l) := by
  unfold IoUring.processConnectOp
  rw [if_neg (not_lt.2 hfd)]
  cases ha : s.alloc .socket_connect sqe.user_data n with
  | none => exact reply sqe hb hc _ l
  | some p =>
    obtain ⟨r, t⟩ := p
    obtain ⟨haccess, hcall⟩ := hs.resolve_left (full_of_alloc ha)
    rw [← (of_alloc hb ha).1] at hc
    dsimp only
    rw [if_neg (by rw [haccess]; exact Bool.true_eq_false_eq_False)]
    exact socketCall (hb.alloc ha) hc hcall

theorem Inv.transferOp (hfd : 0 ≤ sqe.fd) (op : IoOpType)
    (hs : MAX_REQUESTS ≤ s.allocated_count ∨ sqe.len ≠ 0 ∧ a.access = false ∨ a.call = .waits) :
    Inv (s.transferOp a sqe n l op) := by
  unfold IoUring.transferOp
  rw [if_neg (not_lt.2 hfd)]
  cases ha : s.alloc op sqe.user_data n with
  | none => exact reply sqe hb hc _ l
  | some p =>
    obtain ⟨r, t⟩ := p
    obtain ⟨htc, htr, hcount⟩ := of_alloc hb ha
    have hbuf : (t.requests r).bounce_buf = false := by rw [htr]
    have ht := hb.alloc ha
    rw [← htc] at hc
    split_ifs with hfault
    · exact reply sqe (ht.freeRequest hbuf) hc _ l
    · have hcall := (hs.resolve_left (full_of_alloc ha)).resolve_left hfault
      rw [← (initBounceBuffer_kept t r sqe).1] at hc
      exact socketCall (ht.initBounceBuffer hcount hbuf sqe) hc hcall

theorem Inv.processTimeoutOp
    (hs : MAX_REQUESTS ≤ s.allocated_count ∨ sqe.addr = 0 ∨ a.access = true) :
    Inv (s.processTimeoutOp a sqe n l) := by
  unfold IoUring.processTimeoutOp
  cases ha : s.alloc .timer sqe.user_data n with
  | none => exact reply sqe hb hc _ l
  | some p =>
    obtain ⟨r, t⟩ := p
    obtain ⟨htc, htr, _⟩ := of_alloc hb ha
    have ht := hb.alloc ha
    rw [← htc] at hc
    split_ifs with haddr hfault
    · exact replyFree sqe ht hc (by rw [htr]) _ l
    · have haccess := (hs.resolve_left (full_of_alloc ha)).resolve_left haddr
      rw [haccess] at hfault
      cases hfault
    refine wait ht ⟨?_, ?_⟩
    · rw [htr]
    · rw [htr]
      exact hc

theorem Inv.processWriteOp :
    Inv (s.processWriteOp a sqe n l) := by
  unfold IoUring.processWriteOp
  split_ifs <;> exact reply sqe hb hc _ l

theorem Inv.processCloseOp
    (hs : sqe.fd < 0 ∨ a.closesRing = false) : Inv (s.processCloseOp a sqe n l) := by
  unfold IoUring.processCloseOp
  split_ifs with hfd hring
  · exact reply sqe hb hc _ l
  · rw [hs.resolve_left hfd] at hring
    cases hring
  · exact reply sqe hb hc _ l

theorem Inv.processAsyncCancelOp :
    Inv (s.processAsyncCancelOp sqe n l) := by
  unfold IoUring.processAsyncCancelOp
  split
  · exact reply sqe hb hc _ l
  rename_i r _
  have hq : Books (s.setRequest r (((s.requests r).setState .cancelled).setResult .cancelled))
      [n] [] := by
    refine hb.setRequest rfl rfl rfl ?_
    intro _ he
    cases he
  exact reply sqe hq hc _ l

/-- **An operation that is served keeps the books.** -/
theorem Inv.processSqe
    (hs : Serves s a sqe) : Inv (s.processSqe a sqe n l) := by
  unfold Serves at hs
  unfold IoUring.processSqe
  by_cases hnop : sqe.opcode = IORING_OP_NOP
  · rw [if_pos hnop]
    exact reply sqe hb hc _ l
  rw [if_neg hnop]
  by_cases hread : sqe.opcode = IORING_OP_READ
  · rw [if_pos hread]
    exact processReadOp hb hc
  rw [if_neg hread]
  by_cases hwrite : sqe.opcode = IORING_OP_WRITE
  · rw [if_pos hwrite]
    exact processWriteOp hb hc
  rw [if_neg hwrite]
  by_cases haccept : sqe.opcode = IORING_OP_ACCEPT
  · rw [if_pos haccept] at hs ⊢
    exact processAcceptOp hb hc hs.1 hs.2
  rw [if_neg haccept] at hs ⊢
  by_cases hconnect : sqe.opcode = IORING_OP_CONNECT
  · rw [if_pos hconnect] at hs ⊢
    exact processConnectOp hb hc hs.1 hs.2
  rw [if_neg hconnect] at hs ⊢
  by_cases hrecv : sqe.opcode = IORING_OP_RECV
  · rw [if_pos (.inl hrecv)] at hs
    rw [if_pos hrecv]
    exact transferOp hb hc hs.1 _ hs.2
  rw [if_neg hrecv]
  by_cases hsend : sqe.opcode = IORING_OP_SEND
  · rw [if_pos (.inr hsend)] at hs
    rw [if_pos hsend]
    exact transferOp hb hc hs.1 _ hs.2
  rw [if_neg (not_or.2 ⟨hrecv, hsend⟩)] at hs
  rw [if_neg hsend]
  by_cases htimeout : sqe.opcode = IORING_OP_TIMEOUT
  · rw [if_pos htimeout] at hs ⊢
    exact processTimeoutOp hb hc hs
  rw [if_neg htimeout] at hs ⊢
  by_cases hopenat : sqe.opcode = IORING_OP_OPENAT
  · rw [if_pos hopenat]
    exact reply sqe hb hc _ l
  rw [if_neg hopenat]
  by_cases hclose : sqe.opcode = IORING_OP_CLOSE
  · rw [if_pos hclose] at hs ⊢
    exact processCloseOp hb hc hs
  rw [if_neg hclose]
  by_cases hcancel : sqe.opcode = IORING_OP_ASYNC_CANCEL
  · rw [if_pos hcancel]
    exact processAsyncCancelOp hb hc
  · rw [if_neg hcancel]
    exact reply sqe hb hc _ l

end

/-! ## 5. The steps of a call -/

/-- The list of pending requests is as long as the pool: it has room for a request in hand. -/
theorem Inv.addPendingRequest (hb : Books s [n] [r]) (hh : Held s r n)
    (hidle : (s.requests r).state ≠ .idle) : Inv (s.addPendingRequest a n l r) := by
  have hroom : ¬ MAX_RING_ENTRIES ≤ s.pending_requests.length := by
    have hc := hb.count
    have hp := hb.pool
    rw [length_singleton] at hc
    change ¬ MAX_REQUESTS ≤ _
    omega
  unfold IoUring.addPendingRequest
  rw [if_neg hroom]
  have hsqe := hh.sqe
  have hconsumed := hh.consumed
  subst hsqe
  exact at_loop (hb.pend hidle hconsumed) l

theorem consume_consumed (s : IoUring) (sqe : Sqe) (l : Loop) :
    (s.consume sqe l).consumed[s.consumed.length]? = some sqe.user_data := by
  change (s.consumed ++ [sqe.user_data])[s.consumed.length]? = _
  rw [getElem?_append_right le_rfl, Nat.sub_self]
  rfl

theorem Inv.consume (hb : Books s [] []) : Inv (s.consume sqe l) :=
  ⟨hb.consume sqe l, consume_consumed s sqe l⟩

theorem Inv.submitted (hb : Books s [] []) (c : Enter) : Inv (s.submitted c) := by
  unfold IoUring.submitted
  split_ifs
  · exact ⟨hb.goto _, rfl⟩
  · exact at_loop hb _
  · exact ⟨hb.goto _, True.intro⟩

theorem and_sub_one_lt {size : Nat} (i : Nat) (h : 0 < size) : i &&& (size - 1) < size :=
  Nat.lt_of_le_of_lt Nat.and_le_right (Nat.sub_lt h Nat.one_pos)

theorem Books.cq_entries (hb : Books s o h) : 0 < s.cq_ring_entries :=
  Nat.mul_pos hb.entries Nat.two_pos

theorem Inv.runLoop (hb : Books s [] []) : Inv (s.runLoop a l) := by
  cases l with
  | submit c submitted head tail =>
    unfold runLoop
    dsimp only
    split_ifs
    · exact ⟨(hb.use (and_sub_one_lt _ hb.entries)).goto _, True.intro⟩
    · exact Inv.submitted (hb.setMem _) c
  | copySqes c i count =>
    unfold runLoop
    dsimp only
    split_ifs
    · exact ⟨hb.goto _, True.intro⟩
    · exact Inv.consume hb
    · exact Inv.submitted hb c
  | drain c i =>
    unfold runLoop
    dsimp only
    cases hi : s.pending_requests[i]? with
    | none => exact ⟨hb.goto _, True.intro⟩
    | some r =>
      dsimp only
      split_ifs
      · obtain ⟨hcons, hpend, hsqe, hdata⟩ := finalizeBounceBuffer_kept s r a.access
        have hwait := (hb.waiting r (mem_of_getElem? hi)).2
        have hf := hb.finalizeBounceBuffer r a.access
        have ht := hf.take (i := i) (r := r) (by rw [hpend]; exact hi)
        rw [hpend] at ht
        refine ⟨ht.goto _, ?_, ?_⟩
        · change (s.finalizeBounceBuffer r a.access).consumed[
            ((s.finalizeBounceBuffer r a.access).requests r).sqe]? =
              some ((s.finalizeBounceBuffer r a.access).requests r).user_data
          rw [hcons, hsqe, hdata]
          exact hwait
        · intro r' hr
          rw [← mem_some_iff.1 hr]
          exact finalizeBounceBuffer_bounce s r a.access
      · exact at_loop hb _

/-- A step that can be made: a CQE finds room, an operation is served. -/
def Calm (s : IoUring) : Input → Prop
  | .run a =>
    match s.pc with
    | .post .check _ _ _ => s.cqHasSpace = true
    | .process sqe _ _ => Serves s a sqe
    | _ => True
  | _ => True

/-- After the CQE the request is freed, if there is one. -/
theorem Inv.afterPost {ro : Option Nat} (hb : Books s [] ro.toList)
    (hbuf : ∀ r ∈ ro, (s.requests r).bounce_buf = false) :
    Inv (s.goto (afterPost ro l)) := by
  cases ro with
  | none => exact at_loop hb l
  | some r => exact ⟨hb.goto _, hbuf r rfl⟩

theorem Inv.run (hi : Inv s) (hc : Calm s (.run a)) : Inv (s.run a) := by
  obtain ⟨hb, hp⟩ := hi
  unfold IoUring.run
  unfold Calm at hc
  generalize hpc : s.pc = pc at hb hp hc
  cases pc with
  | user =>
    rw [← hpc] at hb hp
    exact ⟨hb, hp⟩
  | panic n =>
    rw [← hpc] at hb hp
    exact ⟨hb, hp⟩
  | loadHead c => exact ⟨hb.goto _, True.intro⟩
  | loadTail c head => exact at_loop hb _
  | loop l => exact runLoop hb
  | load c submitted head tail sqe_idx =>
    dsimp only
    split_ifs with hidx
    · exact reply _ (hb.consume _ _) (consume_consumed s _ _) _ _
    · exact Inv.consume (hb.use (not_le.1 hidx))
  | process sqe n l => exact processSqe hb hp hc
  | queue r n l => exact addPendingRequest hb hp.1 hp.2
  | post stage p ro l =>
    cases stage with
    | check =>
      dsimp only at hc ⊢
      rw [if_pos hc]
      exact ⟨hb.goto _, hp⟩
    | write =>
      let idx := s.mem.cq_tail.toNat &&& (s.cq_ring_entries - 1)
      have hu := (hb.use (and_sub_one_lt s.mem.cq_tail.toNat hb.cq_entries)).setMem
        { s.mem with cqes := update s.mem.cqes idx ⟨p.user_data, p.res, 0⟩ }
      exact ⟨(hu.post hp.1).goto (.post .advance p ro l), hp⟩
    | advance => exact afterPost (hb.setMem _) hp.2
  | free r l => exact at_loop (hb.freeRequest hp) l
  | waited c =>
    dsimp only
    split_ifs
    · exact at_loop hb _
    · exact ⟨hb.goto _, True.intro⟩
    · exact ⟨hb.goto _, True.intro⟩
  | copyStart c =>
    dsimp only
    split_ifs
    · exact ⟨hb.goto _, True.intro⟩
    · exact ⟨hb.goto _, True.intro⟩
  | copyCqes i count =>
    dsimp only
    have hu := hb.use (and_sub_one_lt s.mem.cq_head.toNat hb.cq_entries)
    split_ifs
    · exact ⟨hu.goto _, True.intro⟩
    · exact ⟨(hu.setMem _).goto _, True.intro⟩
    · exact ⟨hb.goto _, True.intro⟩

end Operations

/-! ## 6. Runs -/

/-- What happens to a request from outside leaves its SQE, its buffer and what is not `idle`. -/
theorem Inv.outside (hi : Inv s) (hs : q.sqe = (s.requests r).sqe)
    (hu : q.user_data = (s.requests r).user_data)
    (hbuf : q.bounce_buf = (s.requests r).bounce_buf)
    (hstate : (s.requests r).state ≠ .idle → q.state ≠ .idle) : Inv (s.setRequest r q) := by
  obtain ⟨hb, hp⟩ := hi
  refine ⟨hb.setRequest hs hu hbuf hstate, ?_⟩
  have hbounce := Books.bounce_update hbuf
  change PcOk (s.setRequest r q) s.pc
  generalize s.pc = pc at hp
  cases pc with
  | process sqe n l => exact hp
  | queue r' n l =>
    obtain ⟨hs', hu', hi'⟩ := Books.kept_update hs hu hstate r'
    refine ⟨⟨hs'.trans hp.1.sqe, ?_⟩, hi' hp.2⟩
    change s.consumed[n]? = some (update s.requests r q r').user_data
    rw [hu']
    exact hp.1.consumed
  | post stage p ro l =>
    refine ⟨hp.1, ?_⟩
    intro r' hr
    exact (hbounce r').trans (hp.2 r' hr)
  | free r' l => exact (hbounce r').trans hp
  | panic n => exact hp
  | user => exact True.intro
  | loadHead c => exact True.intro
  | loadTail c head => exact True.intro
  | loop l => exact True.intro
  | load c submitted head tail sqe_idx => exact True.intro
  | waited c => exact True.intro
  | copyStart c => exact True.intro
  | copyCqes i count => exact True.intro

theorem ready_pc (hr : s.ready = true) : s.pc = .user := by
  unfold ready at hr
  split at hr
  · assumption
  · cases hr

theorem Inv.enter (hi : Inv s) (hr : s.ready = true) (c : Enter) (a : IoUring.Answer) :
    Inv (s.enter a c) := by
  obtain ⟨hb, hp⟩ := hi
  have hb' : Books s [] [] := by
    rw [ready_pc hr] at hb
    exact hb
  unfold IoUring.enter
  split_ifs
  · exact Inv.submitted hb' c
  · exact ⟨hb'.goto _, True.intro⟩
  · exact ⟨hb, hp⟩
  · exact at_loop hb' _

theorem Inv.close (hi : Inv s) (hr : s.ready = true) (access : Bool) :
    Inv (s.freeInstance access) := by
  obtain ⟨hb, _⟩ := hi
  have hpc := (freeInstance_eq s access).2.trans (ready_pc hr)
  rw [ready_pc hr] at hb
  refine ⟨?_, ?_⟩
  · rw [hpc]
    exact hb.freeInstance access
  · rw [hpc]
    exact True.intro

/-- The count of the pool, moved by others. -/
theorem Inv.setCount (hi : Inv s) {count others : Nat}
    (hc : count = others + s.pending_requests.length + s.pc.hands.length)
    (hm : count ≤ MAX_REQUESTS) : Inv { s with allocated_count := count, others := others } := by
  obtain ⟨hb, hp⟩ := hi
  refine ⟨⟨hb.sqes, hb.reqs, hb.buffers, hb.once, hb.unused, hb.clear, hb.carried, hb.waiting, hc,
    hm, hb.inside, hb.entries⟩, ?_⟩
  generalize s.pc = pc at hp
  cases pc <;> first | exact hp | exact ⟨⟨hp.1.sqe, hp.1.consumed⟩, hp.2⟩

theorem Inv.user (hi : Inv s) (w : UserWrite) : Inv (s.setMem (s.mem.write w)) := by
  obtain ⟨hb, hp⟩ := hi
  refine ⟨hb.setMem _, ?_⟩
  change PcOk _ s.pc
  generalize s.pc = pc at hp
  cases pc <;> first | exact hp | exact ⟨⟨hp.1.sqe, hp.1.consumed⟩, hp.2⟩

theorem Inv.step (hi : Inv s) (i : Input) (hc : Calm s i) : Inv (s.step i) := by
  cases i with
  | enter c a =>
    unfold IoUring.step
    dsimp only
    split_ifs with hr
    · exact hi.enter hr c a
    · exact hi
  | close access =>
    unfold IoUring.step
    dsimp only
    split_ifs with hr
    · exact hi.close hr access
    · exact hi
  | run a => exact hi.run hc
  | user w => exact hi.user w
  | begin r =>
    unfold IoUring.step
    dsimp only
    split_ifs
    · refine hi.outside rfl rfl rfl ?_
      intro _ he
      cases he
    · exact hi
  | complete r result =>
    refine hi.outside ?_ ?_ ?_ ?_
    · unfold Request.complete
      split_ifs <;> rfl
    · unfold Request.complete
      split_ifs <;> rfl
    · unfold Request.complete
      split_ifs <;> rfl
    · unfold Request.complete
      split_ifs
      · intro _ he
        cases he
      · exact id
  | poolTake =>
    unfold IoUring.step
    dsimp only
    split_ifs with hfull
    · exact hi
    · have hc := hi.books.count
      exact hi.setCount (by omega) (by omega)
  | poolGive =>
    unfold IoUring.step
    dsimp only
    split_ifs with hnone
    · exact hi
    · have hc := hi.books.count
      have hp := hi.books.pool
      exact hi.setCount (by omega) (by omega)

/-- What `allocInstance` makes, for `io_uring_setup`. -/
def start (entries others : Nat) : IoUring where
  sq_ring_entries := entries
  mem := ⟨0, 0, fun _ => 0, fun _ => ⟨0, 0, 0, 0, 0, 0⟩, 0, 0, fun _ => ⟨0, 0, 0⟩⟩
  pending_requests := []
  allocated := true
  requests _ := {}
  next_id := 0
  allocated_count := others
  others := others
  pc := .user
  consumed := []
  posted := []
  abandoned := []
  freed := []
  buffers := []
  buffersFreed := []
  used := []

def ringMachine : Machine IoUring Input where
  start s := ∃ entries others, 1 ≤ entries ∧ entries ≤ MAX_RING_ENTRIES ∧
    entries &&& (entries - 1) = 0 ∧ others ≤ MAX_REQUESTS ∧ s = start entries others
  step := step

theorem Inv.start {entries others : Nat} (he : 1 ≤ entries) (ho : others ≤ MAX_REQUESTS) :
    Inv (start entries others) := by
  refine ⟨⟨?_, ?_, ?_, ?_, ?_, ?_, ?_, ?_, rfl, ho, ?_, he⟩, True.intro⟩
  · intro n
    rfl
  · intro r
    rfl
  · intro r
    rfl
  · intro r
    exact Nat.zero_le 1
  · intro r _
    rfl
  · intro r hr
    cases hr
  · intro p hp
    cases hp
  · intro r hr
    cases hr
  · intro u hu
    cases hu

theorem Inv.reach (hr : ringMachine.Reach Calm s) : Inv s := by
  refine hr.invariant (I := Inv) ?_ ?_
  · intro s hstart
    obtain ⟨entries, others, he, _, _, ho, rfl⟩ := hstart
    exact Inv.start he ho
  · intro s i _ hi hc
    exact hi.step i hc

/-- What a ring satisfies: each index is inside its ring, each SQE that was taken has one CQE or is
    still to have it, and each request and buffer is given back once. -/
structure Accounted (s : IoUring) : Prop where
  inside : ∀ u ∈ s.used, u.1 < u.2
  /-- The kernel does not stop over an SQE. -/
  running : ∀ n, s.pc ≠ .panic (some n)
  /-- One CQE, or one to come: from a pending request or the call in progress. What still waits
      when the ring is closed has nobody to read it. -/
  answered : ∀ n < s.consumed.length, (s.posted.map Prod.fst).count n +
    (s.pending_requests.map fun r => (s.requests r).sqe).count n + s.pc.owes.count n +
    s.abandoned.count n = 1
  own : ∀ p ∈ s.posted, s.consumed[p.1]? = some p.2
  /-- A pending request can be completed. -/
  live : ∀ r ∈ s.pending_requests, (s.requests r).state ≠ .idle
  requests : ∀ r < s.next_id, s.freed.count r + s.pending_requests.count r + s.pc.hands.count r = 1
  buffers : ∀ r, s.buffersFreed.count r ≤ s.buffers.count r ∧ s.buffers.count r ≤ 1 ∧
    (r ∈ s.freed → s.buffersFreed.count r = s.buffers.count r)

theorem Inv.accounted (hi : Inv s) : Accounted s := by
  obtain ⟨hb, hp⟩ := hi
  refine ⟨hb.inside, ?_, ?_, hb.carried, ?_, ?_, ?_⟩
  · intro n hpc
    rw [hpc] at hp
    cases hp
  · intro n hn
    rw [hb.sqes n, if_pos hn]
  · intro r hr
    exact (hb.waiting r hr).1
  · intro r hr
    rw [hb.reqs r, if_pos hr]
  · intro r
    have hbuf := hb.buffers r
    refine ⟨?_, hb.once r, ?_⟩
    · omega
    · intro hr
      rw [hb.clear r hr, if_neg Bool.false_ne_true] at hbuf
      exact hbuf.symm

/-- A READ that waits; it is completed while the call waits for its CQE. -/
def readRun : List Input :=
  [.user (.sqe 0 { opcode := IORING_OP_READ, addr := 4096, len := 8, user_data := 7 }),
    .user (.sq_tail 1), .enter { to_submit := 1, min_complete := 1, getevents := true } {}] ++
  List.replicate 10 (.run {}) ++ [.complete 0 (.success 1)] ++ List.replicate 7 (.run {})

theorem readRun_calm : ringMachine.Along Calm (start 2 0) readRun := by
  refine ⟨trivial, trivial, trivial, trivial, trivial, trivial, trivial, ?_, trivial, trivial,
    trivial, trivial, trivial, trivial, trivial, ?_, trivial, trivial, trivial, trivial, trivial,
    trivial⟩
  · change Serves _ _ { opcode := IORING_OP_READ, addr := 4096, len := 8, user_data := 7 }
    decide +kernel
  · change cqHasSpace _ = true
    decide +kernel

/-- `io_uring_enter` for one SQE, to its end. -/
def enterOne (sq_tail : BitVec 32) : List Input :=
  [.user (.sq_tail sq_tail), .enter { to_submit := 1 } {}] ++ List.replicate 9 (.run {})

end Zigk.Uring
