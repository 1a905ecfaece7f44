/-
  Subject:   THE OUT-OF-ORDER QUEUE: storing a segment, draining into the receive ring, and the
             SACK blocks kept beside it (rx/established.zig: `storeOutOfOrder`,
             `drainOutOfOrder`, `updateRcvSackBlocks`).

  * `storeOutOfOrder` -- `storeOutOfOrder_cases`: refused, or one block appended that overlaps
    none of the stored ones;
  * `QueueOk` -- **the stored blocks are nonempty, small and pairwise disjoint as sets of
    sequence numbers**, whatever is stored and drained;
  * `Drains` -- which blocks a drain takes, said without the loop; `drain_spec`, `Drains.unique`.
-/
import Zigk.Base.SwapRemove
import Zigk.Tcp.Types

namespace Zigk.Tcp

open List

open Serial (dist place)

/-! ## 1. Operations -/

/-- `updateRcvSackBlocks`. -/
def updateRcvSackBlocks (t : Tcb) : Tcb :=
  { t with
    rcvSackBlocks :=
      if !t.sackOk || t.oooBlocks.length = 0 then []
      else ((t.oooBlocks.filter fun b => b.len ≠ 0).map fun b => ⟨b.start, b.stop⟩).take OOO_SLOTS }

/-- The overlap test of `storeOutOfOrder` between a stored block and the range `[seq, stop)`. -/
def overlaps (block : OooBlock) (seq stop : Seq) : Bool :=
  if block.len = 0 then false else !(seqGte seq block.stop || seqGte block.start stop)

/-- `storeOutOfOrder`. -/
def storeOutOfOrder (t : Tcb) (seq : Seq) (data : List Byte) : Tcb × Bool :=
  if data.length = 0 ∨ MAX_TCP_PAYLOAD < data.length then (t, false)
  else if t.oooBlocks.length ≥ OOO_SLOTS then (t, false)
  else if t.oooBlocks.any fun b => overlaps b seq (place seq data.length) then (t, false)
  else (updateRcvSackBlocks { t with oooBlocks := t.oooBlocks ++ [⟨seq, data⟩] }, true)

/-- One turn of the loop of `drainOutOfOrder`: the first block that starts at `rcv_nxt`, if it is
    not empty and fits, is copied to the ring and removed. -/
def drainOne (t : Tcb) : Option Tcb :=
  match t.oooBlocks.findIdx? fun b => b.start == t.rcvNxt with
  | none => none
  | some i =>
    match t.oooBlocks[i]? with
    | none => none
    | some b =>
      if b.len = 0 then none
      else if b.len > t.recvSpace then none
      else
        some { t with
          recv := t.recv.pushAll b.data
          rcvNxt := place t.rcvNxt b.len
          oooBlocks := swapRemove t.oooBlocks i }

/-- The loop; every turn removes a block, so their number is fuel enough. The flag tells whether
    anything was delivered. -/
def drainFrom : Nat → Tcb → Tcb × Bool
  | 0, t => (t, false)
  | fuel + 1, t =>
    match drainOne t with
    | none => (t, false)
    | some t' => ((drainFrom fuel t').1, true)

/-- `drainOutOfOrder`. -/
def drainOutOfOrder (t : Tcb) : Tcb × Bool :=
  let r := drainFrom t.oooBlocks.length t
  (updateRcvSackBlocks r.1, r.2)

/-! ## 2. All they can do -/

/-- Stored: one block more, none of the old ones overlapping it. -/
structure Stored (t : Tcb) (seq : Seq) (data : List Byte) : Prop where
  nonempty : 0 < data.length
  small : data.length ≤ MAX_TCP_PAYLOAD
  room : t.oooBlocks.length < OOO_SLOTS
  free : ∀ b ∈ t.oooBlocks, overlaps b seq (place seq data.length) = false

theorem storeOutOfOrder_cases (t : Tcb) (seq : Seq) (data : List Byte) :
    storeOutOfOrder t seq data = (t, false) ∨ Stored t seq data ∧ storeOutOfOrder t seq data =
        (updateRcvSackBlocks { t with oooBlocks := t.oooBlocks ++ [⟨seq, data⟩] }, true) := by
  unfold storeOutOfOrder
  split
  · exact .inl rfl
  split
  · exact .inl rfl
  split
  · exact .inl rfl
  rename_i h1 h2 h3
  right
  refine ⟨⟨by omega, by omega, by omega, fun b hb => ?_⟩, rfl⟩
  simp only [any_eq_true, not_exists, not_and, Bool.not_eq_true] at h3
  exact h3 b hb

variable {t t' : Tcb}

/-- **One turn of the drain**: a block `b` that starts at `rcv_nxt` and fits goes to the ring. -/
theorem drainOne_cases (h : drainOne t = some t') :
    ∃ b l, (b :: l).Perm t.oooBlocks ∧ b.start = t.rcvNxt ∧ 0 < b.len ∧ b.len ≤ t.recvSpace ∧
      t' = { t with
        recv := t.recv.pushAll b.data
        rcvNxt := place t.rcvNxt b.len
        oooBlocks := l } := by
  unfold drainOne at h
  split at h
  · cases h
  rename_i i hi
  obtain ⟨hlt, hstart, -⟩ := findIdx?_eq_some_iff_getElem.mp hi
  rw [getElem?_eq_getElem hlt] at h
  simp only at h
  split at h
  · cases h
  split at h
  · cases h
  rename_i h0 hs
  simp only [Option.some.injEq] at h
  exact ⟨t.oooBlocks[i], _, swapRemove_perm _ hlt, by simpa using hstart, by omega, by omega,
    h.symm⟩

theorem drainOne_length (h : drainOne t = some t') :
    t'.oooBlocks.length + 1 = t.oooBlocks.length := by
  obtain ⟨b, l, hp, -, -, -, rfl⟩ := drainOne_cases h
  simpa using hp.length_eq

/-- **The induction over the drain loop.** -/
theorem drain_induct {P : Tcb → Prop} (hs : ∀ t t', P t → drainOne t = some t' → P t')
    (fuel : Nat) (h : P t) : P (drainFrom fuel t).1 := by
  induction fuel generalizing t with
  | zero => exact h
  | succ fuel ih =>
    rw [drainFrom]
    split
    · exact h
    · rename_i t' ht'
      exact ih (hs t t' h ht')

/-- A block is stuck only where its room is taken. -/
theorem drainOne_eq_none (hne : ∀ b ∈ t.oooBlocks, 0 < b.len) (h : drainOne t = none) :
    (∀ b ∈ t.oooBlocks, b.start ≠ t.rcvNxt) ∨
      ∃ b ∈ t.oooBlocks, b.start = t.rcvNxt ∧ t.recvSpace < b.len := by
  unfold drainOne at h
  split at h
  · rename_i hn
    left
    intro b hb
    simpa using findIdx?_eq_none_iff.mp hn b hb
  rename_i i hi
  obtain ⟨hlt, hstart, -⟩ := findIdx?_eq_some_iff_getElem.mp hi
  rw [getElem?_eq_getElem hlt] at h
  simp only at h
  have hm := getElem_mem hlt
  have := hne _ hm
  rw [if_neg (by omega)] at h
  split at h
  · exact .inr ⟨_, hm, by simpa using hstart, by assumption⟩
  · cases h

/-! ## 3. What they leave alone -/

/-- Everything but the receive side of the stream. -/
structure RecvOnly (t t' : Tcb) : Prop where
  eq : t' = { t with
    recv := t'.recv, rcvNxt := t'.rcvNxt, oooBlocks := t'.oooBlocks,
    rcvSackBlocks := t'.rcvSackBlocks }

theorem RecvOnly.refl (t : Tcb) : RecvOnly t t := ⟨rfl⟩

theorem RecvOnly.trans {t'' : Tcb} (h : RecvOnly t t') (h' : RecvOnly t' t'') :
    RecvOnly t t'' := by
  refine ⟨?_⟩
  rw [h'.eq, h.eq]

theorem RecvOnly.core (h : RecvOnly t t') :
    t'.core = { t.core with rcv := t'.core.rcv } := by
  rw [h.eq]
  rfl

theorem recvOnly_store (t : Tcb) (seq : Seq) (data : List Byte) :
    RecvOnly t (storeOutOfOrder t seq data).1 := by
  rcases storeOutOfOrder_cases t seq data with h | ⟨-, h⟩ <;> rw [h] <;> exact ⟨rfl⟩

theorem recvOnly_drain (t : Tcb) : RecvOnly t (drainOutOfOrder t).1 := by
  have h : RecvOnly t (drainFrom t.oooBlocks.length t).1 := by
    refine drain_induct (P := RecvOnly t) (fun t1 t2 h1 h2 => ?_) _ (.refl t)
    obtain ⟨b, l, -, -, -, -, rfl⟩ := drainOne_cases h2
    exact h1.trans ⟨rfl⟩
  exact h.trans ⟨rfl⟩

/-! ## 4. Disjoint blocks -/

/-- Two blocks have no sequence number in common. -/
def Apart (b b' : OooBlock) : Prop :=
  ∀ i < b.len, ∀ j < b'.len, place b.start i ≠ place b'.start j

variable {b b' : OooBlock}

theorem Apart.symm (h : Apart b b') : Apart b' b :=
  fun i hi j hj e => h j hj i hi e.symm

/-- A block that starts at or after the end of another has no number in common with it. -/
theorem apart_of_seqGte (h : seqGte b'.start b.stop = true)
    (hb : b.len ≤ MAX_TCP_PAYLOAD) (hb' : b'.len ≤ MAX_TCP_PAYLOAD) : Apart b b' := by
  intro i hi j hj e
  have hd := seqGte_iff.mp h
  simp only [MAX_TCP_PAYLOAD] at hb hb'
  have hs : b'.start = place b.start (b.len + dist b.stop b'.start) := by
    rw [Serial.place_add]
    exact (Serial.add_dist b.stop b'.start).symm
  rw [hs, Serial.place_place] at e
  have := Serial.place_inj_of_near e (by omega) (by omega)
  omega

theorem apart_of_not_overlaps {seq : Seq} {data : List Byte}
    (h : overlaps b seq (place seq data.length) = false) (hb : b.len ≤ MAX_TCP_PAYLOAD)
    (hd : data.length ≤ MAX_TCP_PAYLOAD) : Apart b ⟨seq, data⟩ := by
  unfold overlaps at h
  split at h
  · rename_i h0
    exact fun i hi => absurd hi (by omega)
  simp only [Bool.not_eq_false', Bool.or_eq_true] at h
  rcases h with h | h
  · exact apart_of_seqGte h hb hd
  · have h' : Apart ⟨seq, data⟩ b := apart_of_seqGte h hd hb
    exact h'.symm

/-- **The out-of-order queue is well formed.** -/
structure QueueOk (l : List OooBlock) : Prop where
  nonempty : ∀ b ∈ l, 0 < b.len
  small : ∀ b ∈ l, b.len ≤ MAX_TCP_PAYLOAD
  slots : l.length ≤ OOO_SLOTS
  apart : l.Pairwise Apart

theorem queueOk_nil : QueueOk [] := ⟨by simp, by simp, by simp, .nil⟩

variable {l l' : List OooBlock}

/-- What is left of a well-formed queue when some blocks are taken out. -/
theorem QueueOk.of_append {rest : List OooBlock} (h : QueueOk l') (hp : (l ++ rest).Perm l') :
    QueueOk rest ∧ ∀ b ∈ l, ∀ b' ∈ rest, Apart b b' := by
  have hpw := pairwise_append.mp ((hp.pairwise_iff fun h => Apart.symm h).mpr h.apart)
  have hmem : ∀ b ∈ rest, b ∈ l' := fun b hb => hp.subset (mem_append_right l hb)
  have hl := hp.length_eq
  rw [length_append] at hl
  exact ⟨⟨fun b hb => h.nonempty b (hmem b hb), fun b hb => h.small b (hmem b hb),
    by have := h.slots; omega, hpw.2.1⟩, hpw.2.2⟩

theorem QueueOk.of_perm (h : QueueOk l')
    (hp : (b :: l).Perm l') : QueueOk l ∧ ∀ b' ∈ l, Apart b b' := by
  obtain ⟨h1, h2⟩ := h.of_append (l := [b]) hp
  exact ⟨h1, h2 b (.head _)⟩

theorem QueueOk.append {seq : Seq} {data : List Byte} (h : QueueOk t.oooBlocks)
    (hs : Stored t seq data) : QueueOk (t.oooBlocks ++ [⟨seq, data⟩]) := by
  have hmem : ∀ b ∈ t.oooBlocks ++ [⟨seq, data⟩], b ∈ t.oooBlocks ∨ b = ⟨seq, data⟩ := by
    intro b hb
    simpa using hb
  refine ⟨fun b hb => ?_, fun b hb => ?_, ?_, ?_⟩
  · rcases hmem b hb with hb | rfl
    · exact h.nonempty b hb
    · exact hs.nonempty
  · rcases hmem b hb with hb | rfl
    · exact h.small b hb
    · exact hs.small
  · have := hs.room
    rw [length_append, length_singleton]
    omega
  · rw [pairwise_append]
    refine ⟨h.apart, pairwise_singleton _ _, fun b hb b' hb' => ?_⟩
    rw [mem_singleton.mp hb']
    exact apart_of_not_overlaps (hs.free b hb) (h.small b hb) hs.small

theorem queueOk_drainOne (h : QueueOk t.oooBlocks) (hd : drainOne t = some t') :
    QueueOk t'.oooBlocks := by
  obtain ⟨b, l, hp, -, -, -, rfl⟩ := drainOne_cases hd
  exact (h.of_perm hp).1

/-! ## 5. The SACK blocks beside the queue -/

/-- The SACK blocks are the ranges of the stored blocks, where SACK was negotiated. -/
def SackInSync (t : Tcb) : Prop :=
  t.sackOk = true → t.rcvSackBlocks = t.oooBlocks.map fun b => ⟨b.start, b.stop⟩

theorem sackInSync_update (h : QueueOk t.oooBlocks) :
    SackInSync (updateRcvSackBlocks t) := by
  intro hk
  have hk' : t.sackOk = true := hk
  simp only [updateRcvSackBlocks, hk', Bool.not_true, Bool.false_or, decide_eq_true_eq]
  split
  · rename_i h0
    rw [eq_nil_of_length_eq_zero h0, map_nil]
  have hf : (t.oooBlocks.filter fun b => b.len ≠ 0) = t.oooBlocks :=
    filter_eq_self.mpr fun b hb => by
      have := h.nonempty b hb
      simp only [ne_eq, decide_not, Bool.not_eq_true', decide_eq_false_iff_not]
      omega
  rw [hf]
  exact take_of_length_le (by simpa using h.slots)

/-! ## 6. The blocks a drain takes -/

/-- The bytes of some blocks, one after another. -/
def blockData (l : List OooBlock) : List Byte := l.flatMap OooBlock.data

@[simp] theorem blockData_nil : blockData [] = [] := rfl

@[simp] theorem blockData_cons (b : OooBlock) (l : List OooBlock) :
    blockData (b :: l) = b.data ++ blockData l := rfl

/-- The room in a ring after `used` bytes, as the code computes it: written exactly full it counts
    as empty. -/
def roomAfter (used : Nat) : Nat := BUFFER_SIZE - used % BUFFER_SIZE

/-- `Drains blocks n used l`: with `rcv_nxt` at `n` and `used` bytes written to the ring, the drain
    takes the blocks `l`, in this order. Each starts where the one before it ends and fits into
    the room left; the drain stops where no block fits on. -/
inductive Drains : List OooBlock → Seq → Nat → List OooBlock → Prop where
  | stop {blocks : List OooBlock} {n : Seq} {used : Nat}
      (h : ∀ b ∈ blocks, b.start = n → roomAfter used < b.len) : Drains blocks n used []
  | next {blocks rest l : List OooBlock} {b : OooBlock} {n : Seq} {used : Nat}
      (hp : (b :: rest).Perm blocks) (hs : b.start = n) (hf : b.len ≤ roomAfter used)
      (h : Drains rest (place n b.len) (used + b.len) l) : Drains blocks n used (b :: l)

variable {blocks : List OooBlock}

/-- Only the count modulo the size of the ring matters. -/
theorem Drains.congr {n : Seq} {u v : Nat} (h : Drains blocks n u l)
    (huv : u % BUFFER_SIZE = v % BUFFER_SIZE) : Drains blocks n v l := by
  induction h generalizing v with
  | stop h => exact .stop fun b hb hs => by rw [roomAfter, ← huv]; exact h b hb hs
  | next hp hs hf _ ih =>
    refine .next hp hs ?_ (ih ?_)
    · rw [roomAfter, ← huv]
      exact hf
    · rw [Nat.add_mod, huv, ← Nat.add_mod]

theorem Drains.subperm {n : Seq} {used : Nat}
    (h : Drains blocks n used l) : ∃ rest, (l ++ rest).Perm blocks := by
  induction h with
  | stop h => exact ⟨_, .refl _⟩
  | next hp _ _ _ ih =>
    obtain ⟨r, hr⟩ := ih
    exact ⟨r, (hr.cons _).trans hp⟩

/-- Two blocks of a well-formed queue do not start at the same number. -/
theorem QueueOk.start_inj (h : QueueOk l) (hb : b ∈ l)
    (hb' : b' ∈ l) (hs : b.start = b'.start) : b = b' := by
  have hp := (perm_cons_erase hb).symm
  rcases mem_cons.mp (hp.symm.subset hb') with rfl | hm
  · rfl
  · exact absurd (by rw [hs]) ((h.of_perm hp).2 b' hm 0 (h.nonempty b hb) 0 (h.nonempty b' hb'))

/-- **A drain has one outcome.** -/
theorem Drains.unique {blocks' : List OooBlock} {n : Seq} {used : Nat}
    (hq : QueueOk blocks) (hp : blocks'.Perm blocks) (h : Drains blocks n used l)
    (h' : Drains blocks' n used l') : l = l' := by
  induction h generalizing blocks' l' with
  | stop h =>
    cases h' with
    | stop => rfl
    | next hp' hs hf _ =>
      have := h _ (hp.subset (hp'.subset (.head _))) hs
      omega
  | next hp1 hs hf _ ih =>
    cases h' with
    | stop h' =>
      have := h' _ (hp.symm.subset (hp1.subset (.head _))) hs
      omega
    | next hp2 hs2 hf2 h2 =>
      have e := hq.start_inj (hp1.subset (.head _)) ((hp2.trans hp).subset (.head _))
        (hs.trans hs2.symm)
      subst e
      have hr := (hp2.trans (hp.trans hp1.symm)).cons_inv
      rw [ih (hq.of_perm hp1).1 hr h2]

/-- Where the loop stops, nothing more can be taken. -/
theorem drains_stop (hq : QueueOk t.oooBlocks) (hn : drainOne t = none) :
    Drains t.oooBlocks t.rcvNxt t.recv.used [] := by
  refine .stop fun b hb hs => ?_
  rcases drainOne_eq_none hq.nonempty hn with h | ⟨b', hb', hs', hlt⟩
  · exact absurd hs (h b hb)
  · rw [hq.start_inj hb hb' (hs.trans hs'.symm), roomAfter, Nat.mod_eq_of_lt t.recv.used_lt,
      ← t.recvSpace_eq]
    exact hlt

/-- The TCB after some blocks `l` were taken and `rest` left. -/
def takeBlocks (t : Tcb) (l rest : List OooBlock) : Tcb :=
  { t with
    recv := t.recv.pushAll (blockData l)
    rcvNxt := place t.rcvNxt (blockData l).length
    oooBlocks := rest }

theorem takeBlocks_nil (t : Tcb) : takeBlocks t [] t.oooBlocks = t := by
  simp only [takeBlocks, blockData_nil, length_nil, Serial.place_zero]
  rfl

theorem takeBlocks_cons (t : Tcb) (b : OooBlock) (l l0 rest : List OooBlock) :
    takeBlocks (takeBlocks t [b] l0) l rest = takeBlocks t (b :: l) rest := by
  simp only [takeBlocks, blockData_cons, blockData_nil, append_nil, length_append,
    RingBuf.pushAll_append, Serial.place_place]

theorem drains_drainFrom (fuel : Nat) (hq : QueueOk t.oooBlocks) (hf : t.oooBlocks.length ≤ fuel) :
    ∃ l rest, Drains t.oooBlocks t.rcvNxt t.recv.used l ∧ (l ++ rest).Perm t.oooBlocks ∧
      (drainFrom fuel t).1 = takeBlocks t l rest := by
  induction fuel generalizing t with
  | zero =>
    have e : t.oooBlocks = [] := eq_nil_of_length_eq_zero (by omega)
    exact ⟨[], t.oooBlocks, drains_stop hq (by simp [drainOne, e]), .refl _,
      (takeBlocks_nil t).symm⟩
  | succ fuel ih =>
    rw [drainFrom]
    split
    · rename_i hn
      exact ⟨[], t.oooBlocks, drains_stop hq hn, .refl _, (takeBlocks_nil t).symm⟩
    rename_i t' ht'
    have hlen := drainOne_length ht'
    have hq' := queueOk_drainOne hq ht'
    obtain ⟨b, l0, hp, hs, h0, hfit, e'⟩ := drainOne_cases ht'
    obtain ⟨l, rest, hd, hperm, e⟩ := ih hq' (by omega)
    have ht : t' = takeBlocks t [b] l0 := by
      rw [e', takeBlocks, blockData_cons, blockData_nil, append_nil]
      rfl
    subst ht
    refine ⟨b :: l, rest, .next hp hs ?_ ?_, (hperm.cons b).trans hp, ?_⟩
    · rw [roomAfter, Nat.mod_eq_of_lt t.recv.used_lt, ← t.recvSpace_eq]
      exact hfit
    · refine Drains.congr (u := (t.recv.pushAll b.data).used) ?_ ?_
      · simpa only [takeBlocks, blockData_cons, blockData_nil, append_nil, OooBlock.len] using hd
      · rw [RingBuf.used_pushAll, Nat.mod_mod]
        rfl
    · rw [e, takeBlocks_cons]

/-- **What the drain does**: the blocks `l` that it takes go to the ring, the others stay. -/
theorem drain_spec (hq : QueueOk t.oooBlocks) :
    ∃ l rest, Drains t.oooBlocks t.rcvNxt t.recv.used l ∧ (l ++ rest).Perm t.oooBlocks ∧
      (drainOutOfOrder t).1 = updateRcvSackBlocks (takeBlocks t l rest) := by
  obtain ⟨l, rest, hd, hp, e⟩ := drains_drainFrom t.oooBlocks.length hq le_rfl
  exact ⟨l, rest, hd, hp, by rw [drainOutOfOrder, e]⟩

end Zigk.Tcp
