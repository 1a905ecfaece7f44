/-
  Subject:   MESSAGE QUEUES REFINE SEQUENCES, as far as they do.

  * `listCall` -- what the code does to the sequences; **`call_reads`** -- the queues read as these
    sequences after every call, and the answers are these answers;
  * **`msgQueues`** -- along every run whose calls are in order the queues are the sequences of
    `specCall`, and so is every answer.
-/
import Zigk.Ipc.Msg

namespace Zigk.Ipc

open Function List Option MsgTable

variable {P : Type}

/-! ## 1. Ids, permissions and limits -/

/-- Ids, permissions and limits are the same. -/
structure Keeps (t t' : MsgTable P) : Prop where
  in_use : ∀ j, (t'.queues j).in_use = (t.queues j).in_use
  perm : ∀ j, (t'.queues j).perm = (t.queues j).perm
  limit : ∀ j, (t'.queues j).qbytes_max = (t.queues j).qbytes_max

section Ids

variable {t t' t'' : MsgTable P} {i : Fin MSGMNI} {id : BitVec 32} {proc : Cred} {mode : AccessMode}

/-- A queue that can be found is in use, in the slot of its id. -/
theorem lookup_slot {gone : IpcError} (h : t.lookup id gone = .ok i) :
    (t.queues i).in_use = true ∧ i.val = idToIndex id := by
  unfold MsgTable.lookup at h
  split at h
  · simp only at h
    split_ifs at h with hc
    cases h
    simp only [Bool.or_eq_true, not_or, Bool.not_eq_true', Bool.not_eq_false] at hc
    exact ⟨hc.1, rfl⟩
  · cases h

theorem enter_slot (h : t.enter id proc mode = .ok i) :
    (t.queues i).in_use = true ∧ i.val = idToIndex id := by
  unfold enter at h
  split at h
  · cases h
  next hl =>
    split_ifs at h
    cases h
    exact lookup_slot hl

theorem owned_slot (h : t.owned id proc = .ok i) :
    (t.queues i).in_use = true ∧ i.val = idToIndex id := by
  unfold owned at h
  split at h
  · cases h
  next hl =>
    split_ifs at h
    cases h
    exact lookup_slot hl

/-- `msgget` changes nothing, or a slot that is free. -/
theorem msgget_outcome (t : MsgTable P) (key flags : BitVec 32) (proc : Cred) :
    (msgget t key flags proc).1 = t ∨ ∃ i, (t.queues i).in_use = false ∧
      ∀ j, j ≠ i → (msgget t key flags proc).1.queues j = t.queues j := by
  unfold msgget
  cases t.findKey key with
  | some i =>
    simp only
    split_ifs <;> exact .inl rfl
  | none =>
    simp only
    split_ifs
    · exact .inl rfl
    cases hfree : t.findFree with
    | none => exact .inl rfl
    | some idx =>
      have hin : (t.queues idx).in_use = false := by
        simpa using find?_some hfree
      exact .inr ⟨idx, hin, fun j hj => setQueue_ne t hj _⟩

theorem Keeps.refl (t : MsgTable P) : Keeps t t := ⟨fun _ => rfl, fun _ => rfl, fun _ => rfl⟩

/-- Lists and counters of a queue change. -/
theorem Keeps.setQueue (h : Keeps t t') {q : MsgQueue P} (huse : q.in_use = (t'.queues i).in_use)
    (hperm : q.perm = (t'.queues i).perm) (hlimit : q.qbytes_max = (t'.queues i).qbytes_max) :
    Keeps t (t'.setQueue i q) where
  in_use j := by
    rw [← h.in_use j]
    by_cases hj : j = i
    · rw [hj, setQueue_self, huse]
    · rw [setQueue_ne _ hj]
  perm j := by
    rw [← h.perm j]
    by_cases hj : j = i
    · rw [hj, setQueue_self, hperm]
    · rw [setQueue_ne _ hj]
  limit j := by
    rw [← h.limit j]
    by_cases hj : j = i
    · rw [hj, setQueue_self, hlimit]
    · rw [setQueue_ne _ hj]

end Ids

variable [DecidableEq P]

/-! ## 2. The lists -/

namespace MsgTable

/-- The list of a queue. -/
def forward (t : MsgTable P) (i : Fin MSGMNI) : Forward P :=
  ⟨(t.queues i).head, (t.queues i).tail, fun p => (t.heap.lookup p).bind KernelMsg.next⟩

def message (t : MsgTable P) (p : P) : Option Message :=
  (t.heap.lookup p).map KernelMsg.message

end MsgTable

/-- Links of queue `i` change, at the ends and at addresses of `l`; no message does. -/
structure Relinks (t t' : MsgTable P) (i : Fin MSGMNI) (l : List P) : Prop where
  queues : ∀ j, j ≠ i → t'.queues j = t.queues j
  ends : t'.queues i = { t.queues i with head := (t'.queues i).head, tail := (t'.queues i).tail }
  heap : ∀ p, p ∉ l → t'.heap.lookup p = t.heap.lookup p
  messages : ∀ p, t'.message p = t.message p

section Links

variable {t t' t'' : MsgTable P} {i : Fin MSGMNI} {l l' l₁ l₂ : List P} {p : P}
  {msg : KernelMsg P} {n : Option P}

theorem Relinks.trans (h : Relinks t t' i l) (h' : Relinks t' t'' i l') :
    Relinks t t'' i (l ++ l') where
  queues j hj := (h'.queues j hj).trans (h.queues j hj)
  ends := by
    rw [h'.ends, h.ends]
  heap p hp := by
    rw [mem_append, not_or] at hp
    exact (h'.heap p hp.2).trans (h.heap p hp.1)
  messages p := (h'.messages p).trans (h.messages p)

theorem Relinks.keeps (h : Relinks t t' i l) : Keeps t t' where
  in_use j := by
    by_cases hj : j = i
    · rw [hj, h.ends]
    · rw [h.queues j hj]
  perm j := by
    by_cases hj : j = i
    · rw [hj, h.ends]
    · rw [h.queues j hj]
  limit j := by
    by_cases hj : j = i
    · rw [hj, h.ends]
    · rw [h.queues j hj]

theorem message_eq (h : t.heap.lookup p = some msg) : t.message p = some msg.message := by
  rw [message, h]
  rfl

/-- An address of a list has a message. -/
theorem lookup_of_message {m : Message} (h : t.message p = some m) :
    ∃ msg, t.heap.lookup p = some msg ∧ msg.message = m :=
  map_eq_some_iff.1 h

theorem forward_insert (j : Fin MSGMNI) :
    (⟨t.queues, t.msg_seq, t.heap.insert p msg⟩ : MsgTable P).forward j =
      (t.forward j).setNext p msg.next := by
  simp only [forward, Forward.setNext, Forward.mk.injEq, true_and]
  funext q
  by_cases hq : q = p
  · subst hq
    rw [AList.lookup_insert, update_self]
    rfl
  · rw [AList.lookup_insert_ne hq, update_of_ne hq]

/-- A link is written. -/
theorem setNext_spec (h : t.heap.lookup p = some msg) (i : Fin MSGMNI) :
    ∃ t', t.setNext p n = .ok t' ∧ t'.queues = t.queues ∧
      t'.forward i = (t.forward i).setNext p n ∧ Relinks t t' i [p] := by
  have hd : t.deref p = .ok msg := by rw [deref, h]
  refine ⟨{ t with heap := t.heap.insert p { msg with next := n } }, ?_, rfl, forward_insert i,
    fun _ _ => rfl, rfl, fun q hq => ?_, fun q => ?_⟩
  · rw [setNext, hd]
    rfl
  · exact AList.lookup_insert_ne fun e => hq (mem_singleton.2 e)
  by_cases hq : q = p
  · subst hq
    rw [message_eq h, message, AList.lookup_insert]
    rfl
  · rw [message, AList.lookup_insert_ne hq]
    rfl

/-- The one write behind a message, or at the head. -/
theorem link_spec {prev : Option P} (hprev : ∀ b, prev = some b → b ∈ l)
    (hl : ∀ p ∈ l, ∃ msg, t.heap.lookup p = some msg) :
    ∃ t', t.link i prev n = .ok t' ∧ t'.forward i = (t.forward i).link prev n ∧
      Relinks t t' i l := by
  cases prev with
  | none =>
    refine ⟨_, rfl, ?_, fun j hj => update_of_ne hj _ _, ?_, fun _ _ => rfl, fun _ => rfl⟩
    · simp only [forward, setQueue, update_self]
      rfl
    · simp only [setQueue, update_self]
  | some b =>
    obtain ⟨msg, hmsg⟩ := hl b (hprev b rfl)
    obtain ⟨t', ht, -, hf, hr⟩ := setNext_spec (n := n) hmsg i
    refine ⟨t', ht, hf, hr.queues, hr.ends, fun q hq => hr.heap q fun he => ?_, hr.messages⟩
    exact hq (mem_singleton.1 he ▸ hprev b rfl)

theorem forward_setQueue {q : MsgQueue P} :
    (t.setQueue i q).forward i = ⟨q.head, q.tail, (t.forward i).next⟩ := by
  simp only [forward, setQueue, update_self]

/-- The ends of a queue are written. -/
theorem relinks_setQueue {a b : Option P} :
    Relinks t (t.setQueue i { t.queues i with head := a, tail := b }) i [] :=
  ⟨fun _ hj => update_of_ne hj _ _, by simp only [setQueue, update_self],
    fun _ _ => rfl, fun _ => rfl⟩

/-- **A message leaves the list.** -/
theorem unlink_spec (hs : (t.forward i).Spells (l₁ ++ p :: l₂)) (hp : t.heap.lookup p = some msg)
    (hl : ∀ q ∈ l₁, ∃ msg, t.heap.lookup q = some msg) :
    ∃ t', t.unlink i l₁.getLast? p msg = .ok t' ∧ (t'.forward i).Spells (l₁ ++ l₂) ∧
      Relinks t t' i l₁ := by
  obtain ⟨t₁, ht₁, hf₁, hr₁⟩ := link_spec (n := msg.next)
    (fun b (hb : l₁.getLast? = some b) => mem_of_getLast? hb) hl (i := i)
  have hnext : (t.forward i).next p = msg.next := by
    simp only [forward, hp, bind_some]
  refine ⟨_, by rw [unlink, ht₁]; rfl, ?_, ?_⟩
  · have hspell := Forward.spells_unlink hs
    rw [Forward.unlink, hnext, ← hf₁] at hspell
    rw [forward_setQueue]
    exact hspell
  · have hr := hr₁.trans (relinks_setQueue (a := (t₁.queues i).head)
      (b := if (t₁.queues i).tail = some p then l₁.getLast? else (t₁.queues i).tail))
    rwa [append_nil] at hr

/-- **A message is put back at the front.** -/
theorem putBack_spec (hs : (t.forward i).Spells l) (hp : p ∉ l) (hm : t.heap.lookup p = some msg) :
    ∃ t', t.putBack i p = .ok t' ∧ (t'.forward i).Spells (p :: l) ∧ Relinks t t' i [p] := by
  obtain ⟨t₁, ht₁, hq₁, hf₁, hr₁⟩ := setNext_spec (n := (t.queues i).head) hm i
  refine ⟨_, by rw [putBack, ht₁]; rfl, ?_, hr₁.trans relinks_setQueue⟩
  have hspell := Forward.spells_pushFront hs hp
  have hhead : (t.forward i).head = (t.queues i).head := rfl
  rw [Forward.pushFront, hhead, ← hf₁] at hspell
  rw [forward_setQueue]
  exact hspell

end Links

/-! ## 3. The search -/

/-- The selector as the code applies it to one message. -/
def Matches (msgtyp : BitVec 64) (m : Message) : Bool :=
  if msgtyp = 0 then true
  else if msgtyp.toInt > 0 then m.mtype = msgtyp
  else m.mtype.toInt ≤ -msgtyp.toInt

section Search

variable {t : MsgTable P} {i : Fin MSGMNI} {msgtyp : BitVec 64} {l : List P} {ms : List Message}
  {a : Option P} {n : Nat}

theorem matchesType_eq (h : msgtyp ≠ BitVec.intMin 64) (m : Message) :
    matchesType msgtyp m.mtype = .ok (Matches msgtyp m) := by
  simp only [matchesType, Matches, if_neg h]
  split_ifs <;> rfl

/-- The search stops the kernel at the first message if its selector has no negation. -/
theorem search_intMin (prev : Option P) (hp : Forward.Path (t.forward i).next a l none)
    (hm : l.map t.message = ms.map some) (hn : l.length ≤ n) (hne : ms ≠ []) :
    search t (BitVec.intMin 64) n prev a = .error .integerOverflow := by
  cases l with
  | nil => exact absurd (map_eq_nil_iff.1 hm.symm) hne
  | cons p l =>
    cases ms with
    | nil => exact absurd rfl hne
    | cons m ms =>
      obtain ⟨msg, hmsg, -⟩ := lookup_of_message (List.cons.inj hm).1
      obtain ⟨rfl, -⟩ := hp
      cases n with
      | zero => simp at hn
      | succ n =>
        rw [search, deref, hmsg]
        rfl

/-- **The search finds the first message that the selector matches**, with the one before it. -/
theorem search_spec (prev : Option P) (h : msgtyp ≠ BitVec.intMin 64)
    (hp : Forward.Path (t.forward i).next a l none) (hm : l.map t.message = ms.map some)
    (hn : l.length ≤ n) :
    match ms.find? (Matches msgtyp) with
    | none => search t msgtyp n prev a = .ok none
    | some m => ∃ l₁ p l₂ msg, l = l₁ ++ p :: l₂ ∧ t.heap.lookup p = some msg ∧ msg.message = m ∧
        (l₁ ++ l₂).map t.message = (ms.eraseP (Matches msgtyp)).map some ∧
        search t msgtyp n prev a = .ok (some (l₁.getLast?.or prev, p, msg)) := by
  induction l generalizing ms a prev n with
  | nil =>
    obtain rfl := map_eq_nil_iff.1 hm.symm
    cases hp
    cases n <;> rfl
  | cons p l ih =>
    cases ms with
    | nil => cases hm
    | cons m ms =>
      obtain ⟨hhead, hrest⟩ := List.cons.inj hm
      obtain ⟨msg, hmsg, rfl⟩ := lookup_of_message hhead
      obtain ⟨rfl, hp⟩ := hp
      have hnext : (t.forward i).next p = msg.next := by
        simp only [forward, hmsg, bind_some]
      rw [hnext] at hp
      cases n with
      | zero => simp at hn
      | succ n =>
        have hstep : search t msgtyp (n + 1) prev (some p) =
            if Matches msgtyp msg.message then .ok (some (prev, p, msg))
            else search t msgtyp n (some p) msg.next := by
          rw [search, deref, hmsg, Except.ok_bind]
          rw [show msg.mtype = msg.message.mtype from rfl, matchesType_eq h, Except.ok_bind]
        have ih := ih (some p) hp hrest (Nat.le_of_succ_le_succ hn)
        rw [hstep]
        by_cases hc : Matches msgtyp msg.message
        · rw [find?_cons_of_pos hc, eraseP_cons_of_pos hc, if_pos hc]
          exact ⟨[], p, l, msg, rfl, hmsg, rfl, hrest, rfl⟩
        rw [find?_cons_of_neg hc, eraseP_cons_of_neg hc, if_neg hc]
        cases hf : ms.find? (Matches msgtyp) with
        | none =>
          rw [hf] at ih
          exact ih
        | some m =>
          rw [hf] at ih
          obtain ⟨l₁, q, l₂, msg', rfl, hq, hm', herase, hs⟩ := ih
          refine ⟨p :: l₁, q, l₂, msg', rfl, hq, hm', ?_, ?_⟩
          · rw [cons_append, map_cons, herase, hhead]
            rfl
          · rw [hs, getLast?_cons]
            cases l₁.getLast? <;> rfl

end Search

/-! ## 4. Queues and their sequences -/

/-- **The queues read as the sequences `Q`**; `L` are the addresses. -/
structure Reads (t : MsgTable P) (L : Fin MSGMNI → List P) (Q : Sequences) : Prop where
  spells : ∀ i, (t.forward i).Spells (L i)
  messages : ∀ i, (L i).map t.message = (Q i).map some
  apart : ∀ i j p, p ∈ L i → p ∈ L j → i = j
  qnum : ∀ i, (t.queues i).in_use = true → (t.queues i).qnum = (Q i).length
  qbytes : ∀ i, (t.queues i).in_use = true → (t.queues i).qbytes = totalSize (Q i)
  free : ∀ i, (t.queues i).in_use = false → Q i = []

section Reads

variable {t t' t'' : MsgTable P} {L : Fin MSGMNI → List P} {Q : Sequences} {i : Fin MSGMNI}
  {l l' : List P} {ms : List Message} {p : P} {msg : KernelMsg P}

theorem reads_empty : Reads ({} : MsgTable P) (fun _ => []) fun _ => [] where
  spells _ := Forward.spells_empty _
  messages _ := rfl
  apart _ _ _ h := nomatch h
  qnum _ h := nomatch h
  qbytes _ h := nomatch h
  free _ _ := rfl

/-- The addresses of a queue have messages. -/
theorem Reads.lookup (h : Reads t L Q) (hp : p ∈ L i) : ∃ msg, t.heap.lookup p = some msg := by
  have hmem : t.message p ∈ (Q i).map some := h.messages i ▸ mem_map_of_mem hp
  obtain ⟨m, -, hm⟩ := mem_map.1 hmem
  obtain ⟨msg, hmsg, -⟩ := lookup_of_message hm.symm
  exact ⟨msg, hmsg⟩

theorem Reads.length (h : Reads t L Q) (i : Fin MSGMNI) : (L i).length = (Q i).length := by
  have hl := congrArg List.length (h.messages i)
  rwa [length_map, length_map] at hl

/-- No list is longer than the heap. -/
theorem Reads.length_le (h : Reads t L Q) (i : Fin MSGMNI) :
    (L i).length ≤ t.heap.entries.length := by
  have hsub : L i ⊆ t.heap.keys := fun p hp => by
    obtain ⟨msg, hmsg⟩ := h.lookup hp
    exact AList.mem_keys.1 (AList.lookup_isSome.1 (by rw [hmsg]; rfl))
  have hle := ((h.spells i).nodup.subperm hsub).length_le
  rwa [AList.keys, List.keys, length_map] at hle

/-- **One queue changes**: its list and its messages are new, the addresses written to are in none
    of the other lists. -/
theorem Reads.change (h : Reads t L Q) (hq : ∀ j, j ≠ i → t'.queues j = t.queues j)
    (hheap : ∀ j, j ≠ i → ∀ p ∈ L j, t'.heap.lookup p = t.heap.lookup p)
    (hs : (t'.forward i).Spells l) (hm : l.map t'.message = ms.map some)
    (hout : ∀ j, j ≠ i → ∀ p ∈ l, p ∉ L j)
    (hqnum : (t'.queues i).in_use = true → (t'.queues i).qnum = ms.length)
    (hqbytes : (t'.queues i).in_use = true → (t'.queues i).qbytes = totalSize ms)
    (hfree : (t'.queues i).in_use = false → ms = []) :
    Reads t' (update L i l) (update Q i ms) where
  spells j := by
    by_cases hj : j = i
    · subst hj
      rwa [update_self]
    rw [update_of_ne hj]
    refine Forward.spells_congr (h.spells j) ?_ ?_ fun p hp => ?_
    · simp only [forward, hq j hj]
    · simp only [forward, hq j hj]
    · simp only [forward, hheap j hj p hp]
  messages j := by
    by_cases hj : j = i
    · subst hj
      rwa [update_self, update_self]
    · rw [update_of_ne hj, update_of_ne hj, ← h.messages j]
      exact map_congr_left fun p hp => by
        rw [message, message, hheap j hj p hp]
  apart j k p hj hk := by
    by_cases ej : j = i <;> by_cases ek : k = i
    · rw [ej, ek]
    · rw [ej, update_self] at hj
      rw [update_of_ne ek] at hk
      exact absurd hk (hout k ek p hj)
    · rw [ek, update_self] at hk
      rw [update_of_ne ej] at hj
      exact absurd hj (hout j ej p hk)
    · rw [update_of_ne ej] at hj
      rw [update_of_ne ek] at hk
      exact h.apart j k p hj hk
  qnum j := by
    by_cases hj : j = i
    · subst hj
      rwa [update_self]
    · rw [update_of_ne hj, hq j hj]
      exact h.qnum j
  qbytes j := by
    by_cases hj : j = i
    · subst hj
      rwa [update_self]
    · rw [update_of_ne hj, hq j hj]
      exact h.qbytes j
  free j := by
    by_cases hj : j = i
    · subst hj
      rwa [update_self]
    · rw [update_of_ne hj, hq j hj]
      exact h.free j

/-- The addresses of one queue are in no other. -/
theorem Reads.outside (h : Reads t L Q) (hp : p ∈ L i) (j : Fin MSGMNI) (hj : j ≠ i) : p ∉ L j :=
  fun hm => hj (h.apart j i p hm hp)

/-- A queue changes owner, mode or limit. -/
theorem Reads.setQueue (h : Reads t L Q) {q : MsgQueue P} (hhead : q.head = (t.queues i).head)
    (htail : q.tail = (t.queues i).tail) (hnum : q.qnum = (t.queues i).qnum)
    (hbytes : q.qbytes = (t.queues i).qbytes) (huse : q.in_use = (t.queues i).in_use) :
    Reads (t.setQueue i q) L Q := by
  have hself : (t.setQueue i q).queues i = q := update_self _ _ _
  have hr : Reads (t.setQueue i q) (update L i (L i)) (update Q i (Q i)) := by
    refine h.change (fun _ hj => update_of_ne hj _ _) (fun _ _ _ _ => rfl) ?_
      (h.messages i) (fun j hj p hp => h.outside hp j hj) ?_ ?_ ?_
    · rw [forward_setQueue, hhead, htail]
      exact h.spells i
    · rw [hself, huse, hnum]
      exact h.qnum i
    · rw [hself, huse, hbytes]
      exact h.qbytes i
    · rw [hself, huse]
      exact h.free i
  rwa [update_eq_self, update_eq_self] at hr

end Reads

/-! ## 5. What the calls do to the sequences -/

section Calls

variable {t : MsgTable P} {L : Fin MSGMNI → List P} {Q : Sequences} {i : Fin MSGMNI}
  {l l₁ l₂ : List P} {ms : List Message} {p : P} {msg : KernelMsg P} {m : Message} {proc : Cred}
  {id : BitVec 32} {mode : AccessMode}

theorem totalSize_append (ms ms' : List Message) :
    totalSize (ms ++ ms') = totalSize ms + totalSize ms' := by
  rw [totalSize, map_append, sum_append]
  rfl

theorem create_spec {alloc : Option P} (h : t.create alloc = some p) : t.heap.lookup p = none := by
  have hp := (filter_eq_some_iff.1 h).2
  exact AList.lookup_eq_none.2 (of_decide_eq_true hp)

/-- **A message is appended.** -/
theorem Reads.enqueue (h : Reads t L Q) (hp : t.heap.lookup p = none)
    (huse : (t.queues i).in_use = true) (m : Message) (pid : BitVec 32) :
    ∃ t' L', t.enqueue i p m pid = .ok t' ∧ Reads t' L' (update Q i (Q i ++ [m])) ∧
      Keeps t t' := by
  let t₁ : MsgTable P := { t with heap := t.heap.insert p ⟨m.mtype, m.data, none⟩ }
  have hout : ∀ j, p ∉ L j := fun j hm => by
    obtain ⟨msg, hmsg⟩ := h.lookup hm
    cases hp.symm.trans hmsg
  have hlook : ∀ j, ∀ q ∈ L j, t₁.heap.lookup q = t.heap.lookup q := fun j q hq =>
    AList.lookup_insert_ne fun e => hout j (e ▸ hq)
  obtain ⟨t₂, ht₂, hf₂, hr₂⟩ := link_spec (t := t₁) (i := i) (l := L i) (n := some p)
    (fun b (hb : (t.queues i).tail = some b) =>
      mem_of_getLast? ((h.spells i).tail.symm.trans hb))
    fun q hq => by
      rw [hlook i q hq]
      exact h.lookup hq
  let t' := t₂.setQueue i { t₂.queues i with
    tail := some p, qnum := (t₂.queues i).qnum + 1,
    qbytes := (t₂.queues i).qbytes + m.size, lspid := pid }
  have hok : t.enqueue i p m pid = .ok t' := by
    rw [MsgTable.enqueue, show t₁.link i (t₁.queues i).tail (some p) = .ok t₂ from ht₂]
    rfl
  have hself : t'.queues i = { t₂.queues i with
    tail := some p, qnum := (t₂.queues i).qnum + 1,
    qbytes := (t₂.queues i).qbytes + m.size, lspid := pid } := update_self _ _ _
  have hends : t₂.queues i = { t.queues i with
    head := (t₂.queues i).head, tail := (t₂.queues i).tail } := hr₂.ends
  have hmsg : ∀ j, ∀ q ∈ L j, t'.message q = t.message q := fun j q hq => by
    have hm : t'.message q = t₁.message q := hr₂.messages q
    rw [hm, MsgTable.message, MsgTable.message, hlook j q hq]
  have hnew : t'.message p = some m := by
    have hm : t'.message p = t₁.message p := hr₂.messages p
    rw [hm, MsgTable.message, AList.lookup_insert]
    rfl
  have hreads : Reads t' (update L i (L i ++ [p])) (update Q i (Q i ++ [m])) := by
    refine h.change (fun j hj => ?_) (fun j hj q hq => ?_) ?_ ?_ (fun j hj q hq => ?_) (fun _ => ?_)
      (fun _ => ?_) fun hn => ?_
    · rw [show t'.queues j = t₂.queues j from update_of_ne hj _ _]
      exact hr₂.queues j hj
    · exact (hr₂.heap q fun hm => h.outside hm j hj hq).trans (hlook j q hq)
    · have hspell := Forward.spells_append (h.spells i) (hout i)
      have hf₁ : t₁.forward i = (t.forward i).setNext p none := forward_insert i
      have hf : t₂.forward i = ((t.forward i).setNext p none).link (t.forward i).tail (some p) :=
        hf₂.trans (hf₁ ▸ rfl)
      rw [Forward.append, ← hf] at hspell
      rw [forward_setQueue]
      exact hspell
    · rw [map_append, map_append, map_congr_left (hmsg i), h.messages i,
        map_singleton, map_singleton, hnew]
    · rcases mem_append.1 hq with hq | hq
      · exact h.outside hq j hj
      · rw [mem_singleton.1 hq]
        exact hout j
    · rw [hself, hends, length_append]
      exact congrArg (· + 1) (h.qnum i huse)
    · rw [hself, hends, totalSize_append]
      exact congrArg (· + m.size) (h.qbytes i huse)
    · rw [hself, hends] at hn
      cases huse.symm.trans hn
  have hk : Keeps t t₂ := by
    have hk := hr₂.keeps
    exact ⟨hk.in_use, hk.perm, hk.limit⟩
  exact ⟨t', _, hok, hreads, hk.setQueue rfl rfl rfl⟩

end Calls

/-- Why a call of a debug build that gives up its data does not come back. -/
def settle {α : Type} (debug : Bool) (size : Nat) : Attempt α → Attempt α
  | .error e => giveUp debug size e
  | r => r

/-- What a receiver of the code does to a sequence: a message that cannot be handed over goes to
    the front, and -2^63 has no negation. -/
def listRcv (args : RcvArgs) (ms : List Message) : Attempt Delivery × List Message :=
  if args.msgtyp = BitVec.intMin 64 ∧ ms ≠ [] then (.trap .integerOverflow, ms)
  else
    match ms.find? (Matches args.msgtyp) with
    | none => (if args.msgflg &&& MSG_NOWAIT ≠ 0 then .error .ENOMSG else .blocked, ms)
    | some m =>
      match refusal args m.size with
      | some e => (.error e, m :: ms.eraseP (Matches args.msgtyp))
      | none => (.done ⟨m.mtype, m.data.take args.msgsz⟩, ms.eraseP (Matches args.msgtyp))

/-- A call that is done wakes one thread at the other end. -/
def Attempt.wakes {α : Type} : Attempt α → Wake
  | .done _ => .first
  | _ => .nobody

section Passes

variable {t : MsgTable P} {L : Fin MSGMNI → List P} {Q : Sequences} {i : Fin MSGMNI}
  {l l₁ l₂ : List P} {ms : List Message} {p : P} {msg : KernelMsg P} {m : Message} {proc : Cred}
  {id : BitVec 32}

theorem Reads.same (h : Reads t L Q) (i : Fin MSGMNI) : Reads t L (update Q i (Q i)) := by
  rwa [update_eq_self]

theorem giveUp_wakes {α : Type} (debug : Bool) (size : Nat) (e : IpcError) :
    (giveUp debug size e : Attempt α).wakes = .nobody := by
  unfold giveUp
  split_ifs <;> rfl

/-- **A pass of a sender does to its queue what `specSnd` does.** -/
theorem sndAttempt_reads (debug : Bool) (h : Reads t L Q) (he : t.enter id proc .write = .ok i)
    (m : Message) (msgflg : BitVec 32) (alloc : Option P) :
    let r := specSnd (t.queues i).qbytes_max msgflg (t.create alloc).isSome m (Q i)
    let s := sndAttempt debug t id m msgflg proc alloc
    ∃ L', Reads s.table L' (update Q i r.2) ∧ Keeps t s.table ∧
      s.attempt = settle debug m.size r.1 ∧ s.wake = s.attempt.wakes := by
  have huse := (enter_slot he).1
  simp only [sndAttempt, he, specSnd, h.qbytes i huse]
  by_cases hfull : totalSize (Q i) + m.size > (t.queues i).qbytes_max
  · simp only [if_pos hfull]
    refine ⟨L, h.same i, .refl t, ?_, ?_⟩
    · split_ifs <;> rfl
    · split_ifs
      · exact (giveUp_wakes _ _ _).symm
      · rfl
  simp only [if_neg hfull]
  cases hc : t.create alloc with
  | none => exact ⟨L, h.same i, .refl t, rfl, (giveUp_wakes _ _ _).symm⟩
  | some p =>
    obtain ⟨t', L', henq, hr, hk⟩ := h.enqueue (create_spec hc) huse m proc.pid
    simp only [henq]
    exact ⟨L', hr, hk, rfl, rfl⟩

/-- The first message of a kind, and the sequence without it. -/
theorem find_eraseP {f : Message → Bool} (h : ms.find? f = some m) :
    ∃ as bs, ms = as ++ m :: bs ∧ ms.eraseP f = as ++ bs := by
  obtain ⟨hm, as, bs, rfl, has⟩ := find?_eq_some_iff_append.1 h
  refine ⟨as, bs, rfl, ?_⟩
  rw [eraseP_append_right _ fun a ha => by simpa using has a ha, eraseP_cons_of_pos hm]

/-- Its length and its size. -/
theorem eraseP_counts {f : Message → Bool} (h : ms.find? f = some m) :
    ms.length = (ms.eraseP f).length + 1 ∧ totalSize ms = totalSize (ms.eraseP f) + m.size := by
  obtain ⟨as, bs, rfl, he⟩ := find_eraseP h
  rw [he, totalSize_append, totalSize_append, totalSize, totalSize, totalSize, map_cons,
    sum_cons, length_append, length_append, length_cons]
  omega

/-- **A message that was found is taken out, and handed over or put back at the front.** -/
theorem deliver_reads (h : Reads t L Q) (huse : (t.queues i).in_use = true) {f : Message → Bool}
    (hL : L i = l₁ ++ p :: l₂) (hp : t.heap.lookup p = some msg)
    (hfind : (Q i).find? f = some msg.message)
    (herase : (l₁ ++ l₂).map t.message = ((Q i).eraseP f).map some) (args : RcvArgs)
    (pid : BitVec 32) :
    ∃ r L', deliver t i l₁.getLast? p msg args pid = .ok r ∧
      Reads r.table L' (update Q i (match refusal args msg.message.size with
        | some _ => msg.message :: (Q i).eraseP f
        | none => (Q i).eraseP f)) ∧ Keeps t r.table ∧
      r.attempt = (match refusal args msg.message.size with
        | some e => .error e
        | none => .done ⟨msg.mtype, msg.data.take args.msgsz⟩) ∧ r.wake = r.attempt.wakes := by
  have hspell := h.spells i
  rw [hL] at hspell
  have hin : ∀ q ∈ l₁ ++ p :: l₂, q ∈ L i := fun q hq => hL ▸ hq
  obtain ⟨t₁, ht₁, hs₁, hr₁⟩ := unlink_spec hspell hp fun q hq =>
    h.lookup (hin q (mem_append_left _ hq))
  obtain ⟨hlen, hsize⟩ := eraseP_counts hfind
  have hpout : p ∉ l₁ ++ l₂ := by
    have hd := (perm_middle.nodup_iff).1 hspell.nodup
    exact (nodup_cons.1 hd).1
  have hp₁ : p ∉ l₁ := fun hm => hpout (mem_append_left _ hm)
  have hlook : t₁.heap.lookup p = some msg := (hr₁.heap p hp₁).trans hp
  have hmsgs : (l₁ ++ l₂).map t₁.message = ((Q i).eraseP f).map some := by
    rw [← herase]
    exact map_congr_left fun q _ => hr₁.messages q
  have hother : ∀ j, j ≠ i → ∀ q ∈ L j, q ∉ l₁ ∧ q ≠ p := fun j hj q hq =>
    ⟨fun hm => h.outside (hin q (mem_append_left _ hm)) j hj hq, fun e =>
      h.outside (hin p (mem_append_right _ mem_cons_self)) j hj (e ▸ hq)⟩
  have hqueue : t₁.queues i = { t.queues i with
    head := (t₁.queues i).head, tail := (t₁.queues i).tail } := hr₁.ends
  have huse₁ : (t₁.queues i).in_use = true := (hr₁.keeps.in_use i).trans huse
  rw [deliver, ht₁, Except.ok_bind]
  have hsz : msg.data.length = msg.message.size := rfl
  rw [hsz]
  cases hrefuse : refusal args msg.message.size with
  | some e =>
    obtain ⟨t₂, ht₂, hs₂, hr₂⟩ := putBack_spec hs₁ hpout hlook
    have hr := hr₁.trans hr₂
    have hends : t₂.queues i = { t.queues i with
      head := (t₂.queues i).head, tail := (t₂.queues i).tail } := hr.ends
    refine ⟨⟨t₂, .error e, .nobody⟩, update L i (p :: (l₁ ++ l₂)), ?_, ?_, hr.keeps, rfl, rfl⟩
    · simp only [ht₂, Except.ok_bind]
      rfl
    refine h.change hr.queues (fun j hj q hq => ?_) hs₂ ?_ (fun j hj q hq => ?_) (fun _ => ?_)
      (fun _ => ?_) fun hn => ?_
    · refine hr.heap q fun hm => ?_
      rcases mem_append.1 hm with hm | hm
      · exact (hother j hj q hq).1 hm
      · exact (hother j hj q hq).2 (mem_singleton.1 hm)
    · rw [map_cons, map_cons, hr₂.messages p, message_eq hlook,
        map_congr_left fun q _ => hr₂.messages q, hmsgs]
    · refine h.outside (hin q ?_) j hj
      exact perm_middle.mem_iff.2 hq
    · rw [hends, length_cons, ← hlen]
      exact h.qnum i huse
    · rw [hends, totalSize, map_cons, sum_cons, Nat.add_comm]
      exact (h.qbytes i huse).trans hsize
    · exact nomatch ((hr.keeps.in_use i).trans huse).symm.trans hn
  | none =>
    have hnum : Trap.sub (t₁.queues i).qnum 1 = .ok ((Q i).eraseP f).length := by
      rw [hqueue]
      rw [h.qnum i huse, hlen, Trap.sub, if_pos (Nat.le_add_left _ _), Nat.add_sub_cancel]
    have hbytes : Trap.sub (t₁.queues i).qbytes msg.data.length =
        .ok (totalSize ((Q i).eraseP f)) := by
      rw [hqueue]
      show Trap.sub (t.queues i).qbytes msg.message.size = _
      rw [h.qbytes i huse, hsize, Trap.sub, if_pos (Nat.le_add_left _ _), Nat.add_sub_cancel]
    let t₂ := t₁.setQueue i { t₁.queues i with
      qnum := ((Q i).eraseP f).length, qbytes := totalSize ((Q i).eraseP f), lrpid := pid }
    let t₃ : MsgTable P := { t₂ with heap := t₂.heap.erase p }
    have hself : t₃.queues i = { t₁.queues i with
      qnum := ((Q i).eraseP f).length, qbytes := totalSize ((Q i).eraseP f), lrpid := pid } :=
      MsgTable.setQueue_self _ _ _
    have hlook₃ : ∀ q, q ≠ p → t₃.heap.lookup q = t₁.heap.lookup q := fun q hq =>
      AList.lookup_erase_ne hq
    have hdiscard : t₁.discard i p msg pid = .ok t₃ := by
      rw [MsgTable.discard, hnum, Except.ok_bind, hbytes]
      rfl
    have hk₃ : Keeps t t₃ := by
      have hk := hr₁.keeps.setQueue (i := i) (q := { t₁.queues i with
        qnum := ((Q i).eraseP f).length, qbytes := totalSize ((Q i).eraseP f), lrpid := pid })
        rfl rfl rfl
      exact ⟨hk.in_use, hk.perm, hk.limit⟩
    refine ⟨⟨t₃, .done ⟨msg.mtype, msg.data.take args.msgsz⟩, .first⟩,
      update L i (l₁ ++ l₂), ?_, ?_, hk₃, rfl, rfl⟩
    · simp only [hdiscard, Except.ok_bind]
      rfl
    refine h.change (fun j hj => ?_) (fun j hj q hq => ?_) ?_ ?_ (fun j hj q hq => ?_)
      (fun _ => ?_) (fun _ => ?_) fun hn => ?_
    · exact (MsgTable.setQueue_ne t₁ hj _).trans (hr₁.queues j hj)
    · rw [hlook₃ q (hother j hj q hq).2]
      exact hr₁.heap q (hother j hj q hq).1
    · refine Forward.spells_congr hs₁ ?_ ?_ fun q hq => ?_
      · simp only [MsgTable.forward, hself]
      · simp only [MsgTable.forward, hself]
      · simp only [MsgTable.forward, hlook₃ q fun e => hpout (e ▸ hq)]
    · rw [← hmsgs]
      refine map_congr_left fun q hq => ?_
      rw [MsgTable.message, MsgTable.message, hlook₃ q fun e => hpout (e ▸ hq)]
    · refine h.outside (hin q ?_) j hj
      exact perm_middle.mem_iff.2 (mem_cons_of_mem _ hq)
    · rw [hself]
    · rw [hself]
    · rw [hself] at hn
      exact nomatch huse₁.symm.trans hn

end Passes

section Whole

variable {t : MsgTable P} {L : Fin MSGMNI → List P} {Q : Sequences} {i : Fin MSGMNI} {proc : Cred}
  {id : BitVec 32}

/-- **A pass of a receiver does to its queue what `listRcv` does.** -/
theorem msgrcv_reads (h : Reads t L Q) (he : t.enter id proc .read = .ok i) (args : RcvArgs) :
    let r := msgrcv t id args proc
    ∃ L', Reads r.table L' (update Q i (listRcv args (Q i)).2) ∧ Keeps t r.table ∧
      r.attempt = (listRcv args (Q i)).1 ∧ r.wake = r.attempt.wakes := by
  have huse := (enter_slot he).1
  simp only [msgrcv, he, listRcv]
  by_cases hmin : args.msgtyp = BitVec.intMin 64 ∧ Q i ≠ []
  · have hs := search_intMin none (h.spells i).path (h.messages i) (h.length_le i) hmin.2
    have hhead : (t.forward i).head = (t.queues i).head := rfl
    rw [hhead] at hs
    rw [if_pos hmin, hmin.1, hs]
    exact ⟨L, h.same i, .refl t, rfl, rfl⟩
  rw [if_neg hmin]
  by_cases hne : args.msgtyp = BitVec.intMin 64
  · -- an empty queue is not searched
    have hnil : Q i = [] := not_not.1 fun hn => hmin ⟨hne, hn⟩
    have hL : L i = [] := length_eq_zero_iff.1 (by rw [h.length i, hnil]; rfl)
    have hhead : (t.queues i).head = none := by
      have hp := (h.spells i).path
      rw [hL] at hp
      exact hp
    have hs : search t args.msgtyp t.heap.entries.length none (t.queues i).head = .ok none := by
      rw [hhead]
      cases t.heap.entries.length <;> rfl
    rw [hs]
    have hr := h.same i
    rw [hnil] at hr ⊢
    refine ⟨L, hr, .refl t, rfl, ?_⟩
    simp only
    split_ifs <;> rfl
  have hs := search_spec none hne (h.spells i).path (h.messages i) (h.length_le i)
  have hhead : (t.forward i).head = (t.queues i).head := rfl
  rw [hhead] at hs
  cases hf : (Q i).find? (Matches args.msgtyp) with
  | none =>
    rw [hf] at hs
    simp only at hs
    rw [hs]
    refine ⟨L, h.same i, .refl t, rfl, ?_⟩
    simp only
    split_ifs <;> rfl
  | some m =>
    rw [hf] at hs
    obtain ⟨l₁, p, l₂, msg, hL, hp, rfl, herase, hs⟩ := hs
    rw [hs, or_none]
    obtain ⟨r, L', hr, hreads, hk, ha, hw⟩ := deliver_reads h huse hL hp hf herase args proc.pid
    simp only [hr]
    refine ⟨L', ?_, hk, ?_, hw⟩
    · cases hrefuse : refusal args msg.message.size <;> rw [hrefuse] at hreads <;> exact hreads
    · rw [ha]
      cases refusal args msg.message.size <;> rfl

/-- The messages of a queue are freed one after another. -/
theorem freeAll_spec {h : AList fun _ : P => KernelMsg P} {l : List P} {a : Option P} {n : Nat}
    (hp : Forward.Path (fun p => (h.lookup p).bind KernelMsg.next) a l none) (hd : l.Nodup)
    (hl : ∀ p ∈ l, ∃ msg, h.lookup p = some msg) (hn : l.length ≤ n) :
    ∃ h', freeAll n h a = .ok h' ∧ ∀ q, q ∉ l → h'.lookup q = h.lookup q := by
  induction l generalizing h a n with
  | nil =>
    cases hp
    exact ⟨h, by cases n <;> rfl, fun _ _ => rfl⟩
  | cons p l ih =>
    obtain ⟨rfl, hp⟩ := hp
    obtain ⟨hpl, hd⟩ := nodup_cons.1 hd
    obtain ⟨msg, hmsg⟩ := hl p mem_cons_self
    have hne : ∀ q ∈ l, q ≠ p := fun q hq e => hpl (e ▸ hq)
    simp only [hmsg, bind_some] at hp
    cases n with
    | zero => simp at hn
    | succ n =>
      obtain ⟨h', hf, hout⟩ := ih (h := h.erase p) (a := msg.next)
        ((Forward.path_congr fun q hq => by rw [AList.lookup_erase_ne (hne q hq)]).2 hp) hd
        (fun q hq => by
          rw [AList.lookup_erase_ne (hne q hq)]
          exact hl q (mem_cons_of_mem _ hq))
        (Nat.le_of_succ_le_succ hn)
      refine ⟨h', ?_, fun q hq => ?_⟩
      · rw [freeAll, hmsg]
        exact hf
      · rw [mem_cons, not_or] at hq
        rw [hout q hq.2, AList.lookup_erase_ne hq.1]

/-- **A removed queue is empty**, and the others read as before. -/
theorem msgRmid_reads (h : Reads t L Q) (ho : t.owned id proc = .ok i) :
    ∃ L', Reads (msgRmid t id proc).table L' (update Q i []) ∧
      (msgRmid t id proc).attempt = .done () ∧ (msgRmid t id proc).wake = .everybody ∧
      ∀ j, j ≠ i → (msgRmid t id proc).table.queues j = t.queues j := by
  obtain ⟨heap', hf, hout⟩ := freeAll_spec (h.spells i).path (h.spells i).nodup
    (fun p hp => h.lookup hp) (h.length_le i)
  have hhead : (t.forward i).head = (t.queues i).head := rfl
  rw [hhead] at hf
  rw [msgRmid, ho]
  simp only [hf]
  refine ⟨update L i [], h.change (fun j hj => setQueue_ne t hj _)
    (fun j hj q hq => hout q fun hm => h.outside hm j hj hq) ?_ rfl (fun _ _ _ hp => nomatch hp)
    (fun hu => ?_) (fun hu => ?_) fun _ => rfl, trivial, trivial, fun j hj =>
      setQueue_ne t hj _⟩
  · refine Forward.spells_congr (Forward.spells_empty fun _ => none) ?_ ?_ fun _ hp => nomatch hp
    · simp only [forward, setQueue_self]
    · simp only [forward, setQueue_self]
  · simp only [setQueue_self] at hu
    exact nomatch hu
  · simp only [setQueue_self] at hu
    exact nomatch hu

/-- A new queue is empty. -/
theorem msgget_reads (h : Reads t L Q) (key flags : BitVec 32) (proc : Cred) :
    ∃ L', Reads (msgget t key flags proc).1 L' Q := by
  unfold msgget
  cases t.findKey key with
  | some i =>
    simp only
    split_ifs
    · exact ⟨L, h⟩
    · exact ⟨L, h⟩
    · exact ⟨L, h⟩
  | none =>
    simp only
    split_ifs
    · exact ⟨L, h⟩
    cases hfree : t.findFree with
    | none => exact ⟨L, h⟩
    | some idx =>
      have hin : (t.queues idx).in_use = false := by
        simpa using find?_some hfree
      have hnil : Q idx = [] := h.free idx hin
      refine ⟨update L idx [], ?_⟩
      rw [← update_eq_self idx Q, hnil]
      refine h.change (fun j hj => setQueue_ne t hj _) (fun _ _ _ _ => rfl) ?_ rfl
        (fun _ _ _ hp => nomatch hp) (fun _ => ?_) (fun _ => ?_) fun _ => rfl
      · refine Forward.spells_congr (Forward.spells_empty fun _ => none) ?_ ?_
          fun _ hp => nomatch hp
        · simp only [forward, setQueue_self]
        · simp only [forward, setQueue_self]
      · simp only [setQueue_self, length_nil]
      · simp only [setQueue_self]
        rfl

end Whole

/-! ## 6. Every call -/

/-- What a call of the code does to the sequences. -/
def listCall (debug : Bool) (t : MsgTable P) (Q : Sequences) : MsgCall P → Sequences × MsgReply
  | .get key flags proc => (Q, .id (msgget t key flags proc).2)
  | .snd id args proc room alloc =>
    match sndHeader args room with
    | .error e => (Q, .over (.error e))
    | .ok mtype =>
      let r := specSender t Q id args proc alloc mtype
      (r.1, .over (settle debug args.msgsz r.2))
  | .rcv id args proc =>
    match t.enter id proc .read with
    | .error e => (Q, .message (.error e))
    | .ok i =>
      let r := listRcv args (Q i)
      (update Q i r.2, .message r.1)
  | .set id buf proc => (Q, .over (msgSet t id buf proc).attempt)
  | .rmid id proc =>
    match t.owned id proc with
    | .error e => (Q, .over (.error e))
    | .ok i => (update Q i [], .over (.done ()))

/-- **Calls where the code does to the sequences what a message queue is for**: in a debug build no
    sender fails with its data on the heap; a receiver with a negative selector, not -2^63 where
    there are messages, finds a message of the lowest type first; what it cannot be handed is at
    the head of the queue. -/
def InOrder (debug : Bool) (t : MsgTable P) (Q : Sequences) : MsgCall P → Prop
  | .snd id args proc room alloc =>
    debug = true → 0 < args.msgsz → ∀ mtype, sndHeader args room = .ok mtype →
      ∀ e, (specSender t Q id args proc alloc mtype).2 ≠ .error e
  | .rcv id args proc => ∀ i, t.enter id proc .read = .ok i →
      (args.msgtyp = BitVec.intMin 64 → Q i = []) ∧
        ∀ m, (Q i).find? (Matches args.msgtyp) = some m →
          (args.msgtyp.toInt < 0 → ∀ m' ∈ Q i, m.mtype.toInt ≤ m'.mtype.toInt) ∧
          ((refusal args m.size).isSome → (Q i).head? = some m)
  | _ => True

section Every

variable {t : MsgTable P} {L : Fin MSGMNI → List P} {Q : Sequences} {c : MsgCall P} {debug : Bool}

theorem msgSet_reads (h : Reads t L Q) (id : BitVec 32) (buf : Option MsgSetBuf) (proc : Cred) :
    Reads (msgSet t id buf proc).table L Q := by
  unfold msgSet
  cases ho : t.owned id proc with
  | error e => exact h
  | ok i =>
    cases buf with
    | none => exact h
    | some ds => exact h.setQueue rfl rfl rfl rfl rfl

/-- **The queues read as the sequences after every call**, and the answer is the answer. -/
theorem call_reads (h : Reads t L Q) (debug : Bool) (c : MsgCall P) :
    (∃ L', Reads (t.call debug c).1 L' (listCall debug t Q c).1) ∧
      (t.call debug c).2 = (listCall debug t Q c).2 := by
  cases c with
  | get key flags proc => exact ⟨msgget_reads h key flags proc, rfl⟩
  | snd id args proc room alloc =>
    simp only [call, msgsnd, listCall]
    cases sndHeader args room with
    | error e => exact ⟨⟨L, h⟩, rfl⟩
    | ok mtype =>
      simp only [specSender]
      cases args.bytes with
      | none => exact ⟨⟨L, h⟩, rfl⟩
      | some byte =>
        simp only
        have hsize : ((List.range args.msgsz).map byte).length = args.msgsz := by simp
        cases he : t.enter id proc .write with
        | error e =>
          rw [sndAttempt, he]
          simp only [Message.size, hsize]
          exact ⟨⟨L, h⟩, rfl⟩
        | ok i =>
          obtain ⟨L', hr, -, ha, -⟩ := sndAttempt_reads debug h he
            ⟨mtype, (List.range args.msgsz).map byte⟩ args.msgflg alloc
          refine ⟨⟨L', hr⟩, ?_⟩
          rw [ha, Message.size, hsize]
  | rcv id args proc =>
    simp only [call, listCall]
    cases he : t.enter id proc .read with
    | error e =>
      rw [msgrcv, he]
      exact ⟨⟨L, h⟩, rfl⟩
    | ok i =>
      obtain ⟨L', hr, -, ha, -⟩ := msgrcv_reads h he args
      exact ⟨⟨L', hr⟩, congrArg MsgReply.message ha⟩
  | set id buf proc => exact ⟨⟨L, msgSet_reads h id buf proc⟩, rfl⟩
  | rmid id proc =>
    simp only [call, listCall]
    cases ho : t.owned id proc with
    | error e =>
      rw [msgRmid, ho]
      exact ⟨⟨L, h⟩, rfl⟩
    | ok i =>
      obtain ⟨L', hr, ha, -⟩ := msgRmid_reads h ho
      exact ⟨⟨L', hr⟩, congrArg MsgReply.over ha⟩

/-- A selector that is not negative names what it matches. -/
theorem names_eq_matches {msgtyp : BitVec 64} (h : ¬msgtyp.toInt < 0) (ms : List Message) :
    Names msgtyp ms = Matches msgtyp := by
  funext m
  unfold Names Matches
  by_cases h0 : msgtyp = 0
  · rw [if_pos h0, if_pos h0]
  · have hne : msgtyp.toInt ≠ 0 := fun e => h0 (BitVec.eq_of_toInt_eq e)
    rw [if_neg h0, if_neg h0, if_pos (by omega), if_pos (by omega)]

/-- A negative one names a message of the lowest type that it matches. -/
theorem names_of_lowest {msgtyp : BitVec 64} (h : msgtyp.toInt < 0) (ms : List Message)
    (m : Message) : Names msgtyp ms m = true ↔
      Matches msgtyp m = true ∧ ∀ m' ∈ ms, Matches msgtyp m' = true →
        m.mtype.toInt ≤ m'.mtype.toInt := by
  have h0 : msgtyp ≠ 0 := by
    rintro rfl
    exact absurd h (by decide)
  have hpos : ¬msgtyp.toInt > 0 := by omega
  simp only [Names, Matches, if_neg h0, if_neg hpos, decide_eq_true_eq]

/-- **The message named is the first one matched where that one is of the lowest type.** -/
theorem find_names {msgtyp : BitVec 64} {ms : List Message}
    (h : ∀ m, ms.find? (Matches msgtyp) = some m → msgtyp.toInt < 0 →
      ∀ m' ∈ ms, m.mtype.toInt ≤ m'.mtype.toInt) :
    ms.find? (Names msgtyp ms) = ms.find? (Matches msgtyp) ∧
      ms.eraseP (Names msgtyp ms) = ms.eraseP (Matches msgtyp) := by
  by_cases hneg : msgtyp.toInt < 0
  · have himp : ∀ m, Names msgtyp ms m = true → Matches msgtyp m = true := fun m hm =>
      ((names_of_lowest hneg ms m).1 hm).1
    cases hf : ms.find? (Matches msgtyp) with
    | none =>
      have hno := find?_eq_none.1 hf
      have hno' : ∀ m ∈ ms, ¬Names msgtyp ms m = true := fun m hm hn => hno m hm (himp m hn)
      rw [find?_eq_none.2 hno', eraseP_of_forall_not hno', eraseP_of_forall_not hno]
      exact ⟨rfl, rfl⟩
    | some m =>
      have hlow := h m hf hneg
      obtain ⟨hm, as, bs, hms, has⟩ := find?_eq_some_iff_append.1 hf
      have has : ∀ a ∈ as, ¬Matches msgtyp a = true := fun a ha => by simpa using has a ha
      have has' : ∀ a ∈ as, ¬Names msgtyp ms a = true := fun a ha hn => has a ha (himp a hn)
      have hm' : Names msgtyp ms m = true :=
        (names_of_lowest hneg ms m).2 ⟨hm, fun m' hm' _ => hlow m' hm'⟩
      constructor
      · exact find?_eq_some_iff_append.2 ⟨hm', as, bs, hms, fun a ha => by
          simpa using has' a ha⟩
      · generalize Names msgtyp ms = f at has' hm'
        rw [hms, eraseP_append_right _ has', eraseP_append_right _ has,
          eraseP_cons_of_pos hm', eraseP_cons_of_pos hm]
  · rw [names_eq_matches hneg]
    exact ⟨rfl, rfl⟩

/-- **In order, the code does what a message queue is for.** -/
theorem listCall_eq (h : InOrder debug t Q c) : listCall debug t Q c = specCall t Q c := by
  cases c with
  | get key flags proc => rfl
  | set id buf proc => rfl
  | rmid id proc => rfl
  | snd id args proc room alloc =>
    simp only [listCall, specCall]
    cases hh : sndHeader args room with
    | error e => rfl
    | ok mtype =>
      simp only
      have hs : settle debug args.msgsz (specSender t Q id args proc alloc mtype).2 =
          (specSender t Q id args proc alloc mtype).2 := by
        cases hr : (specSender t Q id args proc alloc mtype).2 with
        | error e =>
          refine if_neg ?_
          rintro ⟨hdebug, hsz⟩
          exact h hdebug hsz mtype hh e hr
        | _ => rfl
      rw [hs]
  | rcv id args proc =>
    simp only [listCall, specCall]
    cases he : t.enter id proc .read with
    | error e => rfl
    | ok i =>
      obtain ⟨hmin, hfirst⟩ := h i he
      have hrcv : listRcv args (Q i) = specRcv args (Q i) := by
        obtain ⟨hfind, herase⟩ := find_names fun m hm => (hfirst m hm).1
        rw [listRcv, if_neg fun hn => hn.2 (hmin hn.1), specRcv, hfind, herase]
        cases hf : (Q i).find? (Matches args.msgtyp) with
        | none => rfl
        | some m =>
          simp only
          cases hr : refusal args m.size with
          | none => rfl
          | some e =>
            have hhead := (hfirst m hf).2 (by rw [hr]; rfl)
            have hm := find?_some hf
            cases hq : Q i with
            | nil =>
              rw [hq] at hhead
              cases hhead
            | cons m' ms =>
              rw [hq] at hhead
              cases hhead
              simp only [eraseP_cons_of_pos hm]
      simp only [hrcv]

end Every

/-! ## 7. Runs -/

/-- The queues with the sequences they are meant to be. -/
def msgSpecMachine (P : Type) [DecidableEq P] (debug : Bool) :
    Machine (MsgTable P × Sequences) (MsgCall P) :=
  (msgMachine P debug).track (fun _ => []) fun Q t c => (specCall t Q c).1

/-- **The queues are the sequences of the calls**, with head, tail and counters, and every answer
    is theirs, along every run whose calls are in order. -/
theorem msgQueues {debug : Bool} {s : MsgTable P × Sequences}
    (h : (msgSpecMachine P debug).Reach (fun s c => InOrder debug s.1 s.2 c) s) :
    (∃ L, Reads s.1 L s.2) ∧
      ∀ c, InOrder debug s.1 s.2 c → (s.1.call debug c).2 = (specCall s.1 s.2 c).2 := by
  have hreads : ∃ L, Reads s.1 L s.2 := by
    induction h with
    | @start s h =>
      have ht : s.1 = {} := h.1
      rw [ht, h.2]
      exact ⟨_, reads_empty⟩
    | step _ c hc ih =>
      obtain ⟨L, hL⟩ := ih
      obtain ⟨L', hL'⟩ := (call_reads hL debug c).1
      rw [listCall_eq hc] at hL'
      exact ⟨L', hL'⟩
  obtain ⟨L, hL⟩ := hreads
  exact ⟨⟨L, hL⟩, fun c hc => (call_reads hL debug c).2.trans (by rw [listCall_eq hc])⟩

/-- A private queue with two messages of one byte, of the types 1 and 2. -/
def twoMessages : List (MsgCall Nat) :=
  [.get IPC_PRIVATE 0o600#32 root, .snd 1 ⟨1, 0, some 1, some fun _ => 0⟩ root true (some 0),
    .snd 1 ⟨1, 0, some 2, some fun _ => 0⟩ root true (some 1)]

def firstQueue : Fin MSGMNI := ⟨0, by decide⟩

def afterTwo : MsgTable Nat × Sequences :=
  (msgSpecMachine Nat false).exec ({}, fun _ => []) twoMessages

theorem afterTwo_reach : (msgSpecMachine Nat false).Reach (fun s c => InOrder false s.1 s.2 c)
    afterTwo := by
  have hstart : (msgSpecMachine Nat false).Reach (fun s c => InOrder false s.1 s.2 c)
      ({}, fun _ => []) := .start ⟨rfl, rfl⟩
  refine hstart.exec ⟨trivial, ?_, ?_, trivial⟩
  · exact fun h => nomatch h
  · exact fun h => nomatch h

/-- A receiver of any type gets the first of two messages, and the second one stays. -/
theorem msgQueues_afterTwo : (∃ L, Reads afterTwo.1 L afterTwo.2) ∧
      (afterTwo.1.call false (.rcv 1 ⟨1, 0, 0, true, true⟩ root)).2 =
        .message (.done ⟨1, [0]⟩) := by
  have h := msgQueues afterTwo_reach
  have horder : InOrder false afterTwo.1 afterTwo.2 (.rcv 1 ⟨1, 0, 0, true, true⟩ root) := by
    intro i he
    have hi : afterTwo.1.enter 1 root .read = .ok firstQueue := rfl
    rw [hi] at he
    cases he
    have hpos : ¬(0#64 : BitVec 64).toInt < 0 := by decide
    exact ⟨fun hn => absurd hn (by decide), fun m hm => ⟨fun hn => absurd hn hpos, fun _ => hm⟩⟩
  exact ⟨h.1, (h.2 _ horder).trans rfl⟩

/-- **A receive that fails with `E2BIG` moves the second message to the front.** -/
theorem msgQueues_refuted :
    ¬∀ s : MsgTable Nat × Sequences, (msgSpecMachine Nat false).Reachable s → ∃ L, Reads s.1 L s.2 := by
  intro h
  let s := (msgSpecMachine Nat false).step afterTwo (.rcv 1 ⟨0, 2, 0, true, true⟩ root)
  obtain ⟨L, hL⟩ := h s (afterTwo_reach.reachable.step _ trivial)
  have hmessages := hL.messages firstQueue
  have hpath := (hL.spells firstQueue).path
  have hhead : (s.1.forward firstQueue).head = some 1 := by decide
  have hsecond : s.1.message 1 = some ⟨2, [0]⟩ := by decide
  have hQ : s.2 firstQueue = [⟨1, [0]⟩, ⟨2, [0]⟩] := by decide
  rw [hQ] at hmessages
  cases hl : L firstQueue with
  | nil =>
    rw [hl] at hmessages
    cases hmessages
  | cons p l =>
    rw [hl] at hmessages hpath
    have hp := Forward.path_head hpath
    rw [hhead] at hp
    cases hp
    have hfirst := (List.cons.inj hmessages).1
    rw [hsecond] at hfirst
    exact absurd hfirst (by decide)

end Zigk.Ipc
