/-
  Subject:   WAKEUPS ARE NOT LOST along the runs whose steps wake, or leave awake, enough.

  * `semSide_*`, `msgSide_*` -- what one pass does to it, for sets and for queues;
  * **`wakeupsKept`** -- along every run whose steps meet `Heeds`, in every state without a call in
    progress, nobody sleeps who could go on.
-/
import Zigk.Ipc.Wakeups

namespace Zigk.Ipc

open Function List Except Option Chan SemTable

/-! ## 1. Woken calls, as lists -/

section Woken

variable {vals : List Nat} {W W' : List (List SemBuf)} {sops : List SemBuf} {k : IpcCall}
  {l l' : List IpcCall} {i : Nat} {ms ms' : List Message} {o o' : List (BitVec 64)}

theorem Provided.mono (h : Provided vals W sops) (hW : ∀ w ∈ W, w ∈ W') : Provided vals W' sops := by
  rcases h with h | ⟨w, hw, h⟩
  · exact .inl h
  · exact .inr ⟨w, hW w hw, h⟩

/-- A call that has to wait itself provides for nobody. -/
theorem Provided.of_stuck {sops' : List SemBuf} (h : Provided vals (sops :: W) sops')
    (hs : Stuck vals sops) : Provided vals W sops' := by
  rcases h with h | ⟨w, hw, hn, h⟩
  · exact .inl h
  · rcases mem_cons.1 hw with rfl | hw
    · exact absurd hs hn
    · exact .inr ⟨w, hw, hn, h⟩

theorem arrays_append : arrays (l ++ l') i = arrays l i ++ arrays l' i := filterMap_append

theorem selectors_append : selectors (l ++ l') i = selectors l i ++ selectors l' i :=
  filterMap_append

theorem reserved_append : reserved (l ++ l') i = reserved l i + reserved l' i := by
  rw [reserved, filterMap_append, sum_append]
  rfl

/-- The calls of one wait queue say nothing about another. -/
theorem arrays_eq_nil (h : ∀ k ∈ l, k.chan ≠ .sem i) : arrays l i = [] := by
  refine filterMap_eq_nil_iff.2 fun k hk => ?_
  cases k with
  | semop id sops proc => exact if_neg fun e => h _ hk (congrArg sem e)
  | _ => rfl

theorem selectors_eq_nil (h : ∀ k ∈ l, k.chan ≠ .recv i) : selectors l i = [] := by
  refine filterMap_eq_nil_iff.2 fun k hk => ?_
  cases k with
  | rcv id args proc => exact if_neg fun e => h _ hk (congrArg recv e)
  | _ => rfl

theorem reserved_eq_zero (h : ∀ k ∈ l, k.chan ≠ .send i) : reserved l i = 0 := by
  have hnil : l.filterMap (IpcCall.size? i) = [] := by
    refine filterMap_eq_nil_iff.2 fun k hk => ?_
    cases k with
    | snd id m msgflg proc => exact if_neg fun e => h _ hk (congrArg send e)
    | _ => rfl
  rw [reserved, hnil]
  rfl

/-- Calls of another wait queue are woken. -/
theorem reserved_woken (h : ∀ k ∈ l', k.chan ≠ .send i) : reserved (l ++ l') i = reserved l i := by
  rw [reserved_append, reserved_eq_zero h, Nat.add_zero]

theorem selectors_woken (h : ∀ k ∈ l', k.chan ≠ .recv i) :
    selectors (l ++ l') i = selectors l i := by
  rw [selectors_append, selectors_eq_nil h, append_nil]

/-- **Fewer messages and more receivers leave less.** -/
theorem leftover_sublist (ho : o'.Sublist o) (hms : ms'.Sublist ms) :
    (leftover ms' o).Sublist (leftover ms o') := by
  induction ho generalizing ms ms' with
  | slnil => exact hms
  | cons msgtyp _ ih => exact ih (eraseP_sublist.trans hms)
  | cons_cons msgtyp _ ih => exact ih (hms.eraseP)

theorem ServedRcv.mono {W W' : List (BitVec 64)} (h : ServedRcv ms W l) (hms : ms'.Sublist ms)
    (hW : W.Subperm W') (hl : ∀ k ∈ l', k ∈ l) : ServedRcv ms' W' l' := by
  intro id args proc hk o ho m hm
  obtain ⟨o', hp, hsub⟩ := hW.trans ho.symm.subperm
  exact h id args proc (hl _ hk) o' hp m ((leftover_sublist hsub hms).subset hm)

end Woken

/-! Sleeping and waking. -/

section Waits

variable {P : Type} {s : IpcState P} {c : Chan} {k : IpcCall} {w : Wake} {W : List IpcCall}

theorem waitOn_self : (s.waitOn c k).asleep c = s.asleep c ++ [k] := update_self _ _ _

theorem waitOn_ne {d : Chan} (h : d ≠ c) : (s.waitOn c k).asleep d = s.asleep d :=
  update_of_ne h _ _

theorem wakeUp_self : (s.wakeUp c w).asleep c = (w.split (s.asleep c)).2 :=
  update_self _ _ _

theorem wakeUp_ne {d : Chan} (h : d ≠ c) : (s.wakeUp c w).asleep d = s.asleep d :=
  update_of_ne h _ _

theorem wakeUp_nobody (s : IpcState P) (c : Chan) : s.wakeUp c .nobody = s := by
  rw [IpcState.wakeUp, Wake.split, update_eq_self, append_nil]

/-- Nobody is in the queue twice: the woken ones and the others are those that slept. -/
theorem split_mem {l : List IpcCall} (h : k ∈ (w.split l).1 ∨ k ∈ (w.split l).2) : k ∈ l := by
  cases w with
  | nobody => exact h.elim (fun h => nomatch h) id
  | first => exact h.elim mem_of_mem_take mem_of_mem_drop
  | everybody => exact h.elim id fun h => nomatch h

theorem chan_waitOn (h : ∀ c, ∀ k ∈ s.asleep c, k.chan = c) (hk : k.chan = c) :
    ∀ d, ∀ k' ∈ (s.waitOn c k).asleep d, k'.chan = d := by
  intro d k' hk'
  by_cases hd : d = c
  · subst hd
    rw [waitOn_self] at hk'
    rcases mem_append.1 hk' with hk' | hk'
    · exact h d k' hk'
    · rw [mem_singleton.1 hk']
      exact hk
  · rw [waitOn_ne hd] at hk'
    exact h d k' hk'

theorem chan_wakeUp (h : ∀ c, ∀ k ∈ s.asleep c, k.chan = c) :
    ∀ d, ∀ k' ∈ (s.wakeUp c w).asleep d, k'.chan = d := by
  intro d k' hk'
  by_cases hd : d = c
  · subst hd
    rw [wakeUp_self] at hk'
    exact h d k' (split_mem (.inr hk'))
  · rw [wakeUp_ne hd] at hk'
    exact h d k' hk'

/-- Everybody is woken in some of the slots. -/
theorem foldl_wakeUp (slots : List (Fin SEMMNI)) (s : IpcState P) :
    let s' := slots.foldl (fun s i => s.wakeUp (.sem i.val) .everybody) s
    s'.sems = s.sems ∧ s'.msgs = s.msgs ∧
      (∀ c, s'.asleep c = s.asleep c ∨ s'.asleep c = []) ∧ (∀ i ∈ slots, s'.asleep (.sem i.val) = []) ∧
      (∀ c, (∀ i, c ≠ .sem i) → s'.asleep c = s.asleep c) ∧
      ∃ l, s'.woken = s.woken ++ l ∧ ∀ k ∈ l, ∃ i, k ∈ s.asleep (.sem i) := by
  induction slots generalizing s with
  | nil => exact ⟨rfl, rfl, fun _ => .inl rfl, fun _ hi => (nomatch hi), fun _ _ => rfl, [],
      (append_nil _).symm, fun _ hk => (nomatch hk)⟩
  | cons i slots ih =>
    have hself : (s.wakeUp (.sem i.val) .everybody).asleep (.sem i.val) = [] := wakeUp_self
    have hsub : ∀ c, (s.wakeUp (.sem i.val) .everybody).asleep c = s.asleep c ∨
        (s.wakeUp (.sem i.val) .everybody).asleep c = [] := fun c => by
      by_cases hc : c = .sem i.val
      · exact .inr (hc ▸ hself)
      · exact .inl (wakeUp_ne hc)
    obtain ⟨h₁, h₂, h₃, h₄, h₅, l, h₆, h₇⟩ := ih (s.wakeUp (.sem i.val) .everybody)
    refine ⟨h₁, h₂, fun c => ?_, fun j hj => ?_, fun c hc => (h₅ c hc).trans (wakeUp_ne (hc _)),
      s.asleep (.sem i.val) ++ l, ?_, fun k hk => ?_⟩
    · rcases h₃ c with h | h
      · rcases hsub c with h' | h'
        · exact .inl (h.trans h')
        · exact .inr (h.trans h')
      · exact .inr h
    · rcases mem_cons.1 hj with rfl | hj
      · rcases h₃ (.sem j.val) with h | h
        · exact h.trans hself
        · exact h
      · exact h₄ j hj
    · exact h₆.trans (append_assoc _ _ _)
    · rcases mem_append.1 hk with hk | hk
      · exact ⟨_, hk⟩
      obtain ⟨j, hj⟩ := h₇ k hk
      rcases hsub (.sem j) with h | h
      · exact ⟨j, h ▸ hj⟩
      · rw [h] at hj
        cases hj

end Waits

/-! ## 2. The invariant -/

variable {P : Type} [DecidableEq P]

/-- The sets: a slot without a set has no sleepers, and the others are provided for. -/
structure SemSide (t : SemTable) (a : Chan → List IpcCall) (W : List IpcCall) : Prop where
  sized : t.Sized
  free : ∀ idx : Fin SEMMNI, (t.sem_sets idx).in_use = false → a (.sem idx) = []
  served : ∀ idx : Fin SEMMNI, ServedSem (t.vals idx) (arrays W idx) (a (.sem idx))

/-- The queues: the same, with the lists that the queues are. -/
structure MsgSide (t : MsgTable P) (a : Chan → List IpcCall) (W : List IpcCall) : Prop where
  reads : ∃ L, Reads t L t.sequence
  free : ∀ idx : Fin MSGMNI, (t.queues idx).in_use = false →
    a (.send idx) = [] ∧ a (.recv idx) = []
  send : ∀ idx : Fin MSGMNI, ServedSnd (totalSize (t.sequence idx) + reserved W idx)
    (t.queues idx).qbytes_max (a (.send idx))
  recv : ∀ idx : Fin MSGMNI, ServedRcv (t.sequence idx) (selectors W idx) (a (.recv idx))

/-- **Every sleeper waits, whatever the calls `W` will still do.** -/
structure Settled (s : IpcState P) (W : List IpcCall) : Prop where
  chan : ∀ c, ∀ k ∈ s.asleep c, k.chan = c
  sem : SemSide s.sems s.asleep W
  msg : MsgSide s.msgs s.asleep W

section Sides

variable {t t' : SemTable} {q q' : MsgTable P} {a a' : Chan → List IpcCall}
  {W W' : List IpcCall} {i : Nat}

/-- **One slot changes**, with its wait queue and its woken calls. -/
theorem SemSide.after (h : SemSide t a W) (hsized : t'.Sized)
    (ht : ∀ idx : Fin SEMMNI, idx.val ≠ i → t'.sem_sets idx = t.sem_sets idx)
    (ha : ∀ j, j ≠ i → a' (.sem j) = a (.sem j))
    (hW : ∀ j, j ≠ i → ∀ w ∈ arrays W j, w ∈ arrays W' j)
    (hfree : ∀ idx : Fin SEMMNI, idx.val = i → (t'.sem_sets idx).in_use = false →
      a' (.sem idx) = [])
    (hi : ∀ idx : Fin SEMMNI, idx.val = i →
      ServedSem (t'.vals idx) (arrays W' idx) (a' (.sem idx))) : SemSide t' a' W' where
  sized := hsized
  free idx hu := by
    by_cases hidx : idx.val = i
    · exact hfree idx hidx hu
    · rw [ha _ hidx]
      exact h.free idx (ht idx hidx ▸ hu)
  served idx := by
    by_cases hidx : idx.val = i
    · exact hi idx hidx
    intro id sops proc hk
    rw [ha _ hidx] at hk
    have hvals : t'.vals idx = t.vals idx := by
      rw [vals, vals, ht idx hidx]
    rw [hvals]
    exact (h.served idx id sops proc hk).mono (hW _ hidx)

/-- The sets do not look at what waits for messages. -/
theorem SemSide.congr (h : SemSide t a W) (ha : ∀ j, a' (.sem j) = a (.sem j))
    (hW : ∀ j, ∀ w ∈ arrays W j, w ∈ arrays W' j) : SemSide t a' W' where
  sized := h.sized
  free idx hu := (ha _).trans (h.free idx hu)
  served idx id sops proc hk := by
    rw [ha] at hk
    exact (h.served idx id sops proc hk).mono (hW _)

/-- **One queue changes**, with its two wait queues and its woken calls. -/
theorem MsgSide.after (h : MsgSide q a W) (hreads : ∃ L, Reads q' L q'.sequence)
    (hq : ∀ idx : Fin MSGMNI, idx.val ≠ i → q'.sequence idx = q.sequence idx ∧
      (q'.queues idx).in_use = (q.queues idx).in_use ∧
      (q'.queues idx).qbytes_max = (q.queues idx).qbytes_max)
    (ha : ∀ j, j ≠ i → a' (.send j) = a (.send j) ∧ a' (.recv j) = a (.recv j))
    (hW : ∀ j, j ≠ i → reserved W' j = reserved W j ∧ selectors W' j = selectors W j)
    (hfree : ∀ idx : Fin MSGMNI, idx.val = i → (q'.queues idx).in_use = false →
      a' (.send idx) = [] ∧ a' (.recv idx) = [])
    (hsend : ∀ idx : Fin MSGMNI, idx.val = i →
      ServedSnd (totalSize (q'.sequence idx) + reserved W' idx) (q'.queues idx).qbytes_max
        (a' (.send idx)))
    (hrecv : ∀ idx : Fin MSGMNI, idx.val = i →
      ServedRcv (q'.sequence idx) (selectors W' idx) (a' (.recv idx))) : MsgSide q' a' W' where
  reads := hreads
  free idx hu := by
    by_cases hidx : idx.val = i
    · exact hfree idx hidx hu
    · rw [(ha _ hidx).1, (ha _ hidx).2]
      exact h.free idx ((hq idx hidx).2.1 ▸ hu)
  send idx := by
    by_cases hidx : idx.val = i
    · exact hsend idx hidx
    · rw [(ha _ hidx).1, (hW _ hidx).1, (hq idx hidx).1, (hq idx hidx).2.2]
      exact h.send idx
  recv idx := by
    by_cases hidx : idx.val = i
    · exact hrecv idx hidx
    · rw [(ha _ hidx).2, (hW _ hidx).2, (hq idx hidx).1]
      exact h.recv idx

/-- The queues do not look at what waits for semaphores. -/
theorem MsgSide.congr (h : MsgSide q a W)
    (ha : ∀ j, a' (.send j) = a (.send j) ∧ a' (.recv j) = a (.recv j))
    (hW : ∀ j, reserved W' j = reserved W j ∧ selectors W' j = selectors W j) :
    MsgSide q a' W' where
  reads := h.reads
  free idx hu := by
    rw [(ha _).1, (ha _).2]
    exact h.free idx hu
  send idx := by
    rw [(ha _).1, (hW _).1]
    exact h.send idx
  recv idx := by
    rw [(ha _).2, (hW _).2]
    exact h.recv idx

end Sides

/-! ## 3. Sets -/

section Sem

variable {t t' : SemTable} {id : BitVec 32} {sops : List SemBuf} {proc : SemProcess}
  {idx : Fin SEMMNI} {sems sems' : List Semaphore}

theorem lookup_idx {gone : IpcError} (h : t.lookup id gone = .ok idx) :
    idx.val = idToIndex id ∧ (t.sem_sets idx).in_use = true := by
  unfold SemTable.lookup at h
  split at h
  · simp only at h
    split_ifs at h with hc
    cases h
    simp only [Bool.or_eq_true, not_or, Bool.not_eq_true', Bool.not_eq_false] at hc
    exact ⟨rfl, hc.1⟩
  · cases h

theorem enter_idx (h : t.enter id sops proc.cred = .ok (idx, sems)) :
    idx.val = idToIndex id ∧ (t.sem_sets idx).in_use = true ∧ t.vals idx = values sems := by
  obtain ⟨hl, -, hs⟩ := enter_ok h
  obtain ⟨hidx, hu⟩ := lookup_idx hl
  exact ⟨hidx, hu, by rw [vals, hs]; rfl⟩

theorem setSems_ne {j : Fin SEMMNI} (h : j ≠ idx) :
    (t.setSems idx sems).sem_sets j = t.sem_sets j := update_of_ne h _ _

theorem vals_setSems : (t.setSems idx sems).vals idx = values sems := by
  simp only [vals, setSems, update_self, getD_some]

theorem in_use_setSems : ((t.setSems idx sems).sem_sets idx).in_use = (t.sem_sets idx).in_use := by
  simp only [setSems, update_self]

/-- Operations that do not add lower the values. -/
theorem applyOps_lowered (pid : BitVec 32) (h : ¬Adds sops)
    (hops : sops.foldlM (applyOp pid) sems = .ok sems') :
    values sems' = lowered (values sems) sops := by
  induction sops generalizing sems with
  | nil =>
    cases hops
    rfl
  | cons sop sops ih =>
    rw [foldlM_cons, bind_ok_iff] at hops
    obtain ⟨sems₁, hop, hops⟩ := hops
    have hle : sop.sem_op ≤ 0 := not_lt.1 fun hn => h ⟨sop, mem_cons_self, hn⟩
    rw [ih (fun ⟨s, hs, hn⟩ => h ⟨s, mem_cons_of_mem _ hs, hn⟩) hops]
    have hval : values sems₁ =
        (values sems).modify sop.sem_num (· - (-sop.sem_op).toNat) := by
      rw [applyOp, bind_ok_iff] at hop
      obtain ⟨sem, hat, hop⟩ := hop
      rw [bind_ok_iff] at hop
      obtain ⟨v, hv, hop⟩ := hop
      cases hop
      have hget : sems[sop.sem_num]? = some sem := by
        unfold semAt at hat
        split at hat
        · next h => exact h.trans (congrArg some (Except.ok.inj hat))
        · cases hat
      have hv' : v = sem.semval - (-sop.sem_op).toNat := by
        unfold applyValue at hv
        split_ifs at hv with hneg hsum
        · rw [bind_ok_iff] at hv
          obtain ⟨d, hd, hv⟩ := hv
          unfold decrement at hd
          split_ifs at hd
          cases hd
          unfold Trap.sub at hv
          split_ifs at hv
          exact (Except.ok.inj hv).symm
        · have h0 : sop.sem_op = 0 := by omega
          rw [← Except.ok.inj hv, h0]
          rfl
      rw [values, map_set, modify_eq_set_getElem?]
      rw [values, getElem?_map, hget, hv']
      rfl
    rw [hval]
    rfl

/-- **What a pass of `semop` comes to.** -/
theorem semop_outcome (hs : t.Sized) (id : BitVec 32) (sops : List SemBuf) (proc : SemProcess) :
    let r := semop t id sops proc
    (∃ e, t.enter id sops proc.cred = .error e ∧ r = ⟨t, proc, .error e, .nobody⟩) ∨
    (∃ trap, r.attempt = .trap trap) ∨
    (∃ idx sems, t.enter id sops proc.cred = .ok (idx, sems) ∧ Stuck (values sems) sops ∧
      r.table = t ∧ (r.attempt = .blocked ∨ r.attempt = .error .EAGAIN ∧ r.wake = .nobody)) ∨
    (∃ idx sems sems', t.enter id sops proc.cred = .ok (idx, sems) ∧ ¬Stuck (values sems) sops ∧
      r.table = t.setSems idx sems' ∧ sems'.length = sems.length ∧ r.attempt = .done () ∧
      (Adds sops ∧ r.wake = .everybody ∨
        ¬Adds sops ∧ r.wake = .nobody ∧ values sems' = lowered (values sems) sops)) := by
  intro r
  cases hent : t.enter id sops proc.cred with
  | error e => exact .inl ⟨e, rfl, by simp only [r, semop, hent]⟩
  | ok x =>
    obtain ⟨idx, sems⟩ := x
    right
    have hidx : ∀ sop ∈ sops, sop.sem_num < sems.length := fun sop hsop => by
      obtain ⟨-, hcheck, hsems⟩ := enter_ok hent
      rw [hs idx sems hsems]
      exact checkSops_ok hcheck sop hsop
    rcases canProceed_cases hidx with
      ⟨⟨trap, htrap⟩, -⟩ | ⟨hf, d, sop, rest, hsplit, -, -, hn⟩ | ⟨ht, hall⟩
    · refine .inl ⟨trap, ?_⟩
      simp only [r, semop_enter hent, htrap]
    · have hstuck : Stuck (values sems) sops :=
        ⟨sop, hsplit ▸ mem_append_right _ mem_cons_self, hn⟩
      refine .inr (.inl ⟨idx, sems, rfl, hstuck, ?_⟩)
      simp only [r, semop_enter hent, hf]
      split
      · exact ⟨rfl, .inr ⟨rfl, rfl⟩⟩
      · exact ⟨rfl, .inl rfl⟩
    have hfree : ¬Stuck (values sems) sops := by
      rintro ⟨sop, hsop, hn⟩
      exact hn (hall sop hsop).1
    cases happ : applyOps id sems proc sops with
    | error trap =>
      refine .inl ⟨trap, ?_⟩
      simp only [r, semop_enter hent, ht, happ]
    | ok x =>
      obtain ⟨sems', proc'⟩ := x
      refine .inr (.inr ⟨idx, sems, sems', rfl, hfree, ?_⟩)
      simp only [r, semop_enter hent, ht, happ]
      refine ⟨trivial, applyOps_length happ, trivial, ?_⟩
      by_cases hadd : Adds sops
      · refine .inl ⟨hadd, if_pos ?_⟩
        obtain ⟨sop, hsop, hpos⟩ := hadd
        exact any_eq_true.2 ⟨sop, hsop, decide_eq_true hpos⟩
      refine .inr ⟨hadd, if_neg ?_, ?_⟩
      · intro hany
        obtain ⟨sop, hsop, hpos⟩ := any_eq_true.1 hany
        exact hadd ⟨sop, hsop, of_decide_eq_true hpos⟩
      rw [applyOps, bind_ok_iff] at happ
      obtain ⟨l, hl, hpair⟩ := happ
      cases hpair
      exact applyOps_lowered proc.cred.pid hadd hl

variable {a : Chan → List IpcCall} {W : List IpcCall}

/-- The woken calls on another set. -/
theorem arrays_other {j : Nat} (h : j ≠ idToIndex id) :
    arrays (.semop id sops proc :: W) j = arrays W j :=
  filterMap_cons_none (if_neg h.symm)

theorem arrays_self : arrays (.semop id sops proc :: W) (idToIndex id) =
    sops :: arrays W (idToIndex id) :=
  filterMap_cons_some (if_pos rfl)

/-- The call that made the pass provides for nobody if it has to wait. -/
theorem semSide_stuck (h : SemSide t a (.semop id sops proc :: W)) (hidx : idx.val = idToIndex id)
    (hs : Stuck (t.vals idx) sops) : SemSide t a W where
  sized := h.sized
  free := h.free
  served j id' sops' proc' hk := by
    have hp := h.served j id' sops' proc' hk
    by_cases hj : j.val = idToIndex id
    · obtain rfl : j = idx := Fin.ext (hj.trans hidx.symm)
      rw [hj, arrays_self] at hp
      rw [hj]
      exact hp.of_stuck hs
    · rwa [arrays_other hj] at hp

end Sem

section SemSteps

variable {s : IpcState P} {id : BitVec 32} {sops : List SemBuf} {proc : SemProcess} {W : List IpcCall}

/-- Calls on sets say nothing about queues. -/
theorem msgSide_semop (h : MsgSide s.msgs s.asleep (.semop id sops proc :: W)) :
    MsgSide s.msgs s.asleep W :=
  h.congr (fun _ => ⟨rfl, rfl⟩) fun _ => ⟨rfl, rfl⟩

/-- **A wakeup at a set**: the wait queue of one set after a change of that set. -/
theorem settled_wakeUp {t : SemTable} {w : Wake} {i : Nat} (h : Settled s W) (hsized : t.Sized)
    (hWi : ∀ k ∈ W, k ∉ s.woken → k.chan = .sem i)
    (hmsg : MsgSide s.msgs s.asleep s.woken)
    (ht : ∀ idx : Fin SEMMNI, idx.val ≠ i → t.sem_sets idx = s.sems.sem_sets idx)
    (huse : ∀ idx : Fin SEMMNI, idx.val = i → (t.sem_sets idx).in_use = false →
      (s.sems.sem_sets idx).in_use = false ∨ w = .everybody)
    (hserved : ∀ idx : Fin SEMMNI, idx.val = i → ServedSem (t.vals idx)
      (arrays (s.woken ++ (w.split (s.asleep (.sem i))).1) i) (w.split (s.asleep (.sem i))).2) :
    Settled ({ s with sems := t }.wakeUp (.sem i) w) ({ s with sems := t }.wakeUp (.sem i) w).woken where
  chan := chan_wakeUp (s := { s with sems := t }) h.chan
  sem := by
    have hself : ({ s with sems := t }.wakeUp (.sem i) w).asleep (.sem i) =
        (w.split (s.asleep (.sem i))).2 := update_self _ _ _
    refine h.sem.after hsized ht (i := i) (fun j hj => ?_) (fun j hj x hx => ?_)
      (fun idx hidx hu => ?_) fun idx hidx => ?_
    · exact update_of_ne (fun e => hj (sem.inj e)) _ _
    · obtain ⟨k, hk, hx⟩ := mem_filterMap.1 hx
      by_cases hkw : k ∈ s.woken
      · exact mem_filterMap.2 ⟨k, mem_append_left _ hkw, hx⟩
      have hc := hWi k hk hkw
      have hnil := arrays_eq_nil (l := [k]) (i := j) fun k' hk' => by
        rw [mem_singleton.1 hk', hc]
        exact fun e => hj (sem.inj e).symm
      rw [arrays, filterMap_cons_some hx] at hnil
      cases hnil
    · rw [hidx, hself]
      rcases huse idx hidx hu with hu | rfl
      · have hnil := h.sem.free idx hu
        rw [hidx] at hnil
        rw [hnil]
        cases w <;> rfl
      · rfl
    · have hs := hserved idx hidx
      rw [hidx, hself]
      exact hs
  msg := by
    have hws : ∀ k ∈ (w.split (s.asleep (.sem i))).1, k.chan = .sem i := fun k hk =>
      h.chan _ k (split_mem (.inl hk))
    refine hmsg.congr (fun j => ⟨wakeUp_ne nofun, wakeUp_ne nofun⟩) fun j =>
      ⟨reserved_woken fun k hk => ?_, selectors_woken fun k hk => ?_⟩
    · rw [hws k hk]
      exact nofun
    · rw [hws k hk]
      exact nofun

/-- **A pass of `semop`.** -/
theorem settled_semop (h : Settled s (.semop id sops proc :: s.woken))
    (hh : HeedsSemop s id sops proc) (hstop : (passSemop s id sops proc).stopped = false) :
    Settled (passSemop s id sops proc) (passSemop s id sops proc).woken := by
  have hmsg := msgSide_semop h.msg
  have hwoken : ∀ k ∈ (.semop id sops proc :: s.woken : List IpcCall), k ∉ s.woken →
      k.chan = .sem (idToIndex id) := fun k hk hn => by
    rcases mem_cons.1 hk with rfl | hk
    · rfl
    · exact absurd hk hn
  rcases semop_outcome h.sem.sized id sops proc with
    ⟨e, hent, hr⟩ | ⟨trap, hr⟩ | ⟨idx, sems, hent, hstuck, htable, hr⟩ |
    ⟨idx, sems, sems', hent, hfree, htable, hlen, hdone, hr⟩
  · -- the call ends with an error
    have hpass : passSemop s id sops proc = s.wakeUp (.sem (idToIndex id)) .nobody := by
      rw [passSemop, hr]
    rw [hpass]
    refine settled_wakeUp (t := s.sems) h h.sem.sized hwoken hmsg (fun _ _ => rfl)
      (fun _ _ hu => .inl hu) fun i hi => ?_
    have hserved := hh i hi
    simp only [hent] at hserved
    rw [Wake.split, append_nil, ← hi]
    exact hserved
  · rw [passSemop, hr] at hstop
    exact nomatch hstop
  · obtain ⟨hidx, hu, hvals⟩ := enter_idx hent
    have hsem := semSide_stuck h.sem hidx (hvals ▸ hstuck)
    rcases hr with hr | ⟨hr, hw⟩
    · -- the call goes to sleep
      have hpass : passSemop s id sops proc =
          s.waitOn (.sem (idToIndex id)) (.semop id sops proc) := by
        rw [passSemop, hr]
      rw [hpass]
      have hother : ∀ c, c ≠ .sem (idToIndex id) →
          (s.waitOn (.sem (idToIndex id)) (.semop id sops proc)).asleep c = s.asleep c :=
        fun c hc => waitOn_ne hc
      refine ⟨chan_waitOn h.chan rfl, hsem.after hsem.sized (i := idToIndex id) (fun _ _ => rfl)
        (fun j hj => hother _ fun e => hj (sem.inj e)) (fun _ _ _ hw => hw)
        (fun j hj hfree => ?_) (fun j hj => ?_), hmsg.congr (fun j => ⟨hother _ nofun,
          hother _ nofun⟩) fun _ => ⟨rfl, rfl⟩⟩
      · obtain rfl : j = idx := Fin.ext (hj.trans hidx.symm)
        exact nomatch hu.symm.trans hfree
      obtain rfl : j = idx := Fin.ext (hj.trans hidx.symm)
      rw [hidx, waitOn_self]
      intro id' sops' proc' hk
      rcases mem_append.1 hk with hk | hk
      · have hp := hsem.served j id' sops' proc' (by rwa [hidx])
        rwa [hidx] at hp
      · cases mem_singleton.1 hk
        exact .inl (hvals ▸ hstuck)
    · have hpass : passSemop s id sops proc = s.wakeUp (.sem (idToIndex id)) .nobody := by
        rw [passSemop, hr, hw, htable]
      rw [hpass]
      refine settled_wakeUp (t := s.sems) h h.sem.sized hwoken hmsg (fun _ _ => rfl)
        (fun _ _ hu => .inl hu) fun j hj => ?_
      rw [Wake.split, append_nil, ← hj]
      exact hsem.served j
  · -- the operations are carried out
    obtain ⟨hidx, hu, hvals⟩ := enter_idx hent
    have hsized : (s.sems.setSems idx sems').Sized :=
      h.sem.sized.setSems (hlen.trans (h.sem.sized idx sems (enter_ok hent).2.2))
    have hpass : passSemop s id sops proc = { s with sems := s.sems.setSems idx sems' }.wakeUp
        (.sem (idToIndex id)) (semop s.sems id sops proc).wake := by
      rw [passSemop, hdone, htable]
    have ht : ∀ j : Fin SEMMNI, j.val ≠ idToIndex id →
        (s.sems.setSems idx sems').sem_sets j = s.sems.sem_sets j := fun j hj =>
      setSems_ne fun e => hj (e ▸ hidx)
    rw [hpass]
    refine settled_wakeUp h hsized hwoken hmsg ht (fun j hj hfree => ?_) fun j hj => ?_
    · obtain rfl : j = idx := Fin.ext (hj.trans hidx.symm)
      rw [in_use_setSems] at hfree
      exact .inl hfree
    obtain rfl : j = idx := Fin.ext (hj.trans hidx.symm)
    rcases hr with ⟨-, hw⟩ | ⟨hadd, hw, hlow⟩
    · rw [hw]
      exact fun _ _ _ hk => by cases hk
    have hserved := hh j hidx
    simp only [hent] at hserved
    rw [hw, vals_setSems, hlow, Wake.split, append_nil, ← hvals, ← hidx]
    exact hserved (hvals ▸ hfree) hadd

end SemSteps

section SemOutcomes

variable {t t' : SemTable}

theorem semSetval_outcome (t : SemTable) (id : BitVec 32) (semnum arg : Nat) (proc : Cred) :
    (∃ e, semSetval t id semnum arg proc = (t, .error e)) ∨
    ∃ idx sems, t.lookup id .EINVAL = .ok idx ∧ semnum < (t.sem_sets idx).nsems ∧
      checkAccess (t.sem_sets idx).perm proc .write = true ∧ arg ≤ SEMVMX ∧
      (t.sem_sets idx).sems = some sems ∧
      semSetval t id semnum arg proc =
        (t.setSems idx (sems.modify semnum fun sem => { sem with semval := arg }), .ok .first) := by
  unfold semSetval
  cases hl : t.lookup id .EINVAL with
  | error e => exact .inl ⟨e, rfl⟩
  | ok idx =>
    simp only
    split_ifs with hn hacc harg
    · exact .inl ⟨_, rfl⟩
    · exact .inl ⟨_, rfl⟩
    · exact .inl ⟨_, rfl⟩
    cases hs : (t.sem_sets idx).sems with
    | none => exact .inl ⟨_, rfl⟩
    | some sems =>
      exact .inr ⟨idx, sems, rfl, Nat.lt_of_not_le hn, by simpa using hacc,
        Nat.le_of_not_lt harg, hs, rfl⟩

theorem semRmid_outcome (t : SemTable) (id : BitVec 32) (proc : Cred) :
    (∃ e, semRmid t id proc = (t, .error e)) ∨
    ∃ idx, t.lookup id .EINVAL = .ok idx ∧ semRmid t id proc = (⟨update t.sem_sets idx
      { t.sem_sets idx with in_use := false, sems := none }, t.sem_seq⟩, .ok .everybody) := by
  unfold semRmid
  cases hl : t.lookup id .EINVAL with
  | error e => exact .inl ⟨e, rfl⟩
  | ok idx =>
    simp only
    split_ifs
    · exact .inl ⟨_, rfl⟩
    · exact .inr ⟨idx, rfl, rfl⟩

theorem semget_outcome (t : SemTable) (key : BitVec 32) (nsems : Nat) (flags : BitVec 32)
    (proc : Cred) (alloc : Bool) :
    (semget t key nsems flags proc alloc).1 = t ∨
    ∃ idx set seq, (t.sem_sets idx).in_use = false ∧
      (semget t key nsems flags proc alloc).1 = ⟨update t.sem_sets idx set, seq⟩ := by
  have hcreate : (semCreate t key nsems flags proc alloc).1 = t ∨
      ∃ idx set seq, (t.sem_sets idx).in_use = false ∧
        (semCreate t key nsems flags proc alloc).1 = ⟨update t.sem_sets idx set, seq⟩ := by
    unfold semCreate
    cases hf : t.findFree with
    | none => exact .inl rfl
    | some idx =>
      have hfree : (t.sem_sets idx).in_use = false := by simpa using find?_some hf
      simp only
      split_ifs
      · exact .inr ⟨idx, _, _, hfree, rfl⟩
      · exact .inl rfl
  unfold semget
  split
  · exact .inl rfl
  split
  · simp only
    split_ifs <;> exact .inl rfl
  · split
    · exact .inl rfl
    · exact hcreate

/-- An adjustment changes the slot whose sleepers it wakes, or nothing. -/
theorem undoEntry_outcome {entry : SemUndo} {woken : Option (Fin SEMMNI)}
    (h : undoEntry t entry = .ok (t', woken)) :
    (t' = t ∧ woken = none) ∨ ∃ idx sems, woken = some idx ∧ t' = t.setSems idx sems := by
  unfold undoEntry at h
  split at h
  · cases h
    exact .inl ⟨rfl, rfl⟩
  split at h
  · cases h
    exact .inl ⟨rfl, rfl⟩
  next idx _ =>
    split at h
    · cases h
      exact .inl ⟨rfl, rfl⟩
    split at h
    · cases h
      exact .inl ⟨rfl, rfl⟩
    rw [bind_ok_iff] at h
    obtain ⟨sem, -, h⟩ := h
    rw [bind_ok_iff] at h
    obtain ⟨v, -, h⟩ := h
    cases h
    exact .inr ⟨idx, _, rfl, rfl⟩

/-- Only slots whose sleepers are woken change, and only in their values. -/
theorem applySemUndo_outcome {entries : List SemUndo} {slots : List (Fin SEMMNI)}
    (h : applySemUndo t entries = .ok (t', slots)) (idx : Fin SEMMNI) :
    (t'.sem_sets idx).in_use = (t.sem_sets idx).in_use ∧
      (idx ∉ slots → t'.sem_sets idx = t.sem_sets idx) := by
  induction entries generalizing t slots with
  | nil =>
    cases h
    exact ⟨rfl, fun _ => rfl⟩
  | cons entry entries ih =>
    unfold applySemUndo at h
    rw [bind_ok_iff] at h
    obtain ⟨⟨t₁, woken⟩, h₁, h⟩ := h
    rw [bind_ok_iff] at h
    obtain ⟨⟨t₂, rest⟩, h₂, h⟩ := h
    cases h
    obtain ⟨huse, hsame⟩ := ih h₂
    rcases undoEntry_outcome h₁ with ⟨rfl, rfl⟩ | ⟨j, sems, rfl, rfl⟩
    · exact ⟨huse, hsame⟩
    by_cases hj : idx = j
    · subst hj
      refine ⟨huse.trans in_use_setSems, fun hn => absurd mem_cons_self hn⟩
    · rw [setSems_ne hj] at huse hsame
      exact ⟨huse, fun hn => hsame fun hm => hn (mem_cons_of_mem _ hm)⟩

end SemOutcomes

section SemCommands

variable {s : IpcState P} {id : BitVec 32} {proc : Cred}

/-- **`SETVAL`** wakes the first sleeper. -/
theorem settled_setval (h : Settled s s.woken) {semnum arg : Nat}
    (hh : HeedsSetval s id semnum arg proc) :
    Settled (semCommand s id (semSetval s.sems id semnum arg proc))
      (semCommand s id (semSetval s.sems id semnum arg proc)).woken := by
  rcases semSetval_outcome s.sems id semnum arg proc with
    ⟨e, hr⟩ | ⟨idx, sems, hl, hn, hacc, harg, hsems, hr⟩
  · rw [hr]
    exact h
  obtain ⟨hidx, hu⟩ := lookup_idx hl
  have hlen : (sems.modify semnum fun sem => { sem with semval := arg }).length =
      (s.sems.sem_sets idx).nsems := by
    rw [List.length_modify]
    exact h.sem.sized idx sems hsems
  have hvals : values (sems.modify semnum fun sem => { sem with semval := arg }) =
      (s.sems.vals idx).set semnum arg := by
    have hv : s.sems.vals idx = values sems := by rw [vals, hsems]; rfl
    rw [hv, modify_eq_set_getElem?, getElem?_eq_getElem (by
      rw [h.sem.sized idx sems hsems]
      exact hn)]
    exact map_set
  rw [hr]
  refine settled_wakeUp h (h.sem.sized.setSems hlen) (fun _ hk hn => absurd hk hn) h.msg
    (fun j hj => setSems_ne fun e => hj (e ▸ hidx)) (fun j hj hfree => ?_) fun j hj => ?_
  · obtain rfl : j = idx := Fin.ext (hj.trans hidx.symm)
    rw [in_use_setSems] at hfree
    exact .inl hfree
  · obtain rfl : j = idx := Fin.ext (hj.trans hidx.symm)
    rw [vals_setSems, hvals, ← hidx]
    exact hh j hl hn hacc harg

/-- **`IPC_RMID`** wakes everybody. -/
theorem settled_semRmid (h : Settled s s.woken) :
    Settled (semCommand s id (semRmid s.sems id proc))
      (semCommand s id (semRmid s.sems id proc)).woken := by
  have hsized := h.sem.sized.semRmid id proc
  rcases semRmid_outcome s.sems id proc with ⟨e, hr⟩ | ⟨idx, hl, hr⟩
  · rw [hr]
    exact h
  obtain ⟨hidx, -⟩ := lookup_idx hl
  rw [hr] at hsized ⊢
  refine settled_wakeUp h hsized (fun _ hk hn => absurd hk hn) h.msg (fun j hj => ?_)
    (fun _ _ _ => .inr rfl) fun _ _ _ _ _ hk => nomatch hk
  exact update_of_ne (fun e : j = idx => hj (e ▸ hidx)) _ _

/-- A new set has no sleepers. -/
theorem settled_semget (h : Settled s s.woken) (key : BitVec 32) (nsems : Nat) (flags : BitVec 32)
    (alloc : Bool) :
    Settled { s with sems := (semget s.sems key nsems flags proc alloc).1 } s.woken := by
  refine ⟨h.chan, ?_, h.msg⟩
  have hsized := h.sem.sized.semget key nsems flags proc alloc
  rcases semget_outcome s.sems key nsems flags proc alloc with hr | ⟨idx, set, seq, hfree, hr⟩
  · rw [hr]
    exact h.sem
  rw [hr] at hsized ⊢
  have hnil := h.sem.free idx hfree
  refine h.sem.after hsized (i := idx.val) (fun j hj => ?_) (fun _ _ => rfl) (fun _ _ _ hw => hw)
    (fun j hj _ => ?_) fun j hj => ?_
  · exact update_of_ne (fun e => hj (congrArg Fin.val e)) _ _
  · rw [hj]
    exact hnil
  · rw [hj]
    rw [hnil]
    exact fun _ _ _ hk => nomatch hk

/-- **An exit** wakes everybody in the slots it adjusts. -/
theorem settled_undo (h : Settled s s.woken) {entries : List SemUndo}
    (hstop : (exitUndo s entries).stopped = false) :
    Settled (exitUndo s entries) (exitUndo s entries).woken := by
  unfold exitUndo at hstop ⊢
  cases hu : applySemUndo s.sems entries with
  | error trap =>
    rw [hu] at hstop
    cases hstop
  | ok r =>
    obtain ⟨t, slots⟩ := r
    obtain ⟨h₁, h₂, h₃, h₄, h₅, l, h₆, h₇⟩ := foldl_wakeUp slots { s with sems := t }
    simp only
    generalize slots.foldl (fun s i => s.wakeUp (.sem i.val) .everybody)
      { s with sems := t } = s' at h₁ h₂ h₃ h₄ h₅ h₆ ⊢
    have hl : ∀ k ∈ l, ∃ i, k.chan = .sem i := fun k hk => by
      obtain ⟨i, hi⟩ := h₇ k hk
      exact ⟨i, h.chan _ k hi⟩
    refine ⟨fun c k hk => ?_, ?_, ?_⟩
    · rcases h₃ c with hc | hc
      · exact h.chan c k (hc ▸ hk)
      · rw [hc] at hk
        cases hk
    · rw [h₁, h₆]
      refine ⟨h.sem.sized.applySemUndo hu, fun idx hfree => ?_, fun idx => ?_⟩
      · rcases h₃ (.sem idx) with hc | hc
        · exact hc.trans (h.sem.free idx ((applySemUndo_outcome hu idx).1 ▸ hfree))
        · exact hc
      by_cases hidx : idx ∈ slots
      · rw [h₄ idx hidx]
        exact fun _ _ _ hk => by cases hk
      intro id sops proc hk
      have hset : t.vals idx = s.sems.vals idx := by
        rw [vals, (applySemUndo_outcome hu idx).2 hidx]
        rfl
      rcases h₃ (.sem idx) with hc | hc
      · rw [hc] at hk
        rw [hset]
        refine (h.sem.served idx id sops proc hk).mono fun w hw => ?_
        rw [arrays_append]
        exact mem_append_left _ hw
      · rw [hc] at hk
        cases hk
    · rw [h₂, h₆]
      refine h.msg.congr (fun j => ⟨h₅ _ nofun, h₅ _ nofun⟩) fun j =>
        ⟨reserved_woken fun k hk => ?_, selectors_woken fun k hk => ?_⟩
      · obtain ⟨i, hi⟩ := hl k hk
        rw [hi]
        exact nofun
      · obtain ⟨i, hi⟩ := hl k hk
        rw [hi]
        exact nofun

end SemCommands

/-! ## 4. Queues -/

section Sequence

variable {t t' : MsgTable P} {L : Fin MSGMNI → List P} {Q : Sequences} {idx : Fin MSGMNI}
  {ms : List Message}

theorem walk_eq {l : List P} {a : Option P} {n : Nat} {i : Fin MSGMNI}
    (hp : Forward.Path (t.forward i).next a l none) (hm : l.map t.message = ms.map some)
    (hn : l.length ≤ n) : t.walk n a = ms := by
  induction l generalizing ms a n with
  | nil =>
    obtain rfl := map_eq_nil_iff.1 hm.symm
    cases hp
    cases n <;> rfl
  | cons p l ih =>
    cases ms with
    | nil => cases hm
    | cons m ms =>
      obtain ⟨hhead, hrest⟩ := List.cons.inj hm
      obtain ⟨msg, hmsg, rfl⟩ := lookup_of_message hhead
      obtain ⟨rfl, hp⟩ := hp
      have hnext : (t.forward i).next p = msg.next := by
        simp only [MsgTable.forward, hmsg, bind_some]
      rw [hnext] at hp
      cases n with
      | zero => simp at hn
      | succ n => simp only [MsgTable.walk, hmsg, ih hp hrest (Nat.le_of_succ_le_succ hn)]

/-- **The sequence that the queues read as** is the one found along the links. -/
theorem Reads.sequence (h : Reads t L Q) : t.sequence = Q :=
  funext fun i => walk_eq (h.spells i).path (h.messages i) (h.length_le i)

/-- One queue has a new sequence. -/
theorem reads_update (h : ∃ L, Reads t' L (update Q idx ms)) :
    (∃ L, Reads t' L t'.sequence) ∧ t'.sequence idx = ms ∧
      ∀ j, j ≠ idx → t'.sequence j = Q j := by
  obtain ⟨L, hL⟩ := h
  have hs := hL.sequence
  refine ⟨⟨L, by rwa [hs]⟩, ?_, fun j hj => ?_⟩
  · rw [hs, update_self]
  · rw [hs, update_of_ne hj]

end Sequence

section MsgSteps

variable {s : IpcState P} {id : BitVec 32} {proc : Cred} {W : List IpcCall} {t : MsgTable P}

theorem semSide_snd {m : Message} {msgflg : BitVec 32} {a : Chan → List IpcCall} {q : SemTable}
    (h : SemSide q a (.snd id m msgflg proc :: W)) : SemSide q a W :=
  h.congr (fun _ => rfl) fun _ _ hw => hw

theorem semSide_rcv {args : RcvArgs} {a : Chan → List IpcCall} {q : SemTable}
    (h : SemSide q a (.rcv id args proc :: W)) : SemSide q a W :=
  h.congr (fun _ => rfl) fun _ _ hw => hw

/-- **A wakeup at a queue**, after a change of that queue. -/
theorem settled_msg {idx : Fin MSGMNI} {c : Chan} {w : Wake} {ms : List Message}
    (h : Settled s W) (hsem : SemSide s.sems s.asleep s.woken)
    (hc : c = .send idx.val ∨ c = .recv idx.val)
    (hreads : ∃ L, Reads t L (update s.msgs.sequence idx ms)) (hk : Keeps s.msgs t)
    (hW : ∀ j, j ≠ idx.val → reserved W j = reserved s.woken j ∧
      selectors W j = selectors s.woken j)
    (huse : (s.msgs.queues idx).in_use = true)
    (hsend : ServedSnd (totalSize ms + reserved ({ s with msgs := t }.wakeUp c w).woken idx)
      (s.msgs.queues idx).qbytes_max (({ s with msgs := t }.wakeUp c w).asleep (.send idx)))
    (hrecv : ServedRcv ms (selectors ({ s with msgs := t }.wakeUp c w).woken idx)
      (({ s with msgs := t }.wakeUp c w).asleep (.recv idx))) :
    Settled ({ s with msgs := t }.wakeUp c w) ({ s with msgs := t }.wakeUp c w).woken where
  chan := chan_wakeUp (s := { s with msgs := t }) h.chan
  sem := by
    have hne : ∀ j, (.sem j : Chan) ≠ c := fun j => by rcases hc with rfl | rfl <;> exact nofun
    refine hsem.congr (fun j => wakeUp_ne (hne j)) fun j x hx => ?_
    show x ∈ arrays (s.woken ++ _) j
    rw [arrays_append]
    exact mem_append_left _ hx
  msg := by
    obtain ⟨hr, hself, hother⟩ := reads_update hreads
    have hmsgs : ({ s with msgs := t }.wakeUp c w).msgs = t := rfl
    have hne : ∀ {j}, j ≠ idx.val → (.send j : Chan) ≠ c ∧ (.recv j : Chan) ≠ c := fun {j} hj => by
      rcases hc with rfl | rfl
      · exact ⟨fun e => hj (send.inj e), nofun⟩
      · exact ⟨nofun, fun e => hj (recv.inj e)⟩
    have hws : ∀ k ∈ (w.split (s.asleep c)).1, k.chan = c := fun k hk =>
      h.chan _ k (split_mem (.inl hk))
    refine h.msg.after hr (i := idx.val) (fun j hj => ⟨hother j fun e => hj (e ▸ rfl), hk.in_use j,
      hk.limit j⟩) (fun j hj => ⟨wakeUp_ne (hne hj).1, wakeUp_ne (hne hj).2⟩) (fun j hj => ?_)
      (fun j hj hfree => ?_) (fun j hj => ?_) fun j hj => ?_
    · rw [(hW j hj).1, (hW j hj).2]
      refine ⟨reserved_woken fun k hk => ?_, selectors_woken fun k hk => ?_⟩
      · rw [hws k hk]
        exact (hne hj).1.symm
      · rw [hws k hk]
        exact (hne hj).2.symm
    · obtain rfl : j = idx := Fin.ext hj
      exact nomatch ((hk.in_use j).trans huse).symm.trans hfree
    · obtain rfl : j = idx := Fin.ext hj
      rw [hmsgs, hself, hk.limit j]
      exact hsend
    · obtain rfl : j = idx := Fin.ext hj
      rw [hmsgs, hself]
      exact hrecv

end MsgSteps

section MsgPasses

variable {s : IpcState P} {id : BitVec 32} {proc : Cred} {W : List IpcCall} {t : MsgTable P}
  {m : Message} {msgflg : BitVec 32} {args : RcvArgs}

/-- The counter of a queue is its size, and a slot without a queue has no senders. -/
theorem MsgSide.qbytes {a : Chan → List IpcCall} (h : MsgSide t a W) {idx : Fin MSGMNI}
    {n limit : Nat} (hs : ServedSnd ((t.queues idx).qbytes + n) limit (a (.send idx))) :
    ServedSnd (totalSize (t.sequence idx) + n) limit (a (.send idx)) := by
  cases hu : (t.queues idx).in_use with
  | false =>
    rw [(h.free idx hu).1]
    exact fun _ _ _ _ hk => nomatch hk
  | true =>
    obtain ⟨L, hL⟩ := h.reads
    rwa [← hL.qbytes idx hu]

theorem reserved_self : reserved (.snd id m msgflg proc :: W) (idToIndex id) =
    m.size + reserved W (idToIndex id) := by
  have hk : (IpcCall.snd id m msgflg proc).size? (idToIndex id) = some m.size := if_pos rfl
  rw [reserved, filterMap_cons_some hk, sum_cons]
  rfl

theorem reserved_other {j : Nat} (h : j ≠ idToIndex id) :
    reserved (.snd id m msgflg proc :: W) j = reserved W j := by
  have hk : (IpcCall.snd id m msgflg proc).size? j = none := if_neg h.symm
  rw [reserved, filterMap_cons_none hk]
  rfl

theorem selectors_other {j : Nat} (h : j ≠ idToIndex id) :
    selectors (.rcv id args proc :: W) j = selectors W j :=
  filterMap_cons_none (if_neg h.symm)

theorem selectors_self : selectors (.rcv id args proc :: W) (idToIndex id) =
    args.msgtyp :: selectors W (idToIndex id) :=
  filterMap_cons_some (if_pos rfl)

/-- **A call is over that has changed nothing.** -/
theorem settled_over (h : Settled s W) {i : Nat} (hsem : SemSide s.sems s.asleep s.woken)
    (hW : ∀ j, j ≠ i → reserved W j = reserved s.woken j ∧ selectors W j = selectors s.woken j)
    (hserved : ∀ idx : Fin MSGMNI, idx.val = i →
      ServedSnd (totalSize (s.msgs.sequence idx) + reserved s.woken idx)
        (s.msgs.queues idx).qbytes_max (s.asleep (.send idx)) ∧
      ServedRcv (s.msgs.sequence idx) (selectors s.woken idx) (s.asleep (.recv idx))) :
    Settled s s.woken where
  chan := h.chan
  sem := hsem
  msg := h.msg.after h.msg.reads (fun _ _ => ⟨rfl, rfl, rfl⟩) (fun _ _ => ⟨rfl, rfl⟩)
    (fun j hj => ⟨(hW j hj).1.symm, (hW j hj).2.symm⟩) (fun j _ hu => h.msg.free j hu)
    (fun j hj => (hserved j hj).1) fun j hj => (hserved j hj).2

/-- **A call goes to sleep.** -/
theorem settled_sleep (h : Settled s s.woken) {c : Chan} {k : IpcCall} (hk : k.chan = c)
    {idx : Fin MSGMNI} (hc : c = .send idx.val ∨ c = .recv idx.val)
    (huse : (s.msgs.queues idx).in_use = true)
    (hsend : ∀ id m msgflg proc, k = .snd id m msgflg proc → c = .send idx.val →
      totalSize (s.msgs.sequence idx) + m.size > (s.msgs.queues idx).qbytes_max)
    (hrecv : ∀ id args proc, k = .rcv id args proc → c = .recv idx.val →
      ∀ m ∈ s.msgs.sequence idx, Matches args.msgtyp m = false) :
    Settled (s.waitOn c k) (s.waitOn c k).woken where
  chan := chan_waitOn h.chan hk
  sem := by
    refine h.sem.congr (fun j => waitOn_ne ?_) fun _ _ hw => hw
    rcases hc with rfl | rfl <;> exact nofun
  msg := by
    have hne : ∀ {j}, j ≠ idx.val → (.send j : Chan) ≠ c ∧ (.recv j : Chan) ≠ c := fun {j} hj => by
      rcases hc with rfl | rfl
      · exact ⟨fun e => hj (send.inj e), nofun⟩
      · exact ⟨nofun, fun e => hj (recv.inj e)⟩
    refine h.msg.after h.msg.reads (i := idx.val) (fun _ _ => ⟨rfl, rfl, rfl⟩)
      (fun j hj => ⟨waitOn_ne (hne hj).1, waitOn_ne (hne hj).2⟩) (fun _ _ => ⟨rfl, rfl⟩)
      (fun j hj hfree => ?_) (fun j hj => ?_) fun j hj => ?_
    · obtain rfl : j = idx := Fin.ext hj
      exact nomatch huse.symm.trans hfree
    · obtain rfl : j = idx := Fin.ext hj
      intro id m msgflg proc hm
      by_cases hcs : c = .send j.val
      · subst hcs
        rw [waitOn_self] at hm
        rcases mem_append.1 hm with hm | hm
        · exact h.msg.send j id m msgflg proc hm
        · have hs := hsend id m msgflg proc (mem_singleton.1 hm).symm rfl
          show (s.msgs.queues j).qbytes_max < totalSize (s.msgs.sequence j) + reserved s.woken j + m.size
          omega
      · rw [waitOn_ne (Ne.symm hcs)] at hm
        exact h.msg.send j id m msgflg proc hm
    · obtain rfl : j = idx := Fin.ext hj
      intro id args proc hm o ho x hx
      by_cases hcs : c = .recv j.val
      · subst hcs
        rw [waitOn_self] at hm
        rcases mem_append.1 hm with hm | hm
        · exact h.msg.recv j id args proc hm o ho x hx
        · have hsub := leftover_sublist (nil_sublist o) (List.Sublist.refl (s.msgs.sequence j))
          exact hrecv id args proc (mem_singleton.1 hm).symm rfl x (hsub.subset hx)
      · rw [waitOn_ne (Ne.symm hcs)] at hm
        exact h.msg.recv j id args proc hm o ho x hx

end MsgPasses

section MsgCalls

variable {s : IpcState P} {id : BitVec 32} {proc : Cred} {m : Message} {msgflg : BitVec 32}
  {args : RcvArgs} {debug : Bool} {alloc : Option P}

/-- A sender gives up: nothing has changed, or the kernel stops. -/
theorem passSnd_giveUp {n : Nat} {e : IpcError}
    (hr : sndAttempt debug s.msgs id m msgflg proc alloc = ⟨s.msgs, giveUp debug n e, .nobody⟩)
    (hstop : (passSnd debug s id m msgflg proc alloc).stopped = false) :
    passSnd debug s id m msgflg proc alloc = s := by
  unfold passSnd giveUp at *
  rw [hr] at hstop ⊢
  by_cases hd : debug = true ∧ 0 < n
  · simp only [if_pos hd] at hstop
    cases hstop
  · simp only [if_neg hd]
    exact wakeUp_nobody s _

/-- **A pass of a sender.** -/
theorem settled_snd (h : Settled s (.snd id m msgflg proc :: s.woken))
    (hh : HeedsSnd s id m proc alloc)
    (hstop : (passSnd debug s id m msgflg proc alloc).stopped = false) :
    Settled (passSnd debug s id m msgflg proc alloc)
      (passSnd debug s id m msgflg proc alloc).woken := by
  have hsem := semSide_snd h.sem
  have hW : ∀ j, j ≠ idToIndex id →
      reserved (.snd id m msgflg proc :: s.woken) j = reserved s.woken j ∧
        selectors (.snd id m msgflg proc :: s.woken) j = selectors s.woken j := fun j hj =>
    ⟨reserved_other hj, rfl⟩
  -- a sender that does not go in leaves its bytes to the others
  have hover : (∀ idx, ¬GoesIn s id m proc alloc idx) → Settled s s.woken := fun hn =>
    settled_over h hsem hW fun idx hidx => ⟨h.msg.qbytes ((hh idx hidx).2 (hn idx)), h.msg.recv idx⟩
  cases he : s.msgs.enter id proc .write with
  | error e =>
    have hr : sndAttempt debug s.msgs id m msgflg proc alloc =
        ⟨s.msgs, giveUp debug m.size e, .nobody⟩ := by rw [sndAttempt, he]
    have hn : ∀ idx, ¬GoesIn s id m proc alloc idx := fun idx hg => by
      cases he.symm.trans hg.1
    rw [passSnd_giveUp hr hstop]
    exact hover hn
  | ok idx =>
    obtain ⟨huse, hidx⟩ := enter_slot he
    obtain ⟨L, hL⟩ := h.msg.reads
    obtain ⟨L', hreads, hkeeps, hattempt, hwake⟩ := sndAttempt_reads debug hL he m msgflg alloc
    have hbytes := hL.qbytes idx huse
    by_cases hfull : totalSize (s.msgs.sequence idx) + m.size > (s.msgs.queues idx).qbytes_max
    · have hn : ∀ j, ¬GoesIn s id m proc alloc j := fun j hg => by
        obtain rfl : idx = j := Except.ok.inj (he.symm.trans hg.1)
        exact absurd hg.2.1 (by omega)
      have hsettled := hover hn
      by_cases hnow : msgflg &&& MSG_NOWAIT ≠ 0
      · have hr : sndAttempt debug s.msgs id m msgflg proc alloc =
            ⟨s.msgs, giveUp debug m.size .EAGAIN, .nobody⟩ := by
          rw [sndAttempt, he]
          simp only [if_pos (hbytes ▸ hfull), if_pos hnow]
        rw [passSnd_giveUp hr hstop]
        exact hsettled
      have hr : sndAttempt debug s.msgs id m msgflg proc alloc =
          ⟨s.msgs, .blocked, .nobody⟩ := by
        rw [sndAttempt, he]
        simp only [if_pos (hbytes ▸ hfull), if_neg hnow]
      have hpass : passSnd debug s id m msgflg proc alloc =
          s.waitOn (.send idx.val) (.snd id m msgflg proc) := by
        rw [passSnd, hr, hidx]
      rw [hpass]
      refine settled_sleep hsettled (congrArg send hidx.symm) (.inl rfl) huse
        (fun id' m' msgflg' proc' hk _ => ?_) fun _ _ _ hk => by cases hk
      cases hk
      exact hfull
    cases hc : s.msgs.create alloc with
    | none =>
      have hn : ∀ j, ¬GoesIn s id m proc alloc j := fun j hg => by
        have hsome := hg.2.2
        rw [hc] at hsome
        cases hsome
      have hr : sndAttempt debug s.msgs id m msgflg proc alloc =
          ⟨s.msgs, giveUp debug m.size .ENOMEM, .nobody⟩ := by
        rw [sndAttempt, he]
        simp only [hc, if_neg (hbytes ▸ hfull)]
      rw [passSnd_giveUp hr hstop]
      exact hover hn
    | some p =>
      -- the message is appended
      have hspec : specSnd (s.msgs.queues idx).qbytes_max msgflg (s.msgs.create alloc).isSome m
          (s.msgs.sequence idx) = (.done (), s.msgs.sequence idx ++ [m]) := by
        rw [specSnd, if_neg hfull, hc]
        rfl
      rw [hspec] at hreads hattempt
      have hgoes : GoesIn s id m proc alloc idx := by
        refine ⟨he, ?_, by rw [hc]; rfl⟩
        omega
      have hpass : passSnd debug s id m msgflg proc alloc =
          { s with msgs := (sndAttempt debug s.msgs id m msgflg proc alloc).table }.wakeUp
            (.recv idx.val) .first := by
        rw [passSnd, hwake, hattempt, hidx]
        rfl
      rw [hpass]
      refine settled_msg h hsem (.inr rfl) ⟨L', hreads⟩ hkeeps (fun j hj => hW j (hidx ▸ hj))
        huse ?_ ?_
      · have hsend := h.msg.send idx
        rw [hidx, reserved_self, ← hidx] at hsend
        have hws : reserved (s.woken ++ (s.asleep (.recv idx)).take 1) idx =
            reserved s.woken idx := reserved_woken fun k hk => by
          rw [h.chan _ k (mem_of_mem_take hk)]
          intro e
          cases e
        have hne : (.send idx.val : Chan) ≠ .recv idx.val := by simp
        intro id' m' msgflg' proc' hk
        have hlt := hsend id' m' msgflg' proc' hk
        have hone : totalSize [m] = m.size := by simp [totalSize]
        show _ < totalSize (s.msgs.sequence idx ++ [m]) +
          reserved (s.woken ++ (s.asleep (.recv idx)).take 1) idx + m'.size
        rw [hws, totalSize_append]
        omega
      · rw [wakeUp_self]
        exact (hh idx hidx).1 hgoes

/-- **A pass of a receiver.** -/
theorem settled_rcv (h : Settled s (.rcv id args proc :: s.woken)) (hh : HeedsRcv s id args proc)
    (hstop : (passRcv s id args proc).stopped = false) :
    Settled (passRcv s id args proc) (passRcv s id args proc).woken := by
  have hsem := semSide_rcv h.sem
  have hW : ∀ j, j ≠ idToIndex id →
      reserved (.rcv id args proc :: s.woken) j = reserved s.woken j ∧
        selectors (.rcv id args proc :: s.woken) j = selectors s.woken j := fun j hj =>
    ⟨rfl, selectors_other hj⟩
  cases he : s.msgs.enter id proc .read with
  | error e =>
    have hr : msgrcv s.msgs id args proc = ⟨s.msgs, .error e, .nobody⟩ := by rw [msgrcv, he]
    have hpass : passRcv s id args proc = s := by
      rw [passRcv, hr]
      exact wakeUp_nobody s _
    rw [hpass]
    refine settled_over h hsem hW fun idx hidx => ⟨h.msg.send idx, ?_⟩
    have hserved := hh idx hidx
    simp only [he] at hserved
    exact hserved
  | ok idx =>
    obtain ⟨huse, hidx⟩ := enter_slot he
    obtain ⟨L, hL⟩ := h.msg.reads
    obtain ⟨L', hreads, hkeeps, hattempt, hwake⟩ := msgrcv_reads hL he args
    have hheeds := hh idx hidx
    simp only [he] at hheeds
    have hrecv := h.msg.recv idx
    rw [hidx, selectors_self, ← hidx] at hrecv
    by_cases hmin : args.msgtyp = BitVec.intMin 64 ∧ s.msgs.sequence idx ≠ []
    · have hlist : (listRcv args (s.msgs.sequence idx)).1 = .trap .integerOverflow := by
        rw [listRcv, if_pos hmin]
      have hpass : passRcv s id args proc = s.stop := by
        unfold passRcv
        simp only [hattempt, hlist]
      rw [hpass] at hstop
      cases hstop
    cases hf : (s.msgs.sequence idx).find? (Matches args.msgtyp) with
    | none =>
      have hlist : listRcv args (s.msgs.sequence idx) =
          (if args.msgflg &&& MSG_NOWAIT ≠ 0 then .error .ENOMSG else .blocked,
            s.msgs.sequence idx) := by
        rw [listRcv, if_neg hmin, hf]
      have herase : (s.msgs.sequence idx).eraseP (Matches args.msgtyp) = s.msgs.sequence idx :=
        eraseP_of_forall_not (find?_eq_none.1 hf)
      -- the other woken receivers find what they would have found after this one
      have hrest : ServedRcv (s.msgs.sequence idx) (selectors s.woken idx)
          (s.asleep (.recv idx)) := fun id' args' proc' hk o ho x hx => by
        refine hrecv id' args' proc' hk (args.msgtyp :: o) (ho.cons _) x ?_
        show x ∈ leftover ((s.msgs.sequence idx).eraseP (Matches args.msgtyp)) o
        rwa [herase]
      have hsettled : Settled s s.woken := settled_over h hsem hW fun j hj => by
        obtain rfl : j = idx := Fin.ext (hj.trans hidx.symm)
        exact ⟨h.msg.send j, hrest⟩
      rw [hlist] at hattempt hreads
      by_cases hnow : args.msgflg &&& MSG_NOWAIT ≠ 0
      · rw [if_pos hnow] at hattempt
        have hpass : passRcv s id args proc = { s with msgs := (msgrcv s.msgs id args proc).table
            }.wakeUp (.send idx.val) .nobody := by
          unfold passRcv
          simp only [hwake, hattempt, hidx]
          rfl
        rw [hpass]
        exact settled_msg hsettled hsem (.inl rfl) ⟨L', hreads⟩ hkeeps (fun _ _ => ⟨rfl, rfl⟩) huse
          (by rw [wakeUp_nobody]; exact h.msg.send idx) (by rw [wakeUp_nobody]; exact hrest)
      rw [if_neg hnow] at hattempt
      have hpass : passRcv s id args proc = s.waitOn (.recv idx.val) (.rcv id args proc) := by
        unfold passRcv
        simp only [hattempt, hidx]
      rw [hpass]
      refine settled_sleep hsettled (congrArg recv hidx.symm) (.inr rfl) huse
        (fun _ _ _ _ hk => by cases hk) fun id' args' proc' hk _ x hx => ?_
      cases hk
      simpa using find?_eq_none.1 hf x hx
    | some m =>
      have hne : args.msgtyp ≠ BitVec.intMin 64 := fun e => hmin ⟨e, fun hnil => by
        rw [hnil] at hf
        cases hf⟩
      obtain ⟨hfail, hdone⟩ := hheeds hne m hf
      cases hrefuse : refusal args m.size with
      | some e =>
        have hlist : listRcv args (s.msgs.sequence idx) =
            (.error e, m :: (s.msgs.sequence idx).eraseP (Matches args.msgtyp)) := by
          rw [listRcv, if_neg hmin, hf]
          simp only [hrefuse]
        rw [hlist] at hattempt hreads
        have hpass : passRcv s id args proc =
            { s with msgs := (msgrcv s.msgs id args proc).table }.wakeUp (.send idx.val) .nobody := by
          unfold passRcv
          simp only [hwake, hattempt, hidx]
          rfl
        rw [hpass]
        refine settled_msg h hsem (.inl rfl) ⟨L', hreads⟩ hkeeps (fun j hj => hW j (hidx ▸ hj))
          huse ?_ ?_
        · -- the messages are the same, in another order
          have hsize : totalSize (m :: (s.msgs.sequence idx).eraseP (Matches args.msgtyp)) =
              totalSize (s.msgs.sequence idx) := by
            rw [(eraseP_counts hf).2, totalSize, map_cons, sum_cons, Nat.add_comm]
            rfl
          rw [wakeUp_nobody]
          rw [hsize]
          exact h.msg.send idx
        · rw [wakeUp_nobody]
          exact hfail (by rw [hrefuse]; rfl)
      | none =>
        have hlist : listRcv args (s.msgs.sequence idx) =
            (.done ⟨m.mtype, m.data.take args.msgsz⟩,
              (s.msgs.sequence idx).eraseP (Matches args.msgtyp)) := by
          rw [listRcv, if_neg hmin, hf]
          simp only [hrefuse]
        rw [hlist] at hattempt hreads
        have hpass : passRcv s id args proc =
            { s with msgs := (msgrcv s.msgs id args proc).table }.wakeUp (.send idx.val) .first := by
          unfold passRcv
          simp only [hwake, hattempt, hidx]
          rfl
        rw [hpass]
        refine settled_msg h hsem (.inl rfl) ⟨L', hreads⟩ hkeeps (fun j hj => hW j (hidx ▸ hj))
          huse ?_ ?_
        · rw [wakeUp_self]
          have hbytes := hL.qbytes idx huse
          have hsize := (eraseP_counts hf).2
          have hserved := hdone hrefuse
          rw [hbytes, hsize, Nat.add_sub_cancel] at hserved
          exact hserved
        have hne' : (.recv idx.val : Chan) ≠ .send idx.val := by simp
        have hws : selectors (s.woken ++ (s.asleep (.send idx)).take 1) idx =
            selectors s.woken idx := selectors_woken fun k hk => by
          rw [h.chan _ k (mem_of_mem_take hk)]
          intro e
          cases e
        intro id' args' proc' hk o ho x hx
        have ho' : o.Perm (selectors s.woken idx) := by
          rw [← hws]
          exact ho
        exact hrecv id' args' proc' hk (args.msgtyp :: o) (ho'.cons _) x hx

end MsgCalls

section MsgCommands

variable {s : IpcState P} {id : BitVec 32} {proc : Cred}

/-- **A removed queue** wakes everybody at both ends. -/
theorem settled_msgRmid (h : Settled s s.woken) :
    Settled (removeQueue s id proc) (removeQueue s id proc).woken := by
  cases ho : s.msgs.owned id proc with
  | error e =>
    have hr : msgRmid s.msgs id proc = ⟨s.msgs, .error e, .nobody⟩ := by rw [msgRmid, ho]
    have hpass : removeQueue s id proc = s := by
      rw [removeQueue, hr]
      rw [wakeUp_nobody, wakeUp_nobody]
    rwa [hpass]
  | ok idx =>
    obtain ⟨huse, hidx⟩ := owned_slot ho
    obtain ⟨L, hL⟩ := h.msg.reads
    obtain ⟨L', hreads, hdone, hwake, hother⟩ := msgRmid_reads hL ho
    let t := (msgRmid s.msgs id proc).table
    let s₁ := { s with msgs := t }.wakeUp (.send idx.val) .everybody
    have hpass : removeQueue s id proc = s₁.wakeUp (.recv idx.val) .everybody := by
      unfold removeQueue
      simp only [hdone, hwake, ← hidx]
      rfl
    obtain ⟨hr, hself, hseq⟩ := reads_update ⟨L', hreads⟩
    have hsend : ∀ j, j ≠ idx.val → (s₁.wakeUp (.recv idx.val) .everybody).asleep (.send j) =
        s.asleep (.send j) := fun j hj => by
      have hne : (.send j : Chan) ≠ .recv idx.val := by simp
      exact (wakeUp_ne hne).trans (wakeUp_ne fun e => hj (send.inj e))
    have hsend₀ : (s₁.wakeUp (.recv idx.val) .everybody).asleep (.send idx.val) = [] := by
      have hne : (.send idx.val : Chan) ≠ .recv idx.val := by simp
      exact (wakeUp_ne hne).trans wakeUp_self
    have hrecv : ∀ j, j ≠ idx.val → (s₁.wakeUp (.recv idx.val) .everybody).asleep (.recv j) =
        s.asleep (.recv j) := fun j hj =>
      (wakeUp_ne fun e => hj (recv.inj e)).trans (wakeUp_ne (by simp))
    have hrecv₀ : (s₁.wakeUp (.recv idx.val) .everybody).asleep (.recv idx.val) = [] := wakeUp_self
    have hws : ∀ k ∈ s.asleep (.send idx.val) ++ s₁.asleep (.recv idx.val),
        k.chan = .send idx.val ∨ k.chan = .recv idx.val := fun k hk => by
      rcases mem_append.1 hk with hk | hk
      · exact .inl (h.chan _ k hk)
      · have hne : (.recv idx.val : Chan) ≠ .send idx.val := by simp
        rw [wakeUp_ne hne] at hk
        exact .inr (h.chan _ k hk)
    have hwoken : (s₁.wakeUp (.recv idx.val) .everybody).woken =
        s.woken ++ (s.asleep (.send idx.val) ++ s₁.asleep (.recv idx.val)) :=
      append_assoc _ _ _
    rw [hpass]
    refine ⟨chan_wakeUp (chan_wakeUp (s := { s with msgs := t }) h.chan), ?_, ?_⟩
    · have hs : ∀ j, (s₁.wakeUp (.recv idx.val) .everybody).asleep (.sem j) =
          s.asleep (.sem j) := fun j => by
        have hne : (.sem j : Chan) ≠ .recv idx.val := by simp
        have hne' : (.sem j : Chan) ≠ .send idx.val := by simp
        exact (wakeUp_ne hne).trans (wakeUp_ne hne')
      refine h.sem.congr hs fun j w hw => ?_
      rw [hwoken, arrays_append]
      exact mem_append_left _ hw
    refine h.msg.after hr (i := idx.val) (fun j hj => ?_) (fun j hj => ⟨hsend j hj, hrecv j hj⟩)
      (fun j hj => ?_) (fun j hj _ => ?_) (fun j hj => ?_) fun j hj => ?_
    · have hj' : j ≠ idx := fun e => hj (e ▸ rfl)
      have hq : t.queues j = s.msgs.queues j := hother j hj'
      refine ⟨hseq j hj', ?_, ?_⟩
      · exact congrArg MsgQueue.in_use hq
      · exact congrArg MsgQueue.qbytes_max hq
    · rw [hwoken]
      refine ⟨reserved_woken fun k hk e => ?_, selectors_woken fun k hk e => ?_⟩
      · rcases hws k hk with h' | h'
        · exact hj (send.inj (e.symm.trans h'))
        · cases e.symm.trans h'
      · rcases hws k hk with h' | h'
        · cases e.symm.trans h'
        · exact hj (recv.inj (e.symm.trans h'))
    · rw [hj]
      exact ⟨hsend₀, hrecv₀⟩
    · rw [hj, hsend₀]
      exact fun _ _ _ _ hk => by cases hk
    · rw [hj, hrecv₀]
      exact fun _ _ _ hk => by cases hk

/-- **A new limit.** -/
theorem settled_msgSet (h : Settled s s.woken) {buf : Option MsgSetBuf} (hh : HeedsSet s id buf proc) :
    Settled { s with msgs := (msgSet s.msgs id buf proc).table } s.woken := by
  unfold msgSet
  cases ho : s.msgs.owned id proc with
  | error e => exact h
  | ok idx =>
    cases buf with
    | none => exact h
    | some ds =>
      simp only
      obtain ⟨L, hL⟩ := h.msg.reads
      let q : MsgQueue P := { s.msgs.queues idx with
        perm := { (s.msgs.queues idx).perm with
          uid := ds.uid, gid := ds.gid, mode := ds.mode &&& 0o777#16 }
        qbytes_max := ds.qbytes }
      have hreads : Reads (s.msgs.setQueue idx q) L s.msgs.sequence :=
        hL.setQueue rfl rfl rfl rfl rfl
      have hseq := hreads.sequence
      have hself : (s.msgs.setQueue idx q).queues idx = q := MsgTable.setQueue_self _ _ _
      refine ⟨h.chan, h.sem, h.msg.after (i := idx.val) ⟨L, by rwa [hseq]⟩ (fun j hj => ?_)
        (fun _ _ => ⟨rfl, rfl⟩) (fun _ _ => ⟨rfl, rfl⟩) (fun j hj hfree => ?_) (fun j hj => ?_)
        fun j hj => ?_⟩
      · have hq := MsgTable.setQueue_ne s.msgs (fun e => hj (e ▸ rfl) : j ≠ idx) q
        exact ⟨congrFun hseq j, congrArg MsgQueue.in_use hq, congrArg MsgQueue.qbytes_max hq⟩
      · obtain rfl : j = idx := Fin.ext hj
        exact h.msg.free j ((congrArg MsgQueue.in_use hself).symm.trans hfree)
      · obtain rfl : j = idx := Fin.ext hj
        have hserved := h.msg.qbytes (hh j ds ho rfl)
        show ServedSnd (totalSize ((s.msgs.setQueue j q).sequence j) + _)
          ((s.msgs.setQueue j q).queues j).qbytes_max _
        rw [hseq, hself]
        exact hserved
      · obtain rfl : j = idx := Fin.ext hj
        rw [hseq]
        exact h.msg.recv j

/-- A new queue has no sleepers. -/
theorem settled_msgget (h : Settled s s.woken) (key flags : BitVec 32) :
    Settled { s with msgs := (msgget s.msgs key flags proc).1 } s.woken := by
  obtain ⟨L, hL⟩ := h.msg.reads
  obtain ⟨L', hreads⟩ := msgget_reads hL key flags proc
  have hseq := hreads.sequence
  refine ⟨h.chan, h.sem, ?_⟩
  rcases msgget_outcome s.msgs key flags proc with hr | ⟨idx, hfree, hother⟩
  · rw [hr]
    exact h.msg
  obtain ⟨hsend, hrecv⟩ := h.msg.free idx hfree
  refine h.msg.after (i := idx.val) ⟨L', by rwa [hseq]⟩ (fun j hj => ?_) (fun _ _ => ⟨rfl, rfl⟩)
    (fun _ _ => ⟨rfl, rfl⟩) (fun j hj _ => ?_) (fun j hj => ?_) fun j hj => ?_
  · have hq := hother j fun e => hj (e ▸ rfl)
    exact ⟨congrFun hseq j, congrArg MsgQueue.in_use hq, congrArg MsgQueue.qbytes_max hq⟩
  · rw [hj]
    exact ⟨hsend, hrecv⟩
  · rw [hj]
    rw [hsend]
    exact fun _ _ _ _ hk => nomatch hk
  · rw [hj]
    rw [hrecv]
    exact fun _ _ _ hk => nomatch hk

end MsgCommands

/-! ## 5. Runs -/

section Runs

variable {s : IpcState P} {W W' : List IpcCall} {debug : Bool} {op : IpcStep P}

/-- **More woken calls** do no harm. -/
theorem Settled.more (h : Settled s W) (ha : ∀ j, ∀ w ∈ arrays W j, w ∈ arrays W' j)
    (hr : ∀ j, reserved W j ≤ reserved W' j) (hs : ∀ j, (selectors W j).Subperm (selectors W' j)) :
    Settled s W' where
  chan := h.chan
  sem := h.sem.congr (fun _ => rfl) ha
  msg :=
    { reads := h.msg.reads
      free := h.msg.free
      send := fun idx id m msgflg proc hk => by
        have hlt := h.msg.send idx id m msgflg proc hk
        have hle := hr idx
        omega
      recv := fun idx => (h.msg.recv idx).mono (List.Sublist.refl _) (hs idx) fun _ hk => hk }

/-- A first pass is a further pass of a call that has just been woken. -/
theorem Settled.cons (h : Settled s W) (k : IpcCall) : Settled s (k :: W) := by
  have hsub : W.Sublist (k :: W) := sublist_cons_self k W
  refine h.more (fun j w hw => (hsub.filterMap _).subset hw) (fun j => ?_) fun j =>
    (hsub.filterMap _).subperm
  unfold reserved
  cases hk : k.size? j with
  | none => rw [filterMap_cons_none hk]
  | some n =>
    rw [filterMap_cons_some hk, sum_cons]
    exact Nat.le_add_left _ _

/-- The order of the woken calls plays no part. -/
theorem Settled.perm (h : Settled s W) (hp : W.Perm W') : Settled s W' :=
  h.more (fun _ _ hw => (hp.filterMap _).subset hw) (fun _ => (hp.filterMap _).sum_nat.le)
    fun _ => (hp.filterMap _).subperm

/-- The call at `n` makes its pass. -/
theorem Settled.resume (h : Settled s s.woken) {n : Nat} {k : IpcCall} (hk : s.woken[n]? = some k) :
    Settled (s.resume n) (k :: (s.resume n).woken) := by
  obtain ⟨hn, rfl⟩ := List.getElem?_eq_some_iff.1 hk
  have hp := h.perm (getElem_cons_eraseIdx_perm hn).symm
  exact ⟨hp.chan, hp.sem, hp.msg⟩

/-- **One step.** -/
theorem settled_step (h : Settled s s.woken) (hrun : s.stopped = false) (hh : Heeds s op)
    (hstop : (ipcStep debug s op).stopped = false) :
    Settled (ipcStep debug s op) (ipcStep debug s op).woken := by
  unfold ipcStep at hstop ⊢
  have hif : ¬s.stopped = true := by simp [hrun]
  rw [if_neg hif] at hstop ⊢
  cases op with
  | semget key nsems flags proc alloc => exact settled_semget h key nsems flags alloc
  | semop id sops proc => exact settled_semop (h.cons _) hh hstop
  | semSetval id semnum arg proc => exact settled_setval h hh
  | semRmid id proc => exact settled_semRmid h
  | semUndo entries => exact settled_undo h hstop
  | msgget key flags proc => exact settled_msgget h key flags
  | snd id m msgflg proc alloc => exact settled_snd (h.cons _) hh hstop
  | rcv id args proc => exact settled_rcv (h.cons _) hh hstop
  | msgSet id buf proc => exact settled_msgSet h hh
  | msgRmid id proc => exact settled_msgRmid h
  | again n alloc header bytes =>
    simp only [passAgain, Heeds] at hstop hh ⊢
    cases hk : s.woken[n]? with
    | none => exact h
    | some k =>
      rw [hk] at hstop hh
      have hset := h.resume hk
      cases k with
      | semop id sops proc => exact settled_semop hset hh hstop
      | snd id m msgflg proc => exact settled_snd hset hh hstop
      | rcv id args proc =>
        -- what the memory of the receiver answers does not change its selector
        refine settled_rcv (hset.more (fun _ _ hw => hw) (fun _ => Nat.le_refl _) fun j => ?_)
          hh hstop
        exact List.Subperm.refl _

/-- Where all calls are asleep or over, nobody sleeps who could go on. -/
theorem Settled.noneLost (h : Settled s []) : NoneLost s where
  sem i id sops proc hk hdone := by
    have hi : idToIndex id = i := sem.inj (h.chan _ _ hk)
    rcases semop_outcome h.sem.sized id sops proc with
      ⟨e, -, hr⟩ | ⟨trap, hr⟩ | ⟨idx, sems, -, -, -, hr⟩ | ⟨idx, sems, -, hent, hfree, -⟩
    · rw [hr] at hdone
      cases hdone
    · rw [hr] at hdone
      cases hdone
    · rcases hr with hr | ⟨hr, -⟩
      · rw [hr] at hdone
        cases hdone
      · rw [hr] at hdone
        cases hdone
    · obtain ⟨hidx, -, hvals⟩ := enter_idx hent
      rw [← hi, ← hidx] at hk
      rcases h.sem.served idx id sops proc hk with hs | ⟨w, hw, -⟩
      · exact hfree (hvals ▸ hs)
      · cases hw
  send idx id m msgflg proc hk := by
    have hlt := h.msg.send idx id m msgflg proc hk
    cases hu : (s.msgs.queues idx).in_use with
    | false =>
      rw [(h.msg.free idx hu).1] at hk
      cases hk
    | true =>
      obtain ⟨L, hL⟩ := h.msg.reads
      rw [hL.qbytes idx hu]
      exact hlt
  recv idx id args proc hk m hm := h.msg.recv idx id args proc hk [] (List.Perm.refl _) m hm

theorem settled_start : Settled ({} : IpcState P) [] := by
  have hseq := (reads_empty (P := P)).sequence
  refine ⟨fun _ _ hk => (nomatch hk), ⟨fun _ _ hs => (nomatch hs), fun _ _ => rfl,
    fun _ _ _ _ hk => nomatch hk⟩, ⟨⟨fun _ => [], ?_⟩, fun _ _ => ⟨rfl, rfl⟩,
    fun _ _ _ _ _ hk => (nomatch hk), fun _ _ _ _ hk => nomatch hk⟩⟩
  exact reads_empty

end Runs

/-! ## 6. A receiver that waits, and one that waits for zero -/

/-- A receiver waits at an empty queue. -/
def oneReceiver : List (IpcStep Nat) :=
  [.msgget IPC_PRIVATE 0o600#32 root, .rcv 1 ⟨8, 0, 0, true, true⟩ root]

/-- Waits for zero. -/
def waitForZero : SemBuf := ⟨0, 0, 0, by decide, by decide⟩

/-- A set with the value 1; one call waits for zero, then another takes the 1. -/
def forgotten : List (IpcStep Nat) :=
  [.semget IPC_PRIVATE 1 IPC_CREAT root true, .semSetval 1 0 1 root,
    .semop 1 [waitForZero] ⟨root, []⟩, .semop 1 [take] ⟨root, []⟩]

end Zigk.Ipc
