/-
  Subject:   WHO HOLDS A FILE LOCK, AND WHAT THE LOCK TABLE KNOWS OF IT.

  * `Exclusive` -- beside an exclusive holder no process holds a lock on the file; `KeepsOthers` --
    what a process without a lock gives up is not the lock of another;
  * **`flockExclusion`** -- in a run of such steps both hold; `flockExclusion_refuted` -- an upgrade
    beside a second holder, and an unlock by a stranger.
-/
import Zigk.Fs.Flock

namespace Zigk.Flock

open Function List Option Flocks

variable {T : Type} [DecidableEq T] (pid : T → Pid)

/-! ## 1. The property -/

def Flocks.Exclusive (w : Flocks T) : Prop :=
  ∀ k p, w.held k p = some .exclusive → ∀ q ≠ p, w.held k q = none

/-- A thread that unlocks or closes, and the file. -/
def Flocks.givesUp (w : Flocks T) : Event T → Option (T × FileKey)
  | .close t d => w.fds[d]?.map fun fd => (t, fd.file_identifier)
  | .run t =>
    match w.calls t with
    | some (.releasing k) | some (.closing k) => some (t, k)
    | _ => none
  | _ => none

/-- A process without a lock on the file leaves the entries of all locks alone. -/
def KeepsOthers (w : Flocks T) (e : Event T) : Prop :=
  ∀ t k, w.givesUp e = some (t, k) → w.held k (pid t) = none →
    ∀ k' q, w.held k' q ≠ none → (flockStep pid w e).mgr.lockOf k' = w.mgr.lockOf k'

/-- **A step by which the table follows the holders.** The owner takes an exclusive lock as the only
    holder, and another process joins the holders once; whoever unlocks, or closes a descriptor for
    good, is a holder, and the owner the only one; a holder closes its last descriptor of the file
    as the last reference, and its other ones not. -/
def Orderly (w : Flocks T) : Event T → Prop
  | .run t =>
    match w.calls t with
    | some (.acquiring k ty _) => ∀ l ∈ w.mgr.lockOf k,
        if l.owner_pid = pid t then ty = .exclusive → l.refcount = 1
        else l.lock_type = .shared → ty = .shared → w.held k (pid t) = none
    | some (.releasing k) => ∀ l ∈ w.mgr.lockOf k,
        w.held k (pid t) ≠ none ∧ (l.owner_pid = pid t → l.refcount = 1)
    | some (.closing k) => ∀ l ∈ w.mgr.lockOf k,
        w.held k (pid t) ≠ none ∧ (l.owner_pid = pid t → l.refcount = 1) ∧
          ¬ w.hasDescriptor k (pid t)
    | none => True
  | .close t d => ∀ fd ∈ w.fds[d]?, fd.refs.erase (pid t) ≠ [] →
      ¬ (w.dropRef d fd (pid t)).hasDescriptor fd.file_identifier (pid t) →
        w.held fd.file_identifier (pid t) = none
  | _ => True

instance (w : Flocks T) (e : Event T) : Decidable (Orderly pid w e) := by
  unfold Orderly
  split
  · split <;> infer_instance
  · infer_instance
  · exact .isTrue trivial

/-! ## 2. One file -/

/-- The entry of a file whose holders are given by `held`. -/
inductive Counted (held : Pid → Option LockType) : Option FileLock → Prop where
  | free (h : ∀ p, held p = none) : Counted held none
  | locked (l : FileLock) (ps : List Pid) (nodup : ps.Nodup)
      (held_eq : ∀ p, held p = if p ∈ ps then some l.lock_type else none)
      (count : l.refcount = ps.length) (owner : l.owner_pid ∈ ps)
      (single : l.lock_type = .exclusive → ps = [l.owner_pid]) : Counted held (some l)

namespace Counted

variable {held : Pid → Option LockType} {o : Option FileLock} {l l' : FileLock} {k : FileKey}
  {ty : LockType} {p q : Pid}

theorem held_free (h : Counted held none) (p : Pid) : held p = none := by
  cases h with
  | free h => exact h p

theorem alone (h : Counted held o) (hp : held p = some .exclusive) (hq : q ≠ p) :
    held q = none := by
  cases h with
  | free h => exact h q
  | locked l ps nodup held_eq count owner single =>
    rw [held_eq] at hp ⊢
    split_ifs at hp with hmem
    have hps := single (Option.some.inj hp)
    rw [hps, mem_singleton] at hmem
    rw [hps, if_neg]
    rw [mem_singleton]
    exact fun he => hq (he.trans hmem.symm)

/-- **A lock is granted.** -/
theorem grant (h : Counted held o) (hg : FlockManager.Grants k ty p o l')
    (hc : ∀ l ∈ o, if l.owner_pid = p then ty = .exclusive → l.refcount = 1
      else l.lock_type = .shared → ty = .shared → held p = none) :
    Counted (update held p (some ty)) (some l') := by
  cases hg with
  | fresh =>
    refine .locked _ [p] (nodup_singleton p) (fun q => ?_) rfl (mem_singleton_self p)
      fun _ => rfl
    by_cases hq : q = p
    · rw [hq, update_self, if_pos (mem_singleton_self p)]
    · rw [update_of_ne hq, h.held_free, if_neg]
      exact fun hmem => hq (mem_singleton.1 hmem)
  | own l hown =>
    have hcond := hc l rfl
    rw [if_pos hown] at hcond
    cases h with
    | locked _ ps nodup held_eq count owner single =>
      have hsingle : ty = .exclusive → ps = [l.owner_pid] := by
        intro hty
        obtain ⟨q, hq⟩ := length_eq_one_iff.1 (count.symm.trans (hcond hty))
        rw [hq, mem_singleton] at owner
        rw [hq, owner]
      refine .locked _ ps nodup (fun q => ?_) count owner hsingle
      by_cases hq : q = p
      · rw [hq, update_self, if_pos (hown ▸ owner)]
      rw [update_of_ne hq, held_eq]
      split_ifs with hmem
      · -- a second holder: the lock is shared and stays so
        have hmany : ps ≠ [l.owner_pid] := by
          intro hps
          rw [hps, mem_singleton] at hmem
          exact hq (hmem.trans hown)
        cases hlt : l.lock_type with
        | exclusive => exact absurd (single hlt) hmany
        | shared =>
          cases hty : ty with
          | exclusive => exact absurd (hsingle hty) hmany
          | shared => rfl
      · rfl
  | joined l hown hl hty =>
    have hcond := hc l rfl
    rw [if_neg hown] at hcond
    have hnone := hcond hl hty
    cases h with
    | locked _ ps nodup held_eq count owner single =>
      have hnot : p ∉ ps := by
        intro hmem
        rw [held_eq, if_pos hmem] at hnone
        cases hnone
      refine .locked _ (p :: ps) (nodup_cons.2 ⟨hnot, nodup⟩) (fun q => ?_)
        (congrArg (· + 1) count) (mem_cons_of_mem p owner) fun hex => ?_
      · by_cases hq : q = p
        · rw [hq, update_self, if_pos (mem_cons_self ..), hl, hty]
        · rw [update_of_ne hq, held_eq]
          simp only [mem_cons, hq, false_or]
      · rw [hl] at hex
        cases hex

/-- **A holder releases its lock**, the owner as the only one. -/
theorem release (h : Counted held o)
    (hc : ∀ l ∈ o, held p ≠ none ∧ (l.owner_pid = p → l.refcount = 1)) :
    Counted (update held p none) (o.bind (·.released p)) := by
  cases h with
  | free h =>
    refine .free fun q => ?_
    by_cases hq : q = p
    · rw [hq, update_self]
    · rw [update_of_ne hq, h]
  | locked l ps nodup held_eq count owner single =>
    obtain ⟨hheld, hown⟩ := hc l rfl
    have hmem : p ∈ ps := by
      rw [held_eq] at hheld
      by_contra hnot
      exact hheld (if_neg hnot)
    change Counted _ (l.released p)
    unfold FileLock.released
    split_ifs with hmore
    · obtain ⟨hne, hlt⟩ := hmore
      refine .locked _ (ps.erase p) (nodup.erase p) (fun q => ?_) ?_
        ((mem_erase_of_ne hne).2 owner) fun hex => ?_
      · by_cases hq : q = p
        · rw [hq, update_self, if_neg (nodup.not_mem_erase)]
        · rw [update_of_ne hq, held_eq]
          simp only [mem_erase_of_ne hq]
      · rw [length_erase_of_mem hmem, ← count]
      · rw [count, single hex] at hlt
        exact absurd hlt (lt_irrefl 1)
    -- `p` was the only holder
    have hone : l.refcount = 1 := by
      by_cases hp : l.owner_pid = p
      · exact hown hp
      · have hle : ¬ 1 < l.refcount := fun hlt => hmore ⟨hp, hlt⟩
        have hpos : 0 < ps.length := length_pos_of_mem hmem
        omega
    obtain ⟨r, hr⟩ := length_eq_one_iff.1 (count.symm.trans hone)
    refine .free fun q => ?_
    by_cases hq : q = p
    · rw [hq, update_self]
    · rw [hr, mem_singleton] at hmem
      rw [update_of_ne hq, held_eq, hr, if_neg]
      exact fun hqr => hq ((mem_singleton.1 hqr).trans hmem.symm)

end Counted

/-- A close takes back what an unlock would, unless the owner leaves others behind. -/
theorem FileLock.dropped_eq {l : FileLock} {p : Pid} (h : l.owner_pid = p → l.refcount = 1) :
    l.dropped = l.released p := by
  unfold dropped released
  by_cases hlt : 1 < l.refcount
  · rw [if_pos hlt, if_pos]
    exact ⟨fun hp => absurd (h hp) hlt.ne', hlt⟩
  · rw [if_neg hlt, if_neg]
    exact fun hc => hlt hc.2

/-! ## 3. Runs -/

structure Accounted (w : Flocks T) : Prop where
  table : w.mgr.OneEach
  counted : ∀ k, Counted (w.held k) (w.mgr.lockOf k)

omit [DecidableEq T] in
theorem forget_mgr (w : Flocks T) (k : FileKey) (p : Pid) : (w.forget k p).mgr = w.mgr := by
  unfold forget
  split_ifs <;> rfl

namespace Accounted

variable {pid} {w w' : Flocks T} {k : FileKey} {p : Pid}

omit [DecidableEq T]

theorem congr (h : Accounted w) (hm : w'.mgr = w.mgr) (hh : w'.held = w.held) : Accounted w' :=
  ⟨hm ▸ h.table, fun k => by rw [hm, hh]; exact h.counted k⟩

theorem exclusive (h : Accounted w) : w.Exclusive := fun k _ hp _ hq => (h.counted k).alone hp hq

/-- The entry of one file changes with its holders. -/
theorem edit (h : Accounted w) (ht : w'.mgr.OneEach) {o : Option FileLock}
    {held : Pid → Option LockType}
    (hlock : ∀ k', w'.mgr.lockOf k' = if k' = k then o else w.mgr.lockOf k')
    (hheld : w'.held = update w.held k held) (hc : Counted held o) : Accounted w' := by
  refine ⟨ht, fun k' => ?_⟩
  rw [hlock, hheld]
  by_cases hk : k' = k
  · rw [if_pos hk, hk, update_self]
    exact hc
  · rw [if_neg hk, update_of_ne hk]
    exact h.counted k'

theorem forget (h : Accounted w) (hnone : ¬ w.hasDescriptor k p → w.held k p = none) :
    Accounted (w.forget k p) := by
  unfold Flocks.forget
  split_ifs with hd
  · exact h
  refine h.congr rfl ?_
  unfold Flocks.setHeld
  dsimp only
  rw [← hnone hd, update_eq_self, update_eq_self]

end Accounted

/-! ## 4. Steps and runs -/

section Run

variable {pid} {w : Flocks T}

theorem Accounted.run (h : Accounted w) (t : T) (hc : Orderly pid w (.run t)) :
    Accounted (w.run t (pid t)) := by
  unfold Orderly at hc
  dsimp only at hc
  unfold Flocks.run
  cases hcall : w.calls t with
  | none => exact h
  | some c =>
    rw [hcall] at hc
    cases c with
    | acquiring k ty nonblock =>
      dsimp only at hc ⊢
      obtain ⟨hmgr, hnot⟩ | ⟨hgranted, htable, l', hgrants, hlock⟩ :=
        w.mgr.tryAcquire_cases h.table k ty (pid t)
      · split
        · rename_i heq
          rw [heq] at hnot
          exact absurd rfl hnot
        · rename_i mgr heq
          rw [heq] at hmgr
          exact h.congr hmgr rfl
        · rename_i mgr heq
          rw [heq] at hmgr
          split_ifs
          · exact h.congr hmgr rfl
          · exact h.congr hmgr rfl
      · have hcounted := (h.counted k).grant hgrants hc
        split
        · rename_i mgr heq
          rw [heq] at htable hlock
          exact h.edit htable hlock rfl hcounted
        · rename_i heq
          rw [heq] at hgranted
          cases hgranted
        · rename_i heq
          rw [heq] at hgranted
          cases hgranted
    | releasing k =>
      obtain ⟨htable, hlock⟩ := w.mgr.release_spec h.table k (pid t)
      exact h.edit htable hlock rfl ((h.counted k).release hc)
    | closing k =>
      obtain ⟨htable, hlock⟩ := w.mgr.releaseOnClose_spec h.table k
      dsimp only at hc ⊢
      cases hl : w.mgr.lockOf k with
      | none =>
        -- nobody holds the file, so there is nothing to forget
        have hcounted := h.counted k
        rw [hl] at hlock hcounted
        have hkept : Accounted ({ w with mgr := w.mgr.releaseOnClose k }.setCall t none) := by
          refine h.edit htable hlock (?_ : w.held = update w.held k (w.held k)) hcounted
          exact (update_eq_self k w.held).symm
        exact hkept.forget fun _ => hcounted.held_free (pid t)
      | some l =>
        obtain ⟨hheld, hown, hgone⟩ := hc l hl
        have hcounted := (h.counted k).release (p := pid t) fun l' hl' => by
          rw [hl] at hl'
          cases hl'
          exact ⟨hheld, hown⟩
        rw [hl] at hcounted hlock
        have hdropped : (some l).bind FileLock.dropped = (some l).bind (·.released (pid t)) :=
          FileLock.dropped_eq hown
        rw [hdropped] at hlock
        have hgone' : ¬ ({ w with mgr := w.mgr.releaseOnClose k }.setCall t none).hasDescriptor k
          (pid t) := hgone
        unfold Flocks.forget
        rw [if_neg hgone']
        exact h.edit htable hlock rfl hcounted

/-- **A step that meets the condition keeps the table in step with the holders.** -/
theorem Accounted.step (h : Accounted w) (e : Event T) (hc : Orderly pid w e) :
    Accounted (flockStep pid w e) := by
  unfold flockStep
  cases e with
  | opens t k =>
    dsimp only
    split_ifs
    · exact h
    · exact h.congr rfl rfl
  | ref d p =>
    dsimp only
    split
    · split_ifs
      · exact h
      · exact h.congr rfl rfl
    · exact h
  | flock t d operation =>
    dsimp only
    split_ifs
    · exact h
    split
    · exact h
    · split
      · exact h.congr rfl rfl
      · exact h
  | close t d =>
    dsimp only
    split_ifs
    · exact h
    unfold close
    split
    · exact h
    rename_i fd hfd
    have hdrop : Accounted (w.dropRef d fd (pid t)) := h.congr rfl rfl
    dsimp only
    split_ifs with hmem hlast hzero
    · exact hdrop
    · exact hdrop.congr rfl rfl
    · exact hdrop.forget fun hd => hc fd hfd hlast hd
    · exact h
  | run t => exact h.run t hc

omit [DecidableEq T] in
theorem Accounted.init : Accounted (init : Flocks T) where
  table _ _ _ _ _ ha := nomatch ha
  counted _ := .free fun _ => rfl

/-- Who unlocks or closes without a lock does so where nobody has one. -/
theorem Accounted.keepsOthers (h : Accounted w) {e : Event T} (hc : Orderly pid w e) :
    KeepsOthers pid w e := by
  intro t k hgives hnone k' q hq
  cases e with
  | opens | ref | flock => cases hgives
  | close t' d =>
    unfold flockStep Flocks.close
    dsimp only
    split_ifs
    · rfl
    split
    · rfl
    split_ifs
    · rfl
    · rfl
    · rw [forget_mgr]
      rfl
    · rfl
  | run t' =>
    -- the file has an entry only if the thread's process is a holder
    have hfree : ∀ k, w.held k (pid t') = none →
        (∀ l ∈ w.mgr.lockOf k, w.held k (pid t') ≠ none) → w.mgr.lockOf k = none := by
      intro k hnone hl
      cases hlock : w.mgr.lockOf k with
      | none => rfl
      | some l => exact absurd hnone (hl l hlock)
    unfold Orderly at hc
    unfold Flocks.givesUp at hgives
    dsimp only at hc hgives
    change (w.run t' (pid t')).mgr.lockOf k' = w.mgr.lockOf k'
    unfold Flocks.run
    cases hcall : w.calls t' with
    | none => rw [hcall] at hgives
    | some c =>
      rw [hcall] at hc hgives
      cases c with
      | acquiring k ty nonblock => cases hgives
      | releasing j =>
        cases hgives
        obtain ⟨-, hlock⟩ := w.mgr.release_spec h.table k (pid t)
        refine (hlock k').trans ?_
        split_ifs with hk
        · rw [hk, hfree k hnone fun l hl => (hc l hl).1, bind_none]
        · rfl
      | closing j =>
        cases hgives
        obtain ⟨-, hlock⟩ := w.mgr.releaseOnClose_spec h.table k
        dsimp only
        rw [forget_mgr]
        refine (hlock k').trans ?_
        split_ifs with hk
        · rw [hk, hfree k hnone fun l hl => (hc l hl).1, bind_none]
        · rfl

end Run

/-- **In a run of such steps an exclusive lock excludes all others, and nobody loses a lock to a
    process that has none.** -/
theorem flockExclusion {w : Flocks T} (h : (flocks pid).Reach (Orderly pid) w) :
    w.Exclusive ∧ ∀ e, Orderly pid w e → KeepsOthers pid w e := by
  have hacc : Accounted w := by
    refine h.invariant (I := Accounted) (fun w hw => ?_) fun w e _ hw hc => hw.step e hc
    rw [show w = init from hw]
    exact .init
  exact ⟨hacc.exclusive, fun e hc => hacc.keepsOthers hc⟩

/-! ## 5. Two processes and a file -/

def pidOf (t : Fin 2) : Pid := BitVec.ofNat 32 (t + 1)

/-- Both have opened the file. -/
def opened : List (Event (Fin 2)) := (List.finRange 2).map (.opens · 7)

/-- Two readers, of which one goes and the other writes. -/
theorem flockExclusion_upgrade :
    ((flocks pidOf).exec init (opened ++ [.flock 0 0 1, .run 0, .flock 1 1 1, .run 1,
      .flock 1 1 8, .run 1, .flock 0 0 2, .run 0, .flock 1 1 5, .run 1])).Exclusive := by
  have hstart : (flocks pidOf).start init := rfl
  exact (flockExclusion pidOf ((Machine.Reach.start hstart).exec (by decide +kernel))).1

/-- The owner upgrades beside a second holder; a process without a lock unlocks the file. -/
theorem flockExclusion_refuted : (∃ w, (flocks pidOf).Reachable w ∧ ¬ w.Exclusive) ∧
      ∃ w e, (flocks pidOf).Reachable w ∧ ¬ KeepsOthers pidOf w e := by
  have hstart : (flocks pidOf).Reachable init := .start rfl
  refine ⟨⟨_, hstart.exec (opened ++ [.flock 0 0 1, .run 0, .flock 1 1 1, .run 1,
      .flock 0 0 6, .run 0]), fun h => ?_⟩,
    _, .run 1, hstart.exec (opened ++ [.flock 0 0 2, .run 0, .flock 1 1 8]), fun h => ?_⟩
  · have hnone := h 7 1 (by decide +kernel) 2 (by decide)
    exact absurd hnone (by decide +kernel)
  · have hsame := h 1 7 (by decide +kernel) (by decide +kernel) 7 1 (by decide +kernel)
    exact absurd hsame (by decide +kernel)

end Zigk.Flock
