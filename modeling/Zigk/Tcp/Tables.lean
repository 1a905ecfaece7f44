/-
  Subject:   POOL, HASH TABLE AND LISTEN TABLE stay in step with each other under every entry point
             of the TCP module.

  * `TablesOk` -- a live TCB is either a listener or in the hash table, and the hash table holds no
    two TCBs with the same addresses;
  * one lemma per entry point; only `admitSyn` needs a condition, since it does not look whether
    the connection exists.
-/
import Zigk.Tcp.Endpoints

namespace Zigk.Tcp

open Function List Zigk.Tcp.Module

/-! ## 1. The tables -/

structure TablesOk (m : Module) : Prop where
  poolNodup : m.pool.Nodup
  hashNodup : m.hash.Nodup
  listenNodup : m.listenTcbs.Nodup
  named : ∀ i ∈ m.pool, i ≤ m.generation
  split : ∀ i, i ∈ m.pool ↔ i ∈ m.hash ∨ i ∈ m.listenTcbs
  apart : ∀ i ∈ m.hash, i ∉ m.listenTcbs
  unique : ∀ i ∈ m.hash, ∀ j ∈ m.hash, (m.tcb i).endpoints = (m.tcb j).endpoints → i = j

/-- The tables stay in order; names are only added, and only new ones enter the hash table. -/
structure TableStep (m m' : Module) : Prop where
  ok : TablesOk m'
  later : m.generation ≤ m'.generation
  hash : ∀ i ∈ m'.hash, i ∈ m.hash ∨ m.generation < i

theorem TableStep.trans {m m' m'' : Module} (h : TableStep m m') (h' : TableStep m' m'') :
    TableStep m m'' := by
  refine ⟨h'.ok, h.later.trans h'.later, fun i hi => ?_⟩
  rcases h'.hash i hi with hi | hi
  · exact h.hash i hi
  · exact .inr (h.later.trans_lt hi)

section Lookup

variable {m : Module} {i : TcbId} {e : Endpoints}

theorem findTcbIp_mem (h : m.findTcbIp e = some i) : i ∈ m.hash := mem_of_find?_eq_some h

theorem findTcbIp_none (h : m.findTcbIp e = none) : ∀ i ∈ m.hash, (m.tcb i).endpoints ≠ e := by
  intro i hi he
  exact absurd (find?_eq_none.mp h i hi) (by simp [he])

theorem leastLoaded_mem {l : List TcbId} (h : m.leastLoaded l = some i) : i ∈ l := by
  have key : ∀ (f : Option TcbId → TcbId → Option TcbId) (_ : ∀ b j, f b j = some j ∨ f b j = b)
      (l : List TcbId) (b : Option TcbId), l.foldl f b = some i → i ∈ l ∨ b = some i := by
    intro f hf l
    induction l with
    | nil => exact fun b hb => .inr hb
    | cons j l ih =>
      intro b hb
      rcases ih _ hb with hi | hi
      · exact .inl (.tail _ hi)
      rcases hf b j with e | e <;> rw [e] at hi
      · exact .inl (by rw [Option.some.inj hi]; exact .head _)
      · exact .inr hi
  rcases key _ (fun b j => by
    cases b with
    | none => exact .inl rfl
    | some b => exact ite_eq_or_eq _ (some j) (some b)) l none h with hi | hi
  · exact hi
  · cases hi

theorem findListeningTcbIp_mem {port : BitVec 16} {a : IpAddr}
    (h : m.findListeningTcbIp port a = some i) : i ∈ m.listenTcbs := by
  unfold findListeningTcbIp at h
  simp only at h
  rcases Option.or_eq_some_iff.mp h with h | ⟨-, h⟩
  · exact (mem_filter.mp (mem_filter.mp (leastLoaded_mem h)).1).1
  · exact (mem_filter.mp (mem_filter.mp (leastLoaded_mem h)).1).1

end Lookup

/-! ## 2. One TCB -/

section One

variable {m : Module} {i : TcbId} {t : Tcb} {c : Ctx} (h : TablesOk m)

include h

theorem TablesOk.stay : TableStep m m := ⟨h, le_refl _, fun _ hi => .inl hi⟩

theorem TablesOk.put (he : t.endpoints = (m.tcb i).endpoints) : TableStep m (m.put i t) := by
  have hsame : ∀ j, ((m.put i t).tcb j).endpoints = (m.tcb j).endpoints := by
    intro j
    by_cases hj : j = i
    · subst hj
      simp only [Module.put, update_self, he]
    · simp only [Module.put, update_of_ne hj]
  refine ⟨⟨h.poolNodup, h.hashNodup, h.listenNodup, h.named, h.split, h.apart,
    fun a ha b hb hab => ?_⟩, le_refl _, fun _ hj => .inl hj⟩
  rw [hsame, hsame] at hab
  exact h.unique a ha b hb hab

theorem TablesOk.free : TableStep m (m.freeTcb i) := by
  have hne : ∀ j ∈ (m.freeTcb i).hash, j ∈ m.hash ∧ j ≠ i := by
    intro j hj
    rw [freeTcb_hash, h.hashNodup.mem_erase_iff] at hj
    exact ⟨hj.2, hj.1⟩
  refine ⟨⟨?_, ?_, ?_, fun j hj => ?_, fun j => ?_, fun j hj => ?_, fun a ha b hb hab => ?_⟩,
    le_of_eq (m.freeTcb_generation i).symm, fun j hj => .inl (hne j hj).1⟩
  · rw [freeTcb_pool]
    exact nodup_removeFrom h.poolNodup
  · rw [freeTcb_hash]
    exact h.hashNodup.erase i
  · rw [freeTcb_listenTcbs]
    exact nodup_removeFrom h.listenNodup
  · rw [freeTcb_pool, mem_removeFrom h.poolNodup] at hj
    rw [freeTcb_generation]
    exact h.named j hj.1
  · rw [freeTcb_pool, freeTcb_hash, freeTcb_listenTcbs,
      mem_removeFrom h.poolNodup, mem_removeFrom h.listenNodup, h.hashNodup.mem_erase_iff,
      h.split j]
    tauto
  · rw [freeTcb_listenTcbs, mem_removeFrom h.listenNodup]
    exact fun hl => h.apart j (hne j hj).1 hl.1
  · rw [freeTcb_tcb, update_of_ne (hne a ha).2, update_of_ne (hne b hb).2] at hab
    exact h.unique a (hne a ha).1 b (hne b hb).1 hab

/-- A handler that leaves the addresses alone. -/
theorem TablesOk.settle {freed : Bool} (he : c.tcb.endpoints = (m.tcb i).endpoints) :
    TableStep m (m.settle i (c, freed)) := by
  obtain ⟨hput, h1, h2⟩ := h.put he
  have hput' : TableStep m { m.put i c.tcb with panicked := m.panicked || c.panicked } :=
    ⟨⟨hput.1, hput.2, hput.3, hput.4, hput.5, hput.6, hput.7⟩, h1, h2⟩
  cases freed with
  | false => exact hput'
  | true => exact hput'.trans hput'.ok.free

end One

/-! ## 3. New TCBs -/

section New

variable {m m' : Module} {i : TcbId} {t : Tcb} {create : Bool} {e : Endpoints}

/-- What a new TCB looks like. -/
theorem allocateTcb_spec (ha : m.allocateTcb create e = some (i, m')) : i = m.generation + 1 ∧
      m' = { m.put i (newTcb e m.now i) with pool := m.pool ++ [i], generation := i } := by
  unfold allocateTcb at ha
  split at ha
  · cases ha
  split at ha
  · simp only [Option.some.injEq, Prod.mk.injEq] at ha
    obtain ⟨rfl, rfl⟩ := ha
    exact ⟨rfl, rfl⟩
  · cases ha

theorem allocateTcb_endpoints (ha : m.allocateTcb create e = some (i, m')) :
    (m'.tcb i).endpoints = e := by
  obtain ⟨-, hm⟩ := allocateTcb_spec ha
  rw [hm]
  refine (congrArg Tcb.endpoints (update_self i _ m.tcb)).trans ?_
  rfl

variable (h : TablesOk m)

include h

theorem TablesOk.new_notMem : m.generation + 1 ∉ m.pool :=
  fun hm => Nat.not_succ_le_self _ (h.named _ hm)

theorem TablesOk.nodup_new : (m.pool ++ [m.generation + 1]).Nodup :=
  nodup_append.mpr ⟨h.poolNodup, nodup_singleton _, fun a ha b hb e =>
    h.new_notMem (by rw [mem_singleton] at hb; rwa [← hb, ← e])⟩

theorem TablesOk.named_new : ∀ j ∈ m.pool ++ [m.generation + 1], j ≤ m.generation + 1 := by
  intro j hj
  rcases mem_append.mp hj with hj | hj
  · exact (h.named j hj).trans (Nat.le_succ _)
  · rw [mem_singleton.mp hj]

/-- A new connection enters the hash table; nobody there has its addresses. -/
theorem TablesOk.enter (ha : m.allocateTcb create e = some (i, m')) (hf : m.findTcbIp e = none)
    (he : t.endpoints = e) : TableStep m ((m'.put i t).insertTcbIntoHash i) := by
  obtain ⟨hi, hm⟩ := allocateTcb_spec ha
  have htcb : ((m'.put i t).insertTcbIntoHash i).tcb = update m.tcb i t := by
    rw [hm]
    exact update_idem _ _ _
  have hnew : i ∉ m.pool := hi ▸ h.new_notMem
  have hhash : i ∉ m.hash := fun hmem => hnew ((h.split i).mpr (.inl hmem))
  have hlisten : i ∉ m.listenTcbs := fun hmem => hnew ((h.split i).mpr (.inr hmem))
  have hold : ∀ j ∈ m.hash, (((m'.put i t).insertTcbIntoHash i).tcb j).endpoints =
      (m.tcb j).endpoints := by
    intro j hj
    have hne : j ≠ i := fun e => hhash (e ▸ hj)
    rw [htcb, update_of_ne hne]
  have hself : (((m'.put i t).insertTcbIntoHash i).tcb i).endpoints = e := by
    rw [htcb, update_self, he]
  have hothers := findTcbIp_none hf
  subst hm
  subst hi
  refine ⟨⟨h.nodup_new, nodup_cons.mpr ⟨hhash, h.hashNodup⟩, h.listenNodup, h.named_new,
    fun j => ?_, forall_mem_cons.mpr ⟨hlisten, h.apart⟩, ?_⟩, Nat.le_succ _,
    forall_mem_cons.mpr ⟨.inr (Nat.lt_succ_self _), fun j hj => .inl hj⟩⟩
  · show j ∈ m.pool ++ [m.generation + 1] ↔ j ∈ (m.generation + 1) :: m.hash ∨ j ∈ m.listenTcbs
    rw [mem_append, mem_singleton, mem_cons, h.split j]
    tauto
  refine forall_mem_cons.mpr ⟨forall_mem_cons.mpr ⟨fun _ => rfl, fun b hb hab => ?_⟩,
    fun a ha => forall_mem_cons.mpr ⟨fun hab => ?_, fun b hb hab => ?_⟩⟩
  · rw [hself, hold b hb] at hab
    exact absurd hab.symm (hothers b hb)
  · rw [hself, hold a ha] at hab
    exact absurd hab (hothers a ha)
  · rw [hold a ha, hold b hb] at hab
    exact h.unique a ha b hb hab

/-- A new listener enters the listen table. -/
theorem TablesOk.enterListen (ha : m.allocateTcb create e = some (i, m')) :
    TableStep m { m'.put i t with listenTcbs := (m'.put i t).listenTcbs ++ [i] } := by
  obtain ⟨hi, hm⟩ := allocateTcb_spec ha
  have hnew : i ∉ m.pool := hi ▸ h.new_notMem
  have hhash : i ∉ m.hash := fun hmem => hnew ((h.split i).mpr (.inl hmem))
  have hlisten : i ∉ m.listenTcbs := fun hmem => hnew ((h.split i).mpr (.inr hmem))
  have hold : ∀ j ∈ m.hash, (m'.put i t).tcb j = m.tcb j := by
    intro j hj
    have hne : j ≠ i := fun e => hhash (e ▸ hj)
    rw [hm]
    simp only [Module.put, update_of_ne hne]
  subst hm
  subst hi
  refine ⟨⟨h.nodup_new, h.hashNodup, ?_, h.named_new, fun j => ?_, fun j hj => ?_,
    fun a ha b hb hab => ?_⟩, Nat.le_succ _, fun j hj => .inl hj⟩
  · exact nodup_append.mpr ⟨h.listenNodup, nodup_singleton _, fun a ha b hb e =>
      hlisten (by rw [mem_singleton] at hb; rwa [← hb, ← e])⟩
  · show j ∈ m.pool ++ [m.generation + 1] ↔ j ∈ m.hash ∨ j ∈ m.listenTcbs ++ [m.generation + 1]
    rw [mem_append, mem_append, mem_singleton, h.split j, or_assoc]
  · show j ∉ m.listenTcbs ++ [m.generation + 1]
    rw [mem_append, mem_singleton]
    rintro (hl | rfl)
    · exact h.apart j hj hl
    · exact hhash hj
  · change ((Module.put _ _ t).tcb a).endpoints = ((Module.put _ _ t).tcb b).endpoints at hab
    rw [hold a ha, hold b hb] at hab
    exact h.unique a ha b hb hab

/-- A new TCB is freed again before it is in any table. -/
theorem TablesOk.dropNew (ha : m.allocateTcb create e = some (i, m')) :
    TableStep m ((m'.put i t).freeTcb i) := by
  obtain ⟨hi, hm⟩ := allocateTcb_spec ha
  have hnew : i ∉ m.pool := hi ▸ h.new_notMem
  have hhash : i ∉ m.hash := fun hmem => hnew ((h.split i).mpr (.inl hmem))
  have hlisten : i ∉ m.listenTcbs := fun hmem => hnew ((h.split i).mpr (.inr hmem))
  have hpool : m'.pool = m.pool ++ [i] := by rw [hm]
  have hold : ∀ j ∈ m.hash, ((m'.put i t).freeTcb i).tcb j = m.tcb j := by
    intro j hj
    have hne : j ≠ i := fun e => hhash (e ▸ hj)
    rw [freeTcb_tcb, update_of_ne hne]
    refine (update_of_ne hne ..).trans ?_
    rw [hm]
    exact update_of_ne hne ..
  have hh : ((m'.put i t).freeTcb i).hash = m.hash := by
    rw [freeTcb_hash]
    refine (congrArg (List.erase · i) (show m'.hash = m.hash by rw [hm]; rfl)).trans ?_
    exact erase_of_not_mem hhash
  have hl : ((m'.put i t).freeTcb i).listenTcbs = m.listenTcbs := by
    rw [freeTcb_listenTcbs]
    have hsame : m'.listenTcbs = m.listenTcbs := by
      rw [hm]
      rfl
    refine (congrArg (removeFrom · i) hsame).trans ?_
    exact if_neg hlisten
  have hnodup : m'.pool.Nodup := by
    rw [hpool, hi]
    exact h.nodup_new
  have hp : ∀ j, j ∈ ((m'.put i t).freeTcb i).pool ↔ j ∈ m.pool := by
    intro j
    rw [freeTcb_pool]
    change j ∈ removeFrom m'.pool i ↔ j ∈ m.pool
    rw [mem_removeFrom hnodup, hpool, mem_append, mem_singleton]
    constructor
    · rintro ⟨hj | hj, hne⟩
      · exact hj
      · exact absurd hj hne
    · exact fun hj => ⟨.inl hj, fun e => hnew (e ▸ hj)⟩
  have hg : ((m'.put i t).freeTcb i).generation = m.generation + 1 := by
    rw [freeTcb_generation]
    refine Eq.trans ?_ hi
    rw [hm]
    rfl
  refine ⟨⟨?_, ?_, ?_, fun j hj => ?_, fun j => ?_, fun j hj => ?_, fun a ha b hb hab => ?_⟩, ?_,
    fun j hj => .inl (hh ▸ hj)⟩
  · rw [freeTcb_pool]
    exact nodup_removeFrom hnodup
  · rw [hh]
    exact h.hashNodup
  · rw [hl]
    exact h.listenNodup
  · rw [hg]
    exact (h.named j ((hp j).1 hj)).trans (Nat.le_succ _)
  · rw [hp, hh, hl, h.split]
  · rw [hl]
    exact h.apart j (hh ▸ hj)
  · rw [hh] at ha hb
    rw [hold a ha, hold b hb] at hab
    exact h.unique a ha b hb hab
  · rw [hg]
    exact Nat.le_succ _

end New

/-! ## 4. The entry points -/

section Entries

variable {m : Module} (s : Surroundings) (h : TablesOk m)

include h

/-- Eviction frees the oldest half-open TCB. -/
theorem TablesOk.makeRoom (busy : TcbId → Bool) : TableStep m (m.makeRoom busy).1 := by
  unfold Module.makeRoom
  split
  · unfold Module.evictOldestHalfOpenTcbUnlocked
    split
    · exact h.stay
    split
    · exact ⟨⟨h.poolNodup, h.hashNodup, h.listenNodup, h.named, h.split, h.apart, h.unique⟩,
        le_refl _, fun _ hi => .inl hi⟩
    split
    · exact h.stay
    · rename_i i _ _ _
      have hput := h.put (i := i) (t := { m.tcb i with closing := true }) rfl
      exact hput.trans hput.ok.free
  · exact h.stay

theorem TablesOk.makeRoom_hash (busy : TcbId → Bool) : ∀ i ∈ (m.makeRoom busy).1.hash,
    i ∈ m.hash ∧ ((m.makeRoom busy).1.tcb i).endpoints = (m.tcb i).endpoints := by
  unfold Module.makeRoom
  split
  · unfold Module.evictOldestHalfOpenTcbUnlocked
    split
    · exact fun i hi => ⟨hi, rfl⟩
    split
    · exact fun i hi => ⟨hi, rfl⟩
    split
    · exact fun i hi => ⟨hi, rfl⟩
    rename_i j _ _ _
    intro i hi
    rw [Module.freeTcb_hash] at hi
    obtain ⟨hne, hi⟩ := (h.hashNodup.mem_erase_iff).1 hi
    refine ⟨hi, congrArg Tcb.endpoints ?_⟩
    rw [Module.freeTcb_tcb, update_of_ne hne]
    exact update_of_ne hne ..
  · exact fun i hi => ⟨hi, rfl⟩

/-- **A SYN is admitted where the connection does not exist.** -/
theorem TablesOk.admitSyn (listener : Tcb) {p : Packet} (hf : m.findTcbIp p.endpoints = none) :
    TableStep m (m.admitSyn s listener p).1 := by
  have hroom := h.makeRoom s.busy
  -- making room only takes connections away
  have hf' : (m.makeRoom s.busy).1.findTcbIp p.endpoints = none := by
    refine find?_eq_none.2 fun i hi => ?_
    obtain ⟨hold, he⟩ := h.makeRoom_hash s.busy i hi
    rw [he, decide_eq_true_eq]
    exact findTcbIp_none hf i hold
  unfold Module.admitSyn
  dsimp only
  split
  · split
    · exact hroom
    rename_i i m' ha
    have henter := hroom.ok.enter (t := passiveTcb (m'.tcb i) listener p s.iss) ha hf'
      ((passiveTcb_endpoints _ _ _ _).trans (allocateTcb_endpoints ha))
    refine hroom.trans ⟨⟨henter.1.1, henter.1.2, henter.1.3, henter.1.4, henter.1.5, henter.1.6,
      henter.1.7⟩, henter.2, henter.3⟩
  · exact hroom

theorem TablesOk.countAccept (parent : Option Nat) : TableStep m (m.countAccept parent) := by
  unfold Module.countAccept
  split
  · exact h.put rfl
  · exact h.stay

theorem TablesOk.connectIp (e : Endpoints) (o : SocketSettings) :
    TableStep m (m.connectIp s e o) := by
  unfold Module.connectIp
  split
  · exact h.stay
  rename_i hf
  split
  · exact h.stay
  rename_i i m' ha
  have henter := h.enter (t := activeTcb (m'.tcb i) s.iss) ha hf (allocateTcb_endpoints ha)
  dsimp only
  refine henter.trans (henter.ok.settle ?_)
  split
  · exact sendFirstSyn_endpoints _ _
  · exact sendFirstSyn_endpoints _ _

theorem TablesOk.listenIp (a : IpAddr) (port : BitVec 16) (sock : Nat) (append : Bool) :
    TableStep m (m.listenIp s a port sock append) := by
  unfold Module.listenIp
  split
  · exact h.stay
  rename_i i m' ha
  dsimp only
  split
  · exact h.enterListen ha
  · exact h.dropNew ha

theorem TablesOk.timersAt (n : Nat) : TableStep m (m.timersAt s n) := by
  unfold Module.timersAt
  split
  · exact h.stay
  · split
    · exact h.stay
    · exact h.settle (processTcbTimers_endpoints _ _)

end Entries

theorem TablesOk.timersBelow {m : Module} (s : Surroundings) (h : TablesOk m) (n : Nat) :
    TableStep m (m.timersBelow s n) := by
  induction n generalizing m with
  | zero => exact h.stay
  | succ n ih =>
    have hat := h.timersAt s n
    exact hat.trans (ih hat.ok)

theorem TablesOk.processTimers {m : Module} (s : Surroundings) (h : TablesOk m) :
    TableStep m (m.processTimers s) := by
  have htick : TablesOk { m with now := m.now + m.msPerTick } :=
    ⟨h.poolNodup, h.hashNodup, h.listenNodup, h.named, h.split, h.apart, h.unique⟩
  have hbelow := htick.timersBelow s m.pool.length
  exact ⟨hbelow.ok, hbelow.later, hbelow.hash⟩

end Zigk.Tcp
