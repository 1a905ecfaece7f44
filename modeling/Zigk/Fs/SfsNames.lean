/-
  Subject:   NO TWO ENTRIES HAVE ONE NAME, IF NO CALL GIVES A NAME THAT IS THERE OR UNDER WAY.

  * `wins`, `sfsWinners` -- for each name the exclusive creations that succeeded since it was gone;
  * `Free`, `Orderly` -- when a lock section may give a name;
  * `Named` -- the invariant: what a copy gives is on the disk at most in the sector it replaces,
    and in no other copy;
  * **`nameUniqueness`** -- names stay unique and each is won once in every run of orderly steps;
    `nameUniqueness_refuted` -- a directory is made while an entry is renamed to its name.
-/
import Zigk.Fs.SfsGifts

namespace Zigk.Sfs

open List Option TaskState

/-! ## 1. Successes -/

/-- What a copy writes: entry `i` is active and has the name. -/
def Copy.Gives (c : Copy) (i : Slot) (name : Name) : Prop :=
  sectorOf i = c.sector ∧ (c.image i).named name = true

instance (c : Copy) (i : Slot) (name : Name) : Decidable (c.Gives i name) :=
  inferInstanceAs (Decidable (sectorOf i = c.sector ∧ (c.image i).named name = true))

namespace Vol

variable (s : Vol)

/-- The name is in the directory, or in a copy of a call under way. -/
def Present (name : Name) : Prop :=
  (∃ i, (s.disk i).named name = true) ∨
    ∃ task ∈ s.tasks, ∃ c ∈ task.state.copies, ∃ i, c.Gives i name

instance (name : Name) : Decidable (s.Present name) :=
  inferInstanceAs (Decidable ((∃ i, (s.disk i).named name = true) ∨
    ∃ task ∈ s.tasks, ∃ c ∈ task.state.copies, ∃ i, c.Gives i name))

/-- The step with which a call passes the last of its checks. -/
def passes (task : Task) : Bool :=
  match task.state with
  | .scan again next seen => ROOT_DIR_BLOCKS ≤ next + 1 &&
      (task.call.afterScan again (s.disk.readSector seen next)).passed
  | .locked seen => (s.lockSection task.call seen).2.passed
  | _ => false

/-- The name of which an exclusive creation succeeds. -/
def wins : Input → Option Name
  | .run t => s.tasks[t]?.bind fun task => task.call.exclusive.filter fun _ => s.passes task
  | _ => none

/-- A success counts as long as the name is there. -/
def winners (won : List Name) (input : Input) : List Name :=
  ((s.wins input).toList ++ won).filter fun name => (s.step input).Present name

end Vol

/-- The calls, and for each name the exclusive creations of it that succeeded. -/
def sfsWinners : Machine (Vol × List Name) Input :=
  sfsTasks.track [] fun won s input => s.winners won input

/-! ## 2. Orderly steps -/

namespace Vol

variable (s : Vol)

/-- Only the loser has the name, in the same sector, and nothing is under way that writes it. Where
    the name is taken over, copies of that sector may still have it. -/
def Free (g : Gift) : Prop :=
  (∀ k, (s.disk k).named g.name = true → g.loser = some k ∧ sectorOf k = sectorOf g.slot) ∧
    ∀ task ∈ s.tasks, ∀ c ∈ task.state.copies, g.loser = none ∨ c.sector ≠ sectorOf g.slot →
      ∀ k, ¬ c.Gives k g.name

instance (g : Gift) : Decidable (s.Free g) := inferInstanceAs (Decidable (
  (∀ k, (s.disk k).named g.name = true → g.loser = some k ∧ sectorOf k = sectorOf g.slot) ∧
    ∀ task ∈ s.tasks, ∀ c ∈ task.state.copies, g.loser = none ∨ c.sector ≠ sectorOf g.slot →
      ∀ k, ¬ c.Gives k g.name))

/-- An exclusive open does not find its name, and a lock section gives free names. -/
def NameFree (task : Task) : Prop :=
  match task.call, task.state with
  | .sfsOpen name true _, .scan false next seen => (s.disk.readSector seen next).find name = none
  | call, .locked seen => ∀ g ∈ s.gifts call seen, s.Free g
  | _, _ => True

instance (task : Task) : Decidable (s.NameFree task) := by
  unfold NameFree
  split <;> infer_instance

def Orderly : Input → Prop
  | .run t => ∀ task ∈ s.tasks[t]?, s.NameFree task
  | _ => True

instance (input : Input) : Decidable (s.Orderly input) :=
  match input with
  | .run t => inferInstanceAs (Decidable (∀ task ∈ s.tasks[t]?, s.NameFree task))
  | .begin _ | .setOpen .. => inferInstanceAs (Decidable True)

end Vol

/-! ## 3. The invariant -/

variable {s t : Vol} {d : Dir} {c c' : Copy} {i j k : Slot} {name : Name} {g g' : Gift}
  {gifts : List Gift} {image : Dir} {todo : List Todo} {task : Task} {seen : Dir}

/-- A copy has unique names, and what it gives is on the disk only in the sector it replaces. -/
structure Copy.Fresh (c : Copy) (d : Dir) : Prop where
  inj : ∀ i j name, c.Gives i name → c.Gives j name → i = j
  fresh : ∀ i j name, c.Gives i name → (d j).named name = true → j = i ∨ sectorOf j = c.sector

/-- A copy is still to be written. -/
def Vol.Pending (s : Vol) (c : Copy) : Prop := ∃ task ∈ s.tasks, c ∈ task.state.copies

structure Named (s : Vol) : Prop where
  unique : NamesUnique s.disk
  fresh : ∀ c, s.Pending c → c.Fresh s.disk
  apart : ∀ c c', s.Pending c → s.Pending c' → c.sector ≠ c'.sector →
    ∀ i j name, c.Gives i name → ¬ c'.Gives j name

namespace Named

/-- Copies are written or dropped, and no new one is taken. -/
theorem settle (h : Named s) (hunique : NamesUnique t.disk)
    (hpending : ∀ c, t.Pending c → s.Pending c)
    (hdisk : ∀ c i j name, s.Pending c → c.Gives i name → (t.disk j).named name = true →
      (s.disk j).named name = true ∨ sectorOf j = c.sector) : Named t where
  unique := hunique
  fresh c hc := by
    have hold := h.fresh c (hpending c hc)
    refine ⟨hold.inj, fun i j name hi hj => ?_⟩
    obtain hj | hj := hdisk c i j name (hpending c hc) hi hj
    · exact hold.fresh i j name hi hj
    · exact .inr hj
  apart c c' hc hc' := h.apart c c' (hpending c hc) (hpending c' hc')

/-- What a new copy gives is in the directory or a gift. -/
theorem fresh_of_image (h : Named s) (himage : s.disk.Image gifts c.image)
    (hfree : ∀ g ∈ gifts, s.Free g) (hinj : GiftsInj gifts) : c.Fresh s.disk := by
  refine ⟨fun i j name hi hj => ?_, fun i j name hi hj => ?_⟩
  · obtain hdi | ⟨g, hg, rfl, rfl⟩ := himage.source i name hi.2
    · obtain hdj | ⟨g, hg, rfl, rfl⟩ := himage.source j name hj.2
      · exact h.unique i j name hdi hdj
      · exact himage.loser g hg i ((hfree g hg).1 i hdi).1 hi.2
    · obtain hdj | ⟨g', hg', rfl, hname⟩ := himage.source j g.name hj.2
      · exact (himage.loser g hg j ((hfree g hg).1 j hdj).1 hj.2).symm
      · exact hinj g hg g' hg' hname.symm
  · obtain hdi | ⟨g, hg, rfl, rfl⟩ := himage.source i name hi.2
    · exact .inl (h.unique j i name hj hdi)
    · exact .inr (((hfree g hg).1 j hj).2.trans hi.1)

/-- A new copy and one of another sector that is still to be written. -/
theorem apart_old (h : Named s) (himage : s.disk.Image gifts c.image)
    (hfree : ∀ g ∈ gifts, s.Free g) (hc' : s.Pending c') (hsector : c.sector ≠ c'.sector)
    (hi : c.Gives i name) : ¬ c'.Gives j name := by
  intro hj
  obtain hdi | ⟨g, hg, rfl, rfl⟩ := himage.source i name hi.2
  · obtain rfl | hi' := (h.fresh c' hc').fresh j i name hj hdi
    · exact hsector (hi.1.symm.trans hj.1)
    · exact hsector (hi.1.symm.trans hi')
  · obtain ⟨task, htask, hcopy⟩ := hc'
    have hne : c'.sector ≠ sectorOf g.slot := fun he => hsector (hi.1.symm.trans he.symm)
    exact (hfree g hg).2 task htask c' hcopy (.inr hne) j hj

/-- Two new copies of different sectors. -/
theorem apart_new (h : Named s) (himage : s.disk.Image gifts c.image)
    (himage' : s.disk.Image gifts c'.image) (hfree : ∀ g ∈ gifts, s.Free g)
    (hinj : GiftsInj gifts) (hsector : c.sector ≠ c'.sector) (hi : c.Gives i name) :
    ¬ c'.Gives j name := by
  intro hj
  have hne : sectorOf i ≠ sectorOf j := fun he => hsector (hi.1.symm.trans (he.trans hj.1))
  obtain hdi | ⟨g, hg, rfl, rfl⟩ := himage.source i name hi.2
  · obtain hdj | ⟨g, hg, rfl, rfl⟩ := himage'.source j name hj.2
    · exact hne (congrArg sectorOf (h.unique i j name hdi hdj))
    · exact hne ((hfree g hg).1 i hdi).2
  · obtain hdj | ⟨g', hg', rfl, hname⟩ := himage'.source j g.name hj.2
    · exact hne ((hfree g hg).1 j hdj).2.symm
    · exact hne (congrArg sectorOf (hinj g hg g' hg' hname.symm))

/-- New copies are taken, and the disk stays. -/
theorem take (h : Named s) (gifts : List Gift) (new : Copy → Prop) (hdisk : t.disk = s.disk)
    (hpending : ∀ c, t.Pending c → s.Pending c ∨ new c)
    (hnew : ∀ c, new c → s.disk.Image gifts c.image)
    (hfree : ∀ g ∈ gifts, s.Free g) (hinj : GiftsInj gifts) : Named t where
  unique := by
    rw [hdisk]
    exact h.unique
  fresh c hc := by
    rw [hdisk]
    obtain hc | hc := hpending c hc
    · exact h.fresh c hc
    · exact h.fresh_of_image (hnew c hc) hfree hinj
  apart c c' hc hc' hsector i j name hi := by
    obtain hc | hc := hpending c hc
    · obtain hc' | hc' := hpending c' hc'
      · exact h.apart c c' hc hc' hsector i j name hi
      · exact fun hj => h.apart_old (hnew c' hc') hfree hc hsector.symm hj hi
    · obtain hc' | hc' := hpending c' hc'
      · exact h.apart_old (hnew c hc) hfree hc' hsector hi
      · exact h.apart_new (hnew c hc) (hnew c' hc') hfree hinj hsector hi

end Named

/-! ## 4. Steps -/

namespace Vol

theorem Pending.of_set {u : Nat} {call : Call} {state : TaskState}
    (htasks : t.tasks = s.tasks.set u ⟨call, state⟩) (hc : t.Pending c) :
    s.Pending c ∨ c ∈ state.copies := by
  obtain ⟨task, htask, hcopy⟩ := hc
  rw [htasks] at htask
  obtain htask | rfl := mem_or_eq_of_mem_set htask
  · exact .inl ⟨task, htask, hcopy⟩
  · exact .inr hcopy

/-- The copies that come after the first thing to do. -/
theorem Pending.of_tail {w : Todo} (htask : task ∈ s.tasks)
    (hstate : task.state = .writes (w :: todo))
    (hc : c ∈ (writes todo).copies) : s.Pending c := by
  refine ⟨task, htask, ?_⟩
  rw [hstate]
  exact mem_copies.2 (mem_cons_of_mem _ (mem_copies.1 hc))

theorem mem_syncSector {σ b n : Nat} (hc : c ∈ (s.syncSector σ b n todo).copies) :
    c.image = s.disk.syncLinks b n ∨ c ∈ (writes todo).copies := by
  unfold syncSector at hc
  split_ifs at hc
  · obtain he | hc := mem_cons.1 (mem_copies.1 hc)
    · cases he
      exact .inl rfl
    · exact .inr (mem_copies.2 hc)
  · exact .inr hc

theorem NameFree.locked (h : s.NameFree task) (hstate : task.state = .locked seen) :
    ∀ g ∈ s.gifts task.call seen, s.Free g := by
  unfold NameFree at h
  rw [hstate] at h
  split at h
  · rename_i heq
    cases heq
  · rename_i heq
    cases heq
    exact h
  · rename_i hlocked _
    exact absurd rfl (hlocked seen)

theorem copies_afterScan (call : Call) (again : Bool) (seen : Dir) :
    (call.afterScan again seen).copies = [] := by
  unfold Call.afterScan
  split
  · split_ifs <;> rfl
  · split_ifs <;> rfl
  · rfl

theorem copies_begin (call : Call) : call.begin.copies = [] := by
  unfold Call.begin
  split
  · rfl
  · rfl
  · rfl
  · split_ifs <;> rfl
  · split_ifs <;> rfl
  · rfl

end Vol

namespace Named

/-- A call that has no copies, and writes nothing. -/
theorem idle (h : Named s) (hdisk : t.disk = s.disk) (hpending : ∀ c, t.Pending c → s.Pending c) :
    Named t := by
  refine h.settle ?_ hpending fun c i j name _ _ hj => .inl ?_
  · rw [hdisk]
    exact h.unique
  · rwa [hdisk] at hj

theorem writeBack (h : Named s) (hc : s.Pending c) (hdisk : t.disk = c.writeTo s.disk)
    (hpending : ∀ c', t.Pending c' → s.Pending c') : Named t := by
  have hold := h.fresh c hc
  -- an entry of the disk is one of the copy, or was there before
  have hcases : ∀ {i name}, (t.disk i).named name = true →
      c.Gives i name ∨ sectorOf i ≠ c.sector ∧ (s.disk i).named name = true := by
    intro i name hi
    rw [hdisk] at hi
    have hi : (if decide (sectorOf i = c.sector) = true then c.image i else s.disk i).named name =
        true := hi
    by_cases hsector : sectorOf i = c.sector
    · rw [decide_eq_true hsector] at hi
      exact .inl ⟨hsector, hi⟩
    · rw [decide_eq_false hsector] at hi
      exact .inr ⟨hsector, hi⟩
  refine h.settle (fun i j name hi hj => ?_) hpending fun c' i j name hc' hi hj => ?_
  · obtain hi | ⟨hsi, hi⟩ := hcases hi
    · obtain hj | ⟨hsj, hj⟩ := hcases hj
      · exact hold.inj i j name hi hj
      · exact ((hold.fresh i j name hi hj).resolve_right hsj).symm
    · obtain hj | ⟨hsj, hj⟩ := hcases hj
      · exact (hold.fresh j i name hj hi).resolve_right hsi
      · exact h.unique i j name hi hj
  · obtain hj | ⟨-, hj⟩ := hcases hj
    · by_cases hsector : c.sector = c'.sector
      · exact .inr (hj.1.trans hsector)
      · exact absurd hi (h.apart c c' hc hc' hsector j i name hj)
    · exact .inl hj

theorem run (h : Named s) {k : Nat} (hk : s.tasks[k]? = some task) (hfree : s.NameFree task) :
    Named (s.runTask k task) := by
  have hmem := mem_of_getElem? hk
  unfold Vol.runTask
  cases hstate : task.state with
  | scan again next seen =>
    dsimp only
    refine h.idle rfl fun c hc => (Vol.Pending.of_set rfl hc).resolve_right fun hc => ?_
    split_ifs at hc
    · cases hc
    · rw [Vol.copies_afterScan] at hc
      cases hc
  | locked seen =>
    have hgives := s.lockSection_gifts task.call seen h.unique
    dsimp only
    set q := s.lockSection task.call seen with hq
    have htasks := congrArg (List.set · k ⟨task.call, q.2⟩) (s.lockSection_spec seen hstate).1
    have hpending : ∀ c, (q.1.setTask k task.call q.2).Pending c → s.Pending c ∨ c ∈ q.2.copies :=
      fun c => Vol.Pending.of_set htasks
    cases hcopies : q.2.copies with
    | nil =>
      refine h.settle (fun i j name hi hj => ?_) (fun c hc => ?_) fun c i j name _ _ hj => ?_
      · exact h.unique i j name (hgives.disk i name hi) (hgives.disk j name hj)
      · refine (hpending c hc).resolve_right fun hc => ?_
        rw [hcopies] at hc
        cases hc
      · exact .inl (hgives.disk j name hj)
    | cons c copies =>
      have hdisk := hgives.settled c (by rw [hcopies]; exact mem_cons_self)
      exact h.take _ _ hdisk hpending hgives.image (hfree.locked hstate)
        (Vol.gifts_inj task.call seen h.unique)
  | writes todo =>
    cases todo with
    | nil =>
      dsimp only
      exact h.idle rfl fun c hc => (Vol.Pending.of_set rfl hc).resolve_right not_mem_nil
    | cons w todo =>
      have htail : ∀ c ∈ (writes todo).copies, s.Pending c := fun c hc =>
        .of_tail hmem hstate hc
      cases w with
      | write c =>
        dsimp only
        have hc : s.Pending c := by
          refine ⟨task, hmem, ?_⟩
          rw [hstate]
          exact mem_copies.2 mem_cons_self
        exact h.writeBack hc rfl fun c' hc' => (Vol.Pending.of_set rfl hc').elim id (htail c')
      | sync σ b n =>
        dsimp only
        refine h.take [] (·.image = s.disk.syncLinks b n) rfl (fun c hc => ?_) (fun c hc => ?_)
          (fun g hg => absurd hg not_mem_nil) fun g hg => absurd hg not_mem_nil
        · obtain hc | hc := Vol.Pending.of_set rfl hc
          · exact .inl hc
          · exact (Vol.mem_syncSector hc).symm.imp_left (htail c)
        · have hc : c.image = s.disk.syncLinks b n := hc
          rw [hc]
          exact .of_named fun i name hi => by rwa [Dir.named_syncLinks] at hi
  | done result => exact h

theorem step (h : Named s) (input : Input) (ho : s.Orderly input) : Named (s.step input) := by
  cases input with
  | begin call =>
    refine h.idle rfl fun c ⟨task, htask, hc⟩ => ?_
    obtain htask | htask := mem_append.1 htask
    · exact ⟨task, htask, hc⟩
    · rw [mem_singleton.1 htask, Vol.copies_begin] at hc
      cases hc
  | run k =>
    unfold Vol.step
    dsimp only
    cases hk : s.tasks[k]? with
    | none => exact h
    | some task => exact h.run hk (ho task hk)
  | setOpen i n => exact h.idle rfl fun _ hc => hc

theorem start (h : sfsTasks.start s) : Named s := by
  obtain ⟨-, htasks, hunique⟩ := h
  have hnone : ∀ c, ¬ s.Pending c := by
    intro c ⟨task, htask, _⟩
    rw [htasks] at htask
    cases htask
  refine ⟨fun i j name hi hj => ?_, fun c hc => absurd hc (hnone c),
    fun c _ hc => absurd hc (hnone c)⟩
  exact hunique i j (Record.named_flags hi) (Record.named_flags hj)
    ((Record.named_name hi).trans (Record.named_name hj).symm)

end Named

/-! ## 5. Winners -/

namespace Vol

theorem afterScan_passed {call : Call} {again : Bool}
    (h : (call.afterScan again seen).passed = true) :
    ∃ name excl b, call = .sfsOpen name excl b ∧ again = false ∧ (seen.find name).isSome := by
  unfold Call.afterScan at h
  split at h
  · split_ifs at h with hfound
    · exact ⟨_, _, _, rfl, rfl, hfound⟩
    · cases h
  · split_ifs at h <;> cases h
  · cases h

/-- What is won in an orderly step was not there before. -/
theorem wins_absent {input : Input} (ho : s.Orderly input) (h : s.wins input = some name) :
    ¬ s.Present name := by
  cases input with
  | begin call => cases h
  | setOpen i n => cases h
  | run k =>
    obtain ⟨task, hk, h⟩ := bind_eq_some_iff.1 h
    obtain ⟨hname, hpasses⟩ := filter_eq_some_iff.1 h
    have hfree := ho task hk
    unfold passes at hpasses
    cases hstate : task.state with
    | scan again next seen =>
      rw [hstate] at hpasses
      obtain ⟨name', excl, b, hcall, rfl, hfound⟩ :=
        afterScan_passed (Bool.and_eq_true_iff.1 hpasses).2
      rw [hcall] at hname
      cases excl with
      | false => cases hname
      | true =>
        unfold NameFree at hfree
        rw [hcall, hstate] at hfree
        rw [hfree] at hfound
        cases hfound
    | locked seen =>
      rw [hstate] at hpasses
      obtain ⟨g, hg, rfl, hloser⟩ := gifts_exclusive hname hpasses
      obtain ⟨hdisk, hcopies⟩ := hfree.locked hstate g hg
      rintro (⟨i, hi⟩ | ⟨other, hother, c, hc, i, hi⟩)
      · rw [hloser] at hdisk
        cases (hdisk i hi).1
      · exact hcopies other hother c hc (.inl hloser) i hi
    | writes todo =>
      rw [hstate] at hpasses
      cases hpasses
    | done result =>
      rw [hstate] at hpasses
      cases hpasses

end Vol

/-- Names are unique, and those won are there. -/
structure Won (p : Vol × List Name) : Prop where
  named : Named p.1
  nodup : p.2.Nodup
  present : ∀ name ∈ p.2, p.1.Present name

theorem Won.of_reach {p : Vol × List Name}
    (h : sfsWinners.Reach (fun p input => p.1.Orderly input) p) : Won p := by
  refine h.invariant (fun p hstart => ?_) fun p input _ hi ho => ?_
  · obtain ⟨hstart, hnone⟩ := hstart
    refine ⟨.start hstart, ?_, ?_⟩
    · rw [hnone]
      exact nodup_nil
    · rw [hnone]
      exact fun _ hname => absurd hname not_mem_nil
  refine ⟨hi.named.step input ho, List.Nodup.filter _ ?_, fun name hname => ?_⟩
  · cases hw : p.1.wins input with
    | none => exact hi.nodup
    | some name =>
      refine nodup_cons.2 ⟨fun hmem => ?_, hi.nodup⟩
      exact Vol.wins_absent ho hw (hi.present name hmem)
  · exact of_decide_eq_true (mem_filter.1 hname).2

/-- **In every interleaving of orderly steps no two active entries have one name, and at most one
    exclusive creation of a name succeeds as long as the name is there.** -/
theorem nameUniqueness {p : Vol × List Name}
    (h : sfsWinners.Reach (fun p input => p.1.Orderly input) p) :
    NamesUnique p.1.disk ∧ ∀ name, p.2.count name ≤ 1 :=
  ⟨(Won.of_reach h).named.unique, nodup_iff_count_le_one.1 (Won.of_reach h).nodup⟩

/-! ## 6. One name, twice -/

/-- A directory is made while an entry next to it replaces another one. -/
def creationRun : List Input :=
  [.begin (.sfsMkdir nameC 0o755), .begin (.sfsRename nameA nameB false)] ++
    scanRun 0 ++ scanRun 1 ++ [.run 0, .run 0, .run 1, .run 1]

theorem nameUniqueness_creationRun :
    NamesUnique (sfsWinners.exec (neighbours, []) creationRun).1.disk ∧
      ∀ name, (sfsWinners.exec (neighbours, []) creationRun).2.count name ≤ 1 := by
  have hstart : sfsWinners.start (neighbours, []) := ⟨neighbours_start, rfl⟩
  refine nameUniqueness ((Machine.Reach.start hstart).exec ?_)
  decide +kernel

/-- Both calls have looked for the name before one of them writes it. -/
theorem nameUniqueness_refuted : ¬ (∀ p, sfsWinners.Reachable p → NamesUnique p.1.disk) ∧
      ¬ ∀ p, sfsWinners.Reachable p → ∀ name, p.2.count name ≤ 1 := by
  set run : List Input := [.begin (.sfsMkdir nameC 0o755), .begin (.sfsRename nameA nameC true)] ++
    scanRun 0 ++ scanRun 1 ++ scanRun 1 ++ [.run 0, .run 0, .run 1, .run 1] with hrun
  have hstart : sfsWinners.start (neighbours, []) := ⟨neighbours_start, rfl⟩
  have hreach := Machine.Reachable.exec (.start hstart) run
  refine ⟨fun h => ?_, fun h => ?_⟩
  · have htwo : ((sfsWinners.exec (neighbours, []) run).1.disk 0).named nameC = true ∧
        ((sfsWinners.exec (neighbours, []) run).1.disk 2).named nameC = true := by decide +kernel
    exact absurd (h _ hreach 0 2 nameC htwo.1 htwo.2) (by decide)
  · have htwo : 1 < (sfsWinners.exec (neighbours, []) run).2.count nameC := by decide +kernel
    exact absurd (h _ hreach nameC) (Nat.not_le_of_lt htwo)

end Zigk.Sfs
