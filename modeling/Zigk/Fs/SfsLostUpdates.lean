/-
  Subject:   NO CHANGE OF THE DIRECTORY IS LOST, IF NO SECTOR IS WRITTEN WHILE A COPY OF IT IS OUT.

  * `touches`, `Clear` -- a step writes a sector of which no other call has a copy;
  * `lockSection_spec` -- a lock section takes sound copies, or writes itself;
  * **`directoryUpdates`** -- in every run of clear steps the disk has the change of every call;
    `directoryUpdates_refuted` -- the modes of two neighbours are changed at the same time.
-/
import Zigk.Fs.SfsTasks

namespace Zigk.Sfs

open Function List

/-! ## 1. Clear steps -/

namespace Vol

variable (s : Vol)

/-- The next step of a call writes a sector. -/
def touches (task : Task) (σ : Nat) : Bool :=
  match task.state with
  | .writes (.write c :: _) => c.sector = σ
  | .locked seen =>
    match task.call with
    | .sfsUnlink name => (seen.find name).any fun i => s.holdsName i name && (sectorOf i = σ ||
      (1 < (s.disk i).effective_nlink && !(0 < s.open_counts i) &&
        (List.finRange MAX_FILES).any fun k =>
          sectorOf k = σ && s.disk.linked (s.disk i).start_block k))
    | .truncateFd i _ => sectorOf i = σ
    | _ => false
  | _ => false

/-- No other call has a copy of a sector that is written. -/
def Clear : Input → Prop
  | .run t => ∀ task ∈ s.tasks[t]?, ∀ u < s.tasks.length, u ≠ t → ∀ other ∈ s.tasks[u]?,
    ∀ c ∈ other.state.copies, s.touches task c.sector = false
  | _ => True

instance (input : Input) : Decidable (s.Clear input) :=
  match input with
  | .run t => inferInstanceAs (Decidable (∀ task ∈ s.tasks[t]?, ∀ u < s.tasks.length, u ≠ t →
      ∀ other ∈ s.tasks[u]?, ∀ c ∈ other.state.copies, s.touches task c.sector = false))
  | .begin _ | .setOpen .. => inferInstanceAs (Decidable True)

end Vol

/-! ## 2. Copies -/

variable {s t : Vol} {d d' : Dir} {c : Copy} {i j : Slot} {task : Task} {todo : List Todo}

/-- A copy of a sector of `d` in which the own entries are changed. -/
structure Copy.From (c : Copy) (d : Dir) : Prop where
  own : ∀ i, c.own i = true → sectorOf i = c.sector
  rest : ∀ i, sectorOf i = c.sector → c.own i = false → c.image i = d i

namespace Copy.From

theorem congr (h : c.From d) (hd : ∀ i, sectorOf i = c.sector → d' i = d i) : c.From d' :=
  ⟨h.own, fun i hi ho => (h.rest i hi ho).trans (hd i hi).symm⟩

/-- Only the own entries of a copy reach the disk. -/
theorem writeTo (h : c.From d) : c.writeTo d = d.merge c.own c.image := by
  funext i
  change (if decide (sectorOf i = c.sector) = true then c.image i else d i) =
    if c.own i = true then c.image i else d i
  cases ho : c.own i with
  | true => rw [decide_eq_true (h.own i ho)]
  | false =>
    by_cases hi : sectorOf i = c.sector
    · rw [decide_eq_true hi, if_pos rfl]
      exact h.rest i hi ho
    · rw [decide_eq_false hi]

end Copy.From

/-- A call has one copy of each of its sectors, as the disk has them. -/
def TaskState.Sound (d : Dir) : TaskState → Prop
  | .writes todo => (todo.map Todo.sector).Nodup ∧ ∀ c, .write c ∈ todo → c.From d
  | _ => True

namespace TaskState

theorem mem_copies {todo : List Todo} : c ∈ (TaskState.writes todo).copies ↔ .write c ∈ todo := by
  unfold copies
  rw [mem_filterMap]
  constructor
  · intro ⟨w, hw, hc⟩
    cases w with
    | write c' => cases hc; exact hw
    | sync => cases hc
  · exact fun hc => ⟨_, hc, rfl⟩

/-- The other sectors of the disk do not matter. -/
theorem Sound.congr {state : TaskState} (h : state.Sound d)
    (hd : ∀ c ∈ state.copies, ∀ i, sectorOf i = c.sector → d' i = d i) : state.Sound d' := by
  cases state with
  | writes todo => exact ⟨h.1, fun c hc => (h.2 c hc).congr (hd c (mem_copies.2 hc))⟩
  | scan => trivial
  | locked => trivial
  | done => trivial

end TaskState

/-! ## 3. Steps of a call -/

namespace Vol

theorem sound_edit (s : Vol) (i : Slot) (r : Record) : (s.edit i r).Sound s.disk := by
  refine ⟨nodup_singleton _, fun c hc => ?_⟩
  cases mem_singleton.1 hc
  refine ⟨fun j hj => ?_, fun j _ hj => ?_⟩
  · rw [of_decide_eq_true hj]
  · exact update_of_ne (of_decide_eq_false hj) ..

/-- Two sectors, and more that are other ones. -/
theorem sound_editTwo {own : Slot → Bool} {image : Dir} {more : List Nat} {b n : Nat}
    (hrest : ∀ k, own k = false → (sectorOf k = sectorOf i ∨ sectorOf k = sectorOf j) →
      image k = d k)
    (hmore : more.Nodup) (hi : sectorOf i ∉ more) (hj : sectorOf j ∉ more) :
    (editTwo i j own image (more.map fun ρ => Todo.sync ρ b n)).Sound d := by
  have hfrom : ∀ σ, (σ = sectorOf i ∨ σ = sectorOf j) →
      Copy.From ⟨σ, fun k => own k && sectorOf k = σ, image⟩ d := by
    intro σ hσ
    refine ⟨fun k hk => ?_, fun k hk ho => ?_⟩
    · exact of_decide_eq_true (Bool.and_eq_true_iff.1 hk).2
    · have hk : sectorOf k = σ := hk
      have ho : own k = false := by simpa [hk] using ho
      exact hrest k ho (hσ.imp hk.trans hk.trans)
  have hsync : (more.map fun ρ => Todo.sync ρ b n).map Todo.sector = more := by
    rw [map_map]
    exact map_id more
  have hnone : ∀ c, Todo.write c ∉ more.map fun ρ => Todo.sync ρ b n := by
    intro c hc
    obtain ⟨ρ, -, hρ⟩ := mem_map.1 hc
    cases hρ
  unfold editTwo
  dsimp only
  split_ifs with hsame
  · refine ⟨?_, fun c hc => ?_⟩
    · rw [map_cons, hsync]
      exact nodup_cons.2 ⟨hi, hmore⟩
    obtain hc | hc := mem_cons.1 hc
    · cases hc
      exact hfrom _ (.inl rfl)
    · exact absurd hc (hnone c)
  refine ⟨?_, fun c hc => ?_⟩
  · rw [map_cons, map_cons, hsync]
    refine nodup_cons.2 ⟨?_, nodup_cons.2 ⟨hj, hmore⟩⟩
    intro hmem
    obtain he | hmem := mem_cons.1 hmem
    · exact hsame he
    · exact hi hmem
  obtain hc | hc := mem_cons.1 hc
  · cases hc
    exact hfrom _ (.inl rfl)
  obtain hc | hc := mem_cons.1 hc
  · cases hc
    exact hfrom _ (.inr rfl)
  · exact absurd hc (hnone c)

theorem sound_editPair {own : Slot → Bool} {image : Dir}
    (hrest : ∀ k, own k = false → (sectorOf k = sectorOf i ∨ sectorOf k = sectorOf j) →
      image k = d k) : (editTwo i j own image []).Sound d :=
  sound_editTwo (b := 0) (n := 0) hrest nodup_nil not_mem_nil not_mem_nil

theorem sound_syncSector (s : Vol) {σ b n : Nat}
    (h : (TaskState.writes (.sync σ b n :: todo)).Sound s.disk) :
    (s.syncSector σ b n todo).Sound s.disk := by
  obtain ⟨hnodup, hfrom⟩ := h
  unfold syncSector
  split_ifs
  · refine ⟨hnodup, fun c hc => ?_⟩
    obtain hc | hc := mem_cons.1 hc
    · cases hc
      refine ⟨fun k hk => ?_, fun k hk ho => ?_⟩
      · exact of_decide_eq_true (Bool.and_eq_true_iff.1 hk).1
      have hk : sectorOf k = σ := hk
      have ho : s.disk.linked b k = false := by simpa [hk] using ho
      unfold Dir.syncLinks
      dsimp only
      rw [ho, if_neg Bool.false_ne_true]
    · exact hfrom c (mem_cons_of_mem _ hc)
  · rw [map_cons, nodup_cons] at hnodup
    exact ⟨hnodup.2, fun c hc => hfrom c (mem_cons_of_mem _ hc)⟩

theorem sound_begin (call : Call) : call.begin.Sound d := by
  unfold Call.begin
  split
  · trivial
  · trivial
  · trivial
  · split_ifs <;> trivial
  · split_ifs <;> trivial
  · trivial

theorem sound_afterScan (call : Call) (again : Bool) (seen : Dir) :
    (call.afterScan again seen).Sound d := by
  unfold Call.afterScan
  split
  · split_ifs <;> trivial
  · split_ifs <;> trivial
  · trivial

/-! ## 4. Lock sections -/

/-- A lock section takes copies, or writes entries of sectors that it touches and ends. -/
def Sections (s : Vol) (task : Task) (q : Vol × TaskState) : Prop :=
  q.1.tasks = s.tasks ∧ (q.1.disk = s.disk ∧ q.1.expected = s.expected ∧ q.2.Sound s.disk ∨
      ∃ own image, q.1.disk = s.disk.merge own image ∧ q.1.expected = s.expected.merge own image ∧
        (∀ i, own i = true → s.touches task (sectorOf i) = true) ∧ q.2 = .finish)

theorem Sections.of_sound {state : TaskState} (h : state.Sound s.disk) :
    Sections s task (s, state) := ⟨rfl, .inl ⟨rfl, rfl, h⟩⟩

theorem Sections.fail (err : VfsError) : Sections s task (s, .fail err) := of_sound trivial

theorem sections_setattr (s : Vol) (seen : Dir) (name : Name) (change : Attrs → Attrs) :
    Sections s task (s, s.setattr seen name change) := by
  refine .of_sound ?_
  unfold setattr
  cases seen.find name with
  | none => trivial
  | some i =>
    dsimp only
    split_ifs
    · exact s.sound_edit _ _
    · trivial

theorem sections_openTrunc (s : Vol) (seen : Dir) (name : Name) :
    Sections s task (s, s.openTrunc seen name) := by
  refine .of_sound ?_
  unfold openTrunc
  cases seen.find name with
  | none => trivial
  | some i =>
    dsimp only
    split_ifs
    · trivial
    · trivial
    · trivial
    · exact s.sound_edit _ _

theorem sections_addEntry (s : Vol) (seen : Dir) (r : Record) (recheck opened : Bool) :
    Sections s task (s.addEntry seen r recheck opened) := by
  unfold addEntry
  cases seen.freeSlot with
  | none => exact .fail _
  | some i =>
    dsimp only
    split_ifs
    · exact .fail _
    · exact .fail _
    · exact .fail _
    all_goals exact ⟨rfl, .inl ⟨rfl, rfl, s.sound_edit i r⟩⟩

theorem sections_link (s : Vol) (seen : Dir) (old_name new_name : Name) :
    Sections s task (s.link seen old_name new_name) := by
  unfold link
  split
  · exact .fail _
  · exact .fail _
  · exact .fail _
  rename_i old i _ _ _
  dsimp only
  split_ifs
  · exact .fail _
  · exact .fail _
  · exact .fail _
  · exact .fail _
  refine ⟨rfl, .inl ⟨rfl, rfl, sound_editTwo ?_ ?_ ?_ ?_⟩⟩
  · intro k hk _
    obtain ⟨hki, hlinked⟩ := Bool.or_eq_false_iff.1 hk
    have hadded : update s.disk i (((s.disk old).rename new_name).relink
        ((s.disk old).effective_nlink + 1)) k = s.disk k :=
      update_of_ne (of_decide_eq_false hki) ..
    unfold Dir.syncLinks Dir.linked
    rw [hadded]
    exact if_neg (by rw [← Dir.linked, hlinked]; exact Bool.false_ne_true)
  · exact nodup_range.filter _
  · intro hmem
    exact (of_decide_eq_true (mem_filter.1 hmem).2).1 rfl
  · intro hmem
    exact (of_decide_eq_true (mem_filter.1 hmem).2).2 rfl

theorem sections_rmdir (s : Vol) (seen : Dir) (name : Name) :
    Sections s task (s.rmdir seen name) := by
  unfold rmdir
  cases seen.find name with
  | none => exact .fail _
  | some i =>
    dsimp only
    split_ifs
    · exact .fail _
    · exact .fail _
    · exact .fail _
    · exact ⟨rfl, .inl ⟨rfl, rfl, s.sound_edit _ _⟩⟩

theorem sections_unlink (s : Vol) (seen : Dir) (name : Name)
    (hstate : task.state = .locked seen) (hcall : task.call = .sfsUnlink name) :
    Sections s task (s.unlink seen name) := by
  unfold unlink
  cases hfind : seen.find name with
  | none => exact .fail _
  | some i =>
    dsimp only
    split_ifs with hname hlinks
    · exact .fail _
    all_goals
      have hheld : s.holdsName i name = true := by simpa using hname
    · refine ⟨rfl, .inr ⟨_, _, rfl, rfl, fun k hk => ?_, rfl⟩⟩
      unfold touches
      rw [hstate, hcall]
      dsimp only
      rw [hfind, Option.any_some, hheld, Bool.true_and]
      obtain hk | hk := Bool.or_eq_true_iff.1 hk
      · rw [of_decide_eq_true hk, decide_eq_true rfl, Bool.true_or]
      have hany : (List.finRange MAX_FILES).any (fun m =>
          sectorOf m = sectorOf k && s.disk.linked (s.disk i).start_block m) = true := by
        refine any_eq_true.2 ⟨k, mem_finRange k, ?_⟩
        rw [decide_eq_true rfl, Bool.true_and]
        exact hk
      rw [hany, decide_eq_true hlinks.1, decide_eq_false hlinks.2]
      exact Bool.or_true _
    · refine ⟨rfl, .inr ⟨_, _, rfl, rfl, fun k hk => ?_, rfl⟩⟩
      unfold touches
      rw [hstate, hcall]
      dsimp only
      rw [hfind, Option.any_some, hheld, Bool.true_and, of_decide_eq_true hk, decide_eq_true rfl,
        Bool.true_or]

theorem sections_rename (s : Vol) (seen : Dir) (old_name new_name : Name) :
    Sections s task (s.rename seen old_name new_name) := by
  unfold rename
  split
  · exact .fail _
  rename_i old target _ _
  split_ifs with hname
  · exact .fail _
  cases seen.findLast new_name with
  | none => exact .of_sound (s.sound_edit _ _)
  | some j =>
    dsimp only
    split_ifs
    · exact .fail _
    · refine ⟨rfl, .inl ⟨rfl, rfl, sound_editPair ?_⟩⟩
      intro k hk _
      obtain ⟨hold, hj⟩ := Bool.or_eq_false_iff.1 hk
      exact (update_of_ne (of_decide_eq_false hold) ..).trans
        (update_of_ne (of_decide_eq_false hj) ..)
    · refine .of_sound (sound_editPair ?_)
      intro k hk _
      exact update_of_ne (of_decide_eq_false hk) ..

theorem sections_exchange (s : Vol) (seen : Dir) (old_name new_name : Name) :
    Sections s task (s, s.exchange seen old_name new_name) := by
  unfold exchange
  split
  · exact .fail _
  · exact .fail _
  rename_i old j _ _
  split_ifs with hname
  · refine .of_sound (sound_editPair ?_)
    intro k hk _
    obtain ⟨hold, hj⟩ := Bool.or_eq_false_iff.1 hk
    exact (update_of_ne (of_decide_eq_false hj) ..).trans
      (update_of_ne (of_decide_eq_false hold) ..)
  · exact .fail _

theorem lockSection_spec (s : Vol) (seen : Dir) (hstate : task.state = .locked seen) :
    Sections s task (s.lockSection task.call seen) := by
  unfold lockSection
  cases hcall : task.call with
  | sfsOpen name excl start_block => exact s.sections_addEntry _ _ _ _
  | sfsOpenTrunc name => exact s.sections_openTrunc seen name
  | sfsMkdir name mode =>
    dsimp only
    unfold mkdir
    split_ifs
    · exact .fail _
    · exact s.sections_addEntry _ _ _ _
  | sfsSymlink linkname start_block target_len =>
    dsimp only
    unfold symlink
    split_ifs
    · exact .fail _
    · exact s.sections_addEntry _ _ _ _
  | sfsLink old_name new_name => exact s.sections_link seen old_name new_name
  | sfsRmdir name => exact s.sections_rmdir seen name
  | sfsUnlink name => exact s.sections_unlink seen name hstate hcall
  | sfsChmod name mode => exact s.sections_setattr seen name _
  | sfsChown name uid gid => exact s.sections_setattr seen name _
  | sfsSetTimestamps name atime_sec mtime_sec => exact s.sections_setattr seen name _
  | sfsRename old_name new_name noreplace => exact s.sections_rename seen old_name new_name
  | exchange old_name new_name => exact s.sections_exchange seen old_name new_name
  | sfsWrite i start_block size =>
    dsimp only
    split_ifs
    · exact .of_sound (s.sound_edit _ _)
    · exact .of_sound trivial
  | truncateFd i size =>
    refine ⟨rfl, .inr ⟨_, _, rfl, rfl, fun k hk => ?_, rfl⟩⟩
    unfold touches
    rw [hstate, hcall]
    dsimp only
    rw [of_decide_eq_true hk, decide_eq_true rfl]
  | sfsFdChown i uid gid => exact .of_sound (s.sound_edit _ _)

end Vol

/-! ## 5. Runs -/

/-- The disk is as expected, and every call under way has the sectors of its copies as they are. -/
structure Kept (s : Vol) : Prop where
  expected : s.expected = s.disk
  tasks : ∀ task ∈ s.tasks, task.state.Sound s.disk

namespace Kept

/-- The step of a call: the disk changes in sectors that it touches. -/
theorem of_step (h : Kept s) {k : Nat} {call : Call} {state : TaskState}
    (hk : s.tasks[k]? = some task) (hclear : s.Clear (.run k))
    (htasks : t.tasks = s.tasks.set k ⟨call, state⟩) (hexp : t.expected = t.disk)
    (hdisk : ∀ i, t.disk i = s.disk i ∨ s.touches task (sectorOf i) = true)
    (hstate : state.Sound t.disk) : Kept t := by
  refine ⟨hexp, fun other hother => ?_⟩
  rw [htasks] at hother
  obtain ⟨u, hu⟩ := mem_iff_getElem?.1 hother
  rw [getElem?_set] at hu
  by_cases huk : k = u
  · rw [if_pos huk] at hu
    split_ifs at hu
    cases hu
    exact hstate
  rw [if_neg huk] at hu
  obtain ⟨hlt, -⟩ := List.getElem?_eq_some_iff.1 hu
  refine (h.tasks other (mem_of_getElem? hu)).congr fun c hc i hi => ?_
  obtain hd | htouch := hdisk i
  · exact hd
  · rw [hi, hclear task hk u hlt (Ne.symm huk) other hu c hc] at htouch
    cases htouch

theorem run (h : Kept s) {k : Nat} (hk : s.tasks[k]? = some task) (hclear : s.Clear (.run k)) :
    Kept (s.runTask k task) := by
  have hsound := h.tasks task (mem_of_getElem? hk)
  unfold Vol.runTask
  cases hstate : task.state with
  | scan again next seen =>
    dsimp only
    refine h.of_step hk hclear rfl h.expected (fun i => .inl rfl) ?_
    split_ifs
    · trivial
    · exact Vol.sound_afterScan _ _ _
  | locked seen =>
    obtain ⟨htasks, ⟨hdisk, hexp, hst⟩ | ⟨own, image, hdisk, hexp, hown, hst⟩⟩ :=
      s.lockSection_spec seen hstate
    · refine h.of_step hk hclear (congrArg (List.set · k _) htasks) ?_ (fun i => ?_) ?_
      · exact hexp.trans (h.expected.trans hdisk.symm)
      · exact .inl (congrFun hdisk i)
      · exact hst.congr fun c _ i _ => congrFun hdisk i
    refine h.of_step hk hclear (congrArg (List.set · k _) htasks) ?_ (fun i => ?_) ?_
    · exact hexp.trans ((congrArg (Dir.merge · own image) h.expected).trans hdisk.symm)
    · cases ho : own i with
      | true => exact .inr (hown i ho)
      | false =>
        refine .inl ((congrFun hdisk i).trans ?_)
        unfold Dir.merge
        rw [ho, if_neg Bool.false_ne_true]
    · rw [hst]
      trivial
  | writes todo =>
    rw [hstate] at hsound
    cases todo with
    | nil => exact h.of_step hk hclear rfl h.expected (fun i => .inl rfl) trivial
    | cons w todo =>
      cases w with
      | write c =>
        obtain ⟨hnodup, hfrom⟩ := hsound
        have hc := hfrom c mem_cons_self
        have hother : ∀ i, sectorOf i ≠ c.sector → c.writeTo s.disk i = s.disk i := by
          intro i hi
          change (if decide (sectorOf i = c.sector) = true then c.image i else s.disk i) = s.disk i
          rw [decide_eq_false hi]
          rfl
        refine h.of_step hk hclear rfl ?_ (fun i => ?_) ?_
        · exact (congrArg (Dir.merge · c.own c.image) h.expected).trans hc.writeTo.symm
        · by_cases hi : sectorOf i = c.sector
          · refine .inr ?_
            unfold Vol.touches
            rw [hstate]
            exact decide_eq_true hi.symm
          · exact .inl (hother i hi)
        · rw [map_cons, nodup_cons] at hnodup
          refine ⟨hnodup.2, fun c' hc' => ?_⟩
          refine (hfrom c' (mem_cons_of_mem _ hc')).congr fun i hi => hother i fun he => ?_
          exact hnodup.1 (mem_map.2 ⟨_, hc', hi.symm.trans he⟩)
      | sync σ b n =>
        exact h.of_step hk hclear rfl h.expected (fun i => .inl rfl) (s.sound_syncSector hsound)
  | done result => exact h

theorem step (h : Kept s) (input : Input) (hclear : s.Clear input) : Kept (s.step input) := by
  cases input with
  | begin call =>
    refine ⟨h.expected, fun task htask => ?_⟩
    obtain htask | htask := mem_append.1 htask
    · exact h.tasks task htask
    · rw [mem_singleton.1 htask]
      exact Vol.sound_begin call
  | run k =>
    unfold Vol.step
    dsimp only
    cases hk : s.tasks[k]? with
    | none => exact h
    | some task => exact h.run hk hclear
  | setOpen i n => exact ⟨h.expected, h.tasks⟩

theorem of_reach (h : sfsTasks.Reach Vol.Clear s) : Kept s := by
  refine h.invariant ?_ fun _ input _ hi hc => hi.step input hc
  intro s ⟨hexp, htasks, _⟩
  refine ⟨hexp, fun task htask => ?_⟩
  rw [htasks] at htask
  cases htask

end Kept

/-- **In every interleaving in which no sector is written while another call has a copy of it, the
    directory on the disk has the change of every call.** -/
theorem directoryUpdates (h : sfsTasks.Reach Vol.Clear s) : s.disk = s.expected :=
  (Kept.of_reach h).expected.symm

/-! ## 6. Two neighbours -/

/-- Two files in one sector. -/
def neighbours : Vol where
  disk i := if i = 0 then Vol.newRecord nameA 21 0 .S_IFREG 0o644
    else if i = 1 then Vol.newRecord nameB 22 0 .S_IFREG 0o644 else {}
  expected i := if i = 0 then Vol.newRecord nameA 21 0 .S_IFREG 0o644
    else if i = 1 then Vol.newRecord nameB 22 0 .S_IFREG 0o644 else {}
  file_count := 2
  open_counts _ := 0
  tasks := []

theorem neighbours_start : sfsTasks.start neighbours := by
  refine ⟨rfl, rfl, ?_⟩
  decide +kernel

/-- The scan of the directory by call `t`. -/
def scanRun (t : Nat) : List Input := List.replicate ROOT_DIR_BLOCKS (.run t)

/-- One mode is changed after the other. -/
def chmodRun : List Input :=
  .begin (.sfsChmod nameA 0o600) :: scanRun 0 ++ [.run 0, .run 0, .run 0] ++
    .begin (.sfsChmod nameB 0o600) :: scanRun 1 ++ [.run 1, .run 1, .run 1]

theorem directoryUpdates_chmodRun :
    (sfsTasks.exec neighbours chmodRun).disk = (sfsTasks.exec neighbours chmodRun).expected := by
  refine directoryUpdates ((Machine.Reach.start neighbours_start).exec ?_)
  decide +kernel

/-- Both calls have a copy of the sector when the first one writes it. -/
theorem directoryUpdates_refuted : ¬ ∀ s, sfsTasks.Reachable s → s.disk = s.expected := by
  intro h
  set run : List Input := [.begin (.sfsChmod nameA 0o600), .begin (.sfsChmod nameB 0o600)] ++
    scanRun 0 ++ scanRun 1 ++ [.run 0, .run 1, .run 0, .run 1] with hrun
  have hsame := h _ (Machine.Reachable.exec (.start neighbours_start) run)
  have hperm : ((sfsTasks.exec neighbours run).disk 0).attrs.perm ≠
      ((sfsTasks.exec neighbours run).expected 0).attrs.perm := by decide +kernel
  exact hperm (congrArg (fun d : Dir => (d 0).attrs.perm) hsame)

end Zigk.Sfs
