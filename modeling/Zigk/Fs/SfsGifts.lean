/-
  Subject:   THE NAMES THAT A LOCK SECTION GIVES.

  * `Gift`, `gifts` -- an entry gets a name, if the checks under the lock pass;
  * `Dir.Image`, `Vol.GivesNames` -- a directory whose names are those of another one or gifts;
  * **`lockSection_gifts`** -- the names of a copy come from the disk or are gifts;
    `gifts_inj`, `gifts_exclusive` -- no name is given twice, and an exclusive creation that
    passes its lock section gives its name.
-/
import Zigk.Fs.SfsLostUpdates

namespace Zigk.Sfs

open Function List Option Bool Record

/-! ## 1. Gifts -/

/-- No two active entries have the same name. -/
def NamesUnique (d : Dir) : Prop :=
  ∀ i j name, (d i).named name = true → (d j).named name = true → i = j

/-- The name that a call creates and must not find. -/
def Call.exclusive : Call → Option Name
  | .sfsOpen name true _ => some name
  | .sfsMkdir name _ => some name
  | .sfsSymlink linkname .. => some linkname
  | .sfsLink _ new_name => some new_name
  | .sfsRename _ new_name true => some new_name
  | _ => none

/-- A call that got so far returns success. -/
def TaskState.passed : TaskState → Bool
  | .writes _ => true
  | .done (.ok _) => true
  | _ => false

/-- An entry gets a name, and the entry `loser` loses it. -/
structure Gift where
  slot : Slot
  name : Name
  loser : Option Slot

namespace Vol

variable (s : Vol)

/-- The slot of a new entry, if the checks under the lock pass. -/
def newSlot (seen : Dir) (name : Name) (recheck : Bool) : Option Slot :=
  seen.freeSlot.filter fun i => s.file_count < MAX_FILES && !(s.disk i).flags &&
    !(recheck && (List.finRange MAX_FILES).any fun j =>
      sectorOf j = sectorOf i && s.holdsName j name)

def newGift (seen : Dir) (name : Name) (recheck : Bool) : List Gift :=
  (s.newSlot seen name recheck).toList.map (⟨·, name, none⟩)

def linkGifts (seen : Dir) (old_name new_name : Name) : List Gift :=
  match seen.find new_name, seen.findLast old_name with
  | none, some old =>
    if (seen old).isRegularFile && s.holdsName old old_name then s.newGift seen new_name false
    else []
  | _, _ => []

def renameGifts (seen : Dir) (old_name new_name : Name) (noreplace : Bool) : List Gift :=
  match seen.findLast old_name with
  | none => []
  | some old =>
    if !s.holdsName old old_name then []
    else if (seen.findLast new_name).any fun j => (s.disk j).flags && (s.disk j).isDirectory then
      []
    else [⟨old, new_name, if noreplace then none else seen.findLast new_name⟩]

def exchangeGifts (seen : Dir) (old_name new_name : Name) : List Gift :=
  match seen.findLast old_name, seen.findLast new_name with
  | some old, some j =>
    if s.holdsName old old_name && s.holdsName j new_name then
      [⟨old, new_name, some j⟩, ⟨j, old_name, some old⟩]
    else []
  | _, _ => []

/-- The names that a lock section gives, if its checks pass. -/
def gifts (call : Call) (seen : Dir) : List Gift :=
  match call with
  | .sfsOpen name _ _ => s.newGift seen name false
  | .sfsMkdir name _ => if (seen.find name).isSome then [] else s.newGift seen name true
  | .sfsSymlink linkname .. =>
    if (seen.find linkname).isSome then [] else s.newGift seen linkname false
  | .sfsLink old_name new_name => s.linkGifts seen old_name new_name
  | .sfsRename old_name new_name noreplace => s.renameGifts seen old_name new_name noreplace
  | .exchange old_name new_name => s.exchangeGifts seen old_name new_name
  | _ => []

end Vol

/-! ## 2. Images -/

variable {s t : Vol} {d : Dir} {c c' : Copy} {i j k : Slot} {name : Name} {g g' : Gift}
  {gifts : List Gift} {image : Dir} {todo : List Todo} {task : Task} {seen : Dir}

/-- Where the names of a directory come from that is made from another one. -/
structure Dir.Image (d : Dir) (gifts : List Gift) (image : Dir) : Prop where
  source : ∀ i name, (image i).named name = true →
    (d i).named name = true ∨ ∃ g ∈ gifts, g.slot = i ∧ g.name = name
  loser : ∀ g ∈ gifts, ∀ k, g.loser = some k → (image k).named g.name = true → k = g.slot

/-- No name is given to two entries. -/
def GiftsInj (gifts : List Gift) : Prop :=
  ∀ g ∈ gifts, ∀ g' ∈ gifts, g.name = g'.name → g.slot = g'.slot

variable {r : Record} {recheck : Bool} {old_name : Name}

namespace Record

theorem named_remove (r : Record) (is_open : Bool) : (r.remove is_open).named name = false := rfl

theorem named_flags (h : r.named name = true) : r.flags = true :=
  (and_eq_true_iff.1 h).1

theorem named_name (h : r.named name = true) : r.name = name :=
  of_decide_eq_true (and_eq_true_iff.1 h).2

end Record

namespace Dir

theorem named_syncLinks (b n : Nat) : (d.syncLinks b n i).named name = (d i).named name := by
  unfold syncLinks
  split_ifs <;> rfl

/-- No entry gets a name that it has not. -/
theorem Image.of_named (h : ∀ i name, (image i).named name = true → (d i).named name = true) :
    d.Image [] image :=
  ⟨fun i name hi => .inl (h i name hi), fun _ hg => absurd hg not_mem_nil⟩

/-- One entry gets another value, with its name or a new one. -/
theorem Image.record (hname : ∀ name, r.named name = true →
      (d i).named name = true ∨ ∃ g ∈ gifts, g.slot = i ∧ g.name = name)
    (hloser : ∀ g ∈ gifts, g.loser = none) : d.Image gifts (update d i r) := by
  refine ⟨fun k name hk => ?_, fun g hg k hk => ?_⟩
  · by_cases hki : k = i
    · subst hki
      rw [update_self] at hk
      exact hname name hk
    · rw [update_of_ne hki] at hk
      exact .inl hk
  · rw [hloser g hg] at hk
    cases hk

/-- The gift may as well take the name from no entry. -/
theorem Image.forget {target : Option Slot} (h : d.Image [⟨i, name, target⟩] image) :
    d.Image [⟨i, name, none⟩] image := by
  refine ⟨fun k name hk => ?_, fun g hg k hk => ?_⟩
  · obtain hsame | ⟨g, hg, hgk⟩ := h.source k name hk
    · exact .inl hsame
    · cases mem_singleton.1 hg
      exact .inr ⟨_, mem_singleton_self _, hgk⟩
  · cases mem_singleton.1 hg
    cases hk

theorem Image.record_same (hname : ∀ name, r.named name = true →
    (d i).named name = true) : d.Image [] (update d i r) :=
  .record (fun name h => .inl (hname name h)) fun _ hg => absurd hg not_mem_nil

end Dir

/-! ## 3. Lock sections -/

/-- What a lock section does with names: it takes none from elsewhere, and its copies have the
    gifts in them. -/
structure Vol.GivesNames (s : Vol) (gifts : List Gift) (q : Vol × TaskState) : Prop where
  disk : ∀ i name, (q.1.disk i).named name = true → (s.disk i).named name = true
  settled : ∀ c ∈ q.2.copies, q.1.disk = s.disk
  image : ∀ c ∈ q.2.copies, s.disk.Image gifts c.image

variable {q : Vol × TaskState}

namespace Vol

theorem mem_edit (hc : c ∈ (s.edit i r).copies) :
    c.image = update s.disk i r := by
  cases mem_singleton.1 (TaskState.mem_copies.1 hc)
  rfl

theorem mem_editTwo {own : Slot → Bool} {more : List Nat} {b n : Nat}
    (hc : c ∈ (editTwo i j own image (more.map fun ρ => Todo.sync ρ b n)).copies) :
    c.image = image := by
  have hnone : Todo.write c ∉ more.map fun ρ => Todo.sync ρ b n := by
    intro hmem
    obtain ⟨ρ, -, hρ⟩ := mem_map.1 hmem
    cases hρ
  have hmem := TaskState.mem_copies.1 hc
  split_ifs at hmem
  · obtain he | hmem := mem_cons.1 hmem
    · cases he
      rfl
    · exact absurd hmem hnone
  obtain he | hmem := mem_cons.1 hmem
  · cases he
    rfl
  obtain he | hmem := mem_cons.1 hmem
  · cases he
    rfl
  · exact absurd hmem hnone

theorem mem_editPair {own : Slot → Bool} (hc : c ∈ (editTwo i j own image []).copies) :
    c.image = image := by
  have hnil : ([] : List Nat).map (fun ρ => Todo.sync ρ 0 0) = [] := rfl
  rw [← hnil] at hc
  exact mem_editTwo hc

namespace GivesNames

/-- Copies are taken, and nothing is written. -/
theorem of_image (hdisk : q.1.disk = s.disk)
    (himage : ∀ c ∈ q.2.copies, s.disk.Image gifts c.image) : s.GivesNames gifts q :=
  ⟨fun i name h => by rwa [hdisk] at h, fun _ _ => hdisk, himage⟩

theorem ended (hdisk : q.1.disk = s.disk) (hnone : q.2.copies = []) :
    s.GivesNames gifts q :=
  of_image hdisk fun c hc => by
    rw [hnone] at hc
    exact absurd hc not_mem_nil

theorem fail (err : VfsError) : s.GivesNames gifts (s, .fail err) := ended rfl rfl

end GivesNames

theorem givesNames_edit (hdisk : q.1.disk = s.disk) (hstate : q.2 = s.edit i r)
    (hname : ∀ name, r.named name = true → (s.disk i).named name = true) :
    s.GivesNames [] q := by
  refine .of_image hdisk fun c hc => ?_
  rw [hstate] at hc
  rw [mem_edit hc]
  exact .record_same hname

theorem newSlot_eq (hslot : seen.freeSlot = some i)
    (hcount : ¬ MAX_FILES ≤ s.file_count) (hfree : ¬ (s.disk i).flags = true)
    (hcheck : ¬ (recheck && (List.finRange MAX_FILES).any fun j =>
      sectorOf j = sectorOf i && s.holdsName j name) = true) :
    s.newSlot seen name recheck = some i := by
  unfold newSlot
  rw [hslot, Option.filter_some, if_pos]
  rw [decide_eq_true (Nat.lt_of_not_le hcount), eq_false_of_not_eq_true hfree,
    eq_false_of_not_eq_true hcheck]
  rfl

theorem newGift_eq (h : s.newSlot seen name recheck = some i) :
    s.newGift seen name recheck = [⟨i, name, none⟩] := by
  unfold newGift
  rw [h]
  rfl

theorem newGift_loser : ∀ g ∈ s.newGift seen name recheck, g.loser = none := by
  intro g hg
  obtain ⟨i, -, rfl⟩ := mem_map.1 hg
  rfl

theorem newRecord_name (name : Name) {start_block size : Nat} {mode : FileType} {perm : Nat} :
    (newRecord name start_block size mode perm).name = name := rfl

theorem givesNames_addEntry (s : Vol) (seen : Dir) (hr : r.name = name) (recheck opened : Bool) :
    s.GivesNames (s.newGift seen name recheck) (s.addEntry seen r recheck opened) := by
  subst hr
  unfold addEntry
  cases hslot : seen.freeSlot with
  | none => exact .fail _
  | some i =>
    dsimp only
    split_ifs with hcount hfree hcheck
    · exact .fail _
    · exact .fail _
    · exact .fail _
    all_goals
      refine .of_image rfl fun c hc => ?_
      rw [mem_edit hc]
      refine .record (fun name hname => .inr ?_) newGift_loser
      rw [newGift_eq (newSlot_eq hslot hcount hfree hcheck)]
      exact ⟨_, mem_singleton_self _, rfl, named_name hname⟩

theorem linkGifts_eq {new_name : Name} {old : Slot} (hfind : seen.find new_name = none)
    (hold : seen.findLast old_name = some old) (hregular : ¬ (!(seen old).isRegularFile) = true)
    (hheld : ¬ (!s.holdsName old old_name) = true) :
    s.linkGifts seen old_name new_name = s.newGift seen new_name false := by
  unfold linkGifts
  rw [hfind, hold]
  refine if_pos ?_
  simpa using And.intro hregular hheld

theorem givesNames_link (s : Vol) (seen : Dir) (old_name new_name : Name) :
    s.GivesNames (s.linkGifts seen old_name new_name) (s.link seen old_name new_name) := by
  unfold link
  split
  · exact .fail _
  · exact .fail _
  · exact .fail _
  rename_i old i hfind hold hslot
  dsimp only
  split_ifs with hregular hcount hheld hfree
  · exact .fail _
  · exact .fail _
  · exact .fail _
  · exact .fail _
  rw [linkGifts_eq hfind hold hregular hheld]
  refine .of_image rfl fun c hc => ?_
  rw [mem_editTwo hc]
  have hupdate : s.disk.Image (s.newGift seen new_name false) (update s.disk i
      (((s.disk old).rename new_name).relink ((s.disk old).effective_nlink + 1))) := by
    refine .record (fun name hname => .inr ?_) newGift_loser
    rw [newGift_eq (newSlot_eq hslot hcount hfree (by simp))]
    exact ⟨_, mem_singleton_self _, rfl, named_name hname⟩
  refine ⟨fun k name hk => ?_, fun g hg k hk => ?_⟩
  · rw [Dir.named_syncLinks] at hk
    exact hupdate.source k name hk
  · rw [newGift_loser g hg] at hk
    cases hk

/-- The old entry gets the name, in a directory where the other one has it no more. -/
theorem image_rename {old : Slot} {new_name : Name} {target : Option Slot}
    (hsource : ∀ i name, (d i).named name = true → (s.disk i).named name = true)
    (hgone : ∀ j ∈ target, j ≠ old → (d j).named new_name = false) :
    s.disk.Image [⟨old, new_name, target⟩] (update d old (r.rename new_name)) := by
  refine ⟨fun i name hi => ?_, fun g hg k hk hnamed => ?_⟩
  · by_cases hold : i = old
    · subst hold
      rw [update_self] at hi
      exact .inr ⟨_, mem_singleton_self _, rfl, named_name hi⟩
    · rw [update_of_ne hold] at hi
      exact .inl (hsource i name hi)
  · cases mem_singleton.1 hg
    by_contra hold
    rw [update_of_ne hold, hgone k hk hold] at hnamed
    cases hnamed

theorem givesNames_rename (s : Vol) (seen : Dir) (old_name new_name : Name) (noreplace : Bool) :
    s.GivesNames (s.renameGifts seen old_name new_name noreplace)
      (s.rename seen old_name new_name) := by
  unfold rename renameGifts
  cases seen.findLast old_name with
  | none => exact .fail _
  | some old =>
    dsimp only
    by_cases hheld : (!s.holdsName old old_name) = true
    · rw [if_pos hheld, if_pos hheld]
      exact .fail _
    rw [if_neg hheld, if_neg hheld]
    have hgift : ∀ {target image}, s.disk.Image [⟨old, new_name, target⟩] image →
        s.disk.Image [⟨old, new_name, if noreplace then none else target⟩] image := by
      intro target image h
      cases noreplace with
      | false => exact h
      | true => exact h.forget
    cases seen.findLast new_name with
    | none =>
      refine .of_image rfl fun c hc => ?_
      rw [mem_edit hc]
      exact hgift (image_rename (fun _ _ h => h) fun j hj => absurd hj (not_mem_none j))
    | some j =>
      rw [any_some]
      dsimp only
      cases hactive : (s.disk j).flags with
      | false =>
        refine .of_image rfl fun c hc => ?_
        rw [mem_editPair hc]
        refine hgift (image_rename (fun _ _ h => h) fun k hk _ => ?_)
        cases hk
        unfold named
        rw [hactive]
        rfl
      | true =>
        cases hdirectory : (s.disk j).isDirectory with
        | true => exact .fail _
        | false =>
          refine .of_image rfl fun c hc => ?_
          rw [mem_editPair hc]
          refine hgift (image_rename (fun i name hi => ?_) fun k hk _ => ?_)
          · by_cases hij : i = j
            · subst hij
              rw [update_self, named_remove] at hi
              cases hi
            · rwa [update_of_ne hij] at hi
          · cases hk
            rw [update_self]
            rfl

theorem givesNames_exchange (s : Vol) (seen : Dir) (old_name new_name : Name)
    (hunique : NamesUnique s.disk) :
    s.GivesNames (s.exchangeGifts seen old_name new_name)
      (s, s.exchange seen old_name new_name) := by
  unfold exchange exchangeGifts
  cases seen.findLast old_name with
  | none => exact .fail _
  | some old =>
    cases seen.findLast new_name with
    | none => exact .fail _
    | some j =>
      dsimp only
      split_ifs with hheld
      · obtain ⟨hold, hj⟩ := and_eq_true_iff.1 hheld
        refine .of_image rfl fun c hc => ?_
        rw [mem_editPair hc]
        refine ⟨fun i name hi => ?_, fun g hg k hk hnamed => ?_⟩
        · by_cases hij : i = j
          · subst hij
            rw [update_self] at hi
            exact .inr ⟨_, mem_cons_of_mem _ (mem_singleton_self _), rfl,
              named_name hi⟩
          rw [update_of_ne hij] at hi
          by_cases hio : i = old
          · subst hio
            rw [update_self] at hi
            exact .inr ⟨_, mem_cons_self, rfl, named_name hi⟩
          · rw [update_of_ne hio] at hi
            exact .inl hi
        have hsame : new_name = old_name → old = j := fun he =>
          hunique old j old_name hold (he ▸ hj)
        obtain hg | hg := mem_cons.1 hg
        · cases hg
          cases hk
          rw [update_self] at hnamed
          exact (hsame (named_name hnamed).symm).symm
        cases mem_singleton.1 hg
        cases hk
        by_contra hne
        rw [update_of_ne hne, update_self] at hnamed
        exact hne (hsame (named_name hnamed))
      · exact .fail _

theorem givesNames_unlink (s : Vol) (seen : Dir) (name : Name) :
    s.GivesNames [] (s.unlink seen name) := by
  have hupdate : ∀ {i : Slot} {is_open : Bool} {k : Slot} {name : Name},
      (update s.disk i ((s.disk i).remove is_open) k).named name = true →
        (s.disk k).named name = true := by
    intro i is_open k name hk
    by_cases hki : k = i
    · subst hki
      rw [update_self, named_remove] at hk
      cases hk
    · rwa [update_of_ne hki] at hk
  -- the sectors are written at once, and no copy is left
  have hcommit : ∀ {own : Slot → Bool} {image : Dir},
      (∀ k name, (image k).named name = true → (s.disk k).named name = true) →
      s.GivesNames [] ((s.setFileCount (s.file_count - 1)).commit own image, .finish) := by
    intro own image himage
    refine ⟨fun k name hk => ?_, fun c hc => absurd hc not_mem_nil,
      fun c hc => absurd hc not_mem_nil⟩
    have hk : (if own k = true then image k else s.disk k).named name = true := hk
    split_ifs at hk
    · exact himage k name hk
    · exact hk
  unfold unlink
  cases seen.find name with
  | none => exact .fail _
  | some i =>
    dsimp only
    split_ifs
    · exact .fail _
    · refine hcommit fun k name hk => ?_
      rw [Dir.named_syncLinks] at hk
      exact hupdate hk
    · exact hcommit fun k name hk => hupdate hk

theorem givesNames_rmdir (s : Vol) (seen : Dir) (name : Name) :
    s.GivesNames [] (s.rmdir seen name) := by
  unfold rmdir
  cases seen.find name with
  | none => exact .fail _
  | some i =>
    dsimp only
    split_ifs
    · exact .fail _
    · exact .fail _
    · exact .fail _
    · exact givesNames_edit rfl rfl fun _ h => nomatch h

theorem givesNames_setattr (s : Vol) (seen : Dir) (name : Name) (change : Attrs → Attrs) :
    s.GivesNames [] (s, s.setattr seen name change) := by
  unfold setattr
  cases seen.find name with
  | none => exact .fail _
  | some i =>
    dsimp only
    split_ifs
    · exact givesNames_edit rfl rfl fun _ h => h
    · exact .fail _

theorem givesNames_openTrunc (s : Vol) (seen : Dir) (name : Name) :
    s.GivesNames [] (s, s.openTrunc seen name) := by
  unfold openTrunc
  cases seen.find name with
  | none => exact .fail _
  | some i =>
    dsimp only
    split_ifs
    · exact .ended rfl rfl
    · exact .fail _
    · exact .fail _
    · exact givesNames_edit rfl rfl fun _ h => h

theorem lockSection_gifts (s : Vol) (call : Call) (seen : Dir) (hunique : NamesUnique s.disk) :
    s.GivesNames (s.gifts call seen) (s.lockSection call seen) := by
  unfold lockSection gifts
  cases call with
  | sfsOpen name excl start_block => exact s.givesNames_addEntry seen (newRecord_name name) _ _
  | sfsOpenTrunc name => exact s.givesNames_openTrunc seen name
  | sfsMkdir name mode =>
    dsimp only
    unfold mkdir
    split_ifs
    · exact .fail _
    · exact s.givesNames_addEntry seen (newRecord_name _) _ _
  | sfsSymlink linkname start_block target_len =>
    dsimp only
    unfold symlink
    split_ifs
    · exact .fail _
    · exact s.givesNames_addEntry seen (newRecord_name _) _ _
  | sfsLink old_name new_name => exact s.givesNames_link seen old_name new_name
  | sfsRmdir name => exact s.givesNames_rmdir seen name
  | sfsUnlink name => exact s.givesNames_unlink seen name
  | sfsChmod name mode => exact s.givesNames_setattr seen name _
  | sfsChown name uid gid => exact s.givesNames_setattr seen name _
  | sfsSetTimestamps name atime_sec mtime_sec => exact s.givesNames_setattr seen name _
  | sfsRename old_name new_name noreplace =>
    exact s.givesNames_rename seen old_name new_name noreplace
  | exchange old_name new_name => exact s.givesNames_exchange seen old_name new_name hunique
  | sfsWrite i start_block size =>
    dsimp only
    split_ifs
    · exact givesNames_edit rfl rfl fun _ h => h
    · exact .ended rfl rfl
  | truncateFd i size =>
    refine ⟨fun k name hk => ?_, fun c hc => absurd hc not_mem_nil,
      fun c hc => absurd hc not_mem_nil⟩
    have hk : (if decide (k = i) = true then update s.disk i ((s.disk i).resize size) k
        else s.disk k).named name = true := hk
    by_cases hki : k = i
    · subst hki
      rw [decide_eq_true rfl, if_pos rfl, update_self] at hk
      exact hk
    · rw [decide_eq_false hki] at hk
      exact hk
  | sfsFdChown i uid gid => exact givesNames_edit rfl rfl fun _ h => h

theorem newGift_inj : GiftsInj (s.newGift seen name recheck) := by
  intro g hg g' hg' _
  unfold newGift at hg hg'
  cases hslot : s.newSlot seen name recheck with
  | none =>
    rw [hslot] at hg
    cases hg
  | some i =>
    rw [hslot] at hg hg'
    rw [mem_singleton.1 hg, mem_singleton.1 hg']

theorem gifts_inj (call : Call) (seen : Dir) (hunique : NamesUnique s.disk) :
    GiftsInj (s.gifts call seen) := by
  have hnil : GiftsInj [] := fun g hg => absurd hg not_mem_nil
  unfold gifts
  split
  · exact newGift_inj
  · split_ifs
    · exact hnil
    · exact newGift_inj
  · split_ifs
    · exact hnil
    · exact newGift_inj
  · unfold linkGifts
    split
    · split_ifs
      · exact newGift_inj
      · exact hnil
    · exact hnil
  · unfold renameGifts
    split
    · exact hnil
    split_ifs
    · exact hnil
    · exact hnil
    all_goals
      intro g hg g' hg' _
      rw [mem_singleton.1 hg, mem_singleton.1 hg']
  · unfold exchangeGifts
    split
    · rename_i old_name new_name _ _ old j _ _
      split_ifs with hheld
      · obtain ⟨hold, hj⟩ := and_eq_true_iff.1 hheld
        have hsame : new_name = old_name → old = j := fun he =>
          hunique old j old_name hold (he ▸ hj)
        intro g hg g' hg' hname
        obtain hg | hg := mem_cons.1 hg <;> obtain hg' | hg' := mem_cons.1 hg'
        · rw [hg, hg']
        · cases hg
          cases mem_singleton.1 hg'
          exact hsame hname
        · cases hg'
          cases mem_singleton.1 hg
          exact (hsame hname.symm).symm
        · rw [mem_singleton.1 hg, mem_singleton.1 hg']
      · exact hnil
    · exact hnil
  · exact hnil

end Vol

/-! ## 4. Exclusive creations -/

namespace Vol

theorem newGift_of_passed {opened : Bool} (hr : r.name = name)
    (h : (s.addEntry seen r recheck opened).2.passed = true) :
    ∃ g ∈ s.newGift seen name recheck, g.name = name ∧ g.loser = none := by
  subst hr
  unfold addEntry at h
  cases hslot : seen.freeSlot with
  | none =>
    rw [hslot] at h
    cases h
  | some i =>
    rw [hslot] at h
    dsimp only at h
    split_ifs at h with hcount hfree hcheck
    · cases h
    · cases h
    · cases h
    all_goals
      rw [newGift_eq (newSlot_eq hslot hcount hfree hcheck)]
      exact ⟨_, mem_singleton_self _, rfl, rfl⟩

theorem linkGifts_of_passed (h : (s.link seen old_name name).2.passed = true) :
    ∃ g ∈ s.linkGifts seen old_name name, g.name = name ∧ g.loser = none := by
  unfold link at h
  split at h
  · cases h
  · cases h
  · cases h
  rename_i old i hfind hold hslot
  dsimp only at h
  split_ifs at h with hregular hcount hheld hfree
  · cases h
  · cases h
  · cases h
  · cases h
  · rw [linkGifts_eq hfind hold hregular hheld,
      newGift_eq (newSlot_eq hslot hcount hfree (by simp))]
    exact ⟨_, mem_singleton_self _, rfl, rfl⟩

theorem renameGifts_of_passed (h : (s.rename seen old_name name).2.passed = true) :
    ∃ g ∈ s.renameGifts seen old_name name true, g.name = name ∧ g.loser = none := by
  unfold rename at h
  unfold renameGifts
  cases hold : seen.findLast old_name with
  | none =>
    rw [hold] at h
    cases h
  | some old =>
    rw [hold] at h
    dsimp only at h ⊢
    by_cases hheld : (!s.holdsName old old_name) = true
    · rw [if_pos hheld] at h
      cases h
    rw [if_neg hheld] at h ⊢
    by_cases hdirectory : ((seen.findLast name).any fun j =>
        (s.disk j).flags && (s.disk j).isDirectory) = true
    · cases hlast : seen.findLast name with
      | none =>
        rw [hlast] at hdirectory
        cases hdirectory
      | some j =>
        rw [hlast, any_some] at hdirectory
        obtain ⟨hactive, hdir⟩ := and_eq_true_iff.1 hdirectory
        rw [hlast] at h
        dsimp only at h
        rw [if_pos hactive, if_pos hdir] at h
        cases h
    · rw [if_neg hdirectory]
      exact ⟨_, mem_singleton_self _, rfl, rfl⟩

/-- An exclusive creation that passes its lock section gives its name, and takes it from none. -/
theorem gifts_exclusive {call : Call} (hname : call.exclusive = some name)
    (hpassed : (s.lockSection call seen).2.passed = true) :
    ∃ g ∈ s.gifts call seen, g.name = name ∧ g.loser = none := by
  unfold Call.exclusive at hname
  split at hname
  · cases hname
    exact newGift_of_passed (newRecord_name _) hpassed
  · cases hname
    have hpassed : (s.mkdir seen name _).2.passed = true := hpassed
    change ∃ g ∈ if (seen.find name).isSome = true then [] else s.newGift seen name true, _
    unfold mkdir at hpassed
    split_ifs at hpassed ⊢
    · cases hpassed
    · exact newGift_of_passed (newRecord_name _) hpassed
  · cases hname
    have hpassed : (s.symlink seen name _ _).2.passed = true := hpassed
    change ∃ g ∈ if (seen.find name).isSome = true then [] else s.newGift seen name false, _
    unfold symlink at hpassed
    split_ifs at hpassed ⊢
    · cases hpassed
    · exact newGift_of_passed (newRecord_name _) hpassed
  · cases hname
    exact linkGifts_of_passed hpassed
  · cases hname
    exact renameGifts_of_passed hpassed
  · cases hname

end Vol

end Zigk.Sfs
