import FleetUpgrade.Disk.Basic
import Mathlib.Tactic.Common

/-! # What disk operations leave alone

Directories are plain, so a path leads to the same location on every disk on
which it can be followed. `Spares` says that a change of a disk keeps all
directories and the file at one location; every operation spares the locations
that it is not asked to write. `Keeps` lets the file also be taken away.
-/

namespace FleetUpgrade

/-- Where steps lead when every directory on the way is there. -/
def Location.walk : Location → List String → Location
  | loc, [] => loc
  | loc, step :: steps => walk (if step = ".." then loc.parent else loc.child step) steps

namespace Disk

/-- Where a path leads, whether or not something stands there. -/
def place (d : Disk) (path : String) : Location :=
  (d.start path).walk (FilePath.steps path)

def fileAt (d : Disk) (loc : Location) : Option (Nat × ByteArray × Nat) :=
  match d.entry? loc with
  | some (.file number contents mode) => some (number, contents, mode)
  | _ => none

/-! ## Entries -/

theorem lookup_filter_other (entries : List (Location × Entry)) {loc other : Location}
    (h : other ≠ loc) :
    (entries.filter fun e => e.1 ≠ loc).lookup other = entries.lookup other := by
  induction entries with
  | nil => rfl
  | cons e rest ih =>
      obtain ⟨key, entry⟩ := e
      by_cases he : key = loc
      · have hno : (other == key) = false := by simpa [he] using h
        rw [List.filter_cons_of_neg (by simpa using he), ih]
        simp [List.lookup_cons, hno]
      · rw [List.filter_cons_of_pos (by simpa using he), List.lookup_cons, List.lookup_cons, ih]

theorem lookup_filter_self (entries : List (Location × Entry)) (loc : Location) :
    (entries.filter fun e => e.1 ≠ loc).lookup loc = none := by
  induction entries with
  | nil => rfl
  | cons e rest ih =>
      obtain ⟨key, entry⟩ := e
      by_cases he : key = loc
      · rw [List.filter_cons_of_neg (by simpa using he), ih]
      · have hno : (loc == key) = false := by simpa using Ne.symm he
        rw [List.filter_cons_of_pos (by simpa using he), List.lookup_cons, hno, ih]

@[simp] theorem entry?_root (d : Disk) : d.entry? .root = some .directory :=
  if_pos rfl

theorem entry?_withEntry (d : Disk) {loc other : Location} (e : Entry) (h : other ≠ .root) :
    entry? (d.withEntry loc e) other = if other = loc then some e else d.entry? other := by
  unfold entry? withEntry without
  rw [if_neg h, if_neg h]
  by_cases he : other = loc
  · simp [he]
  · have hno : (other == loc) = false := by simpa using he
    simp only [List.lookup_cons, hno, lookup_filter_other d.entries he, if_neg he]

theorem entry?_without (d : Disk) {loc other : Location} (h : other ≠ .root) :
    entry? (d.without loc) other = if other = loc then none else d.entry? other := by
  unfold entry? without
  rw [if_neg h, if_neg h]
  by_cases he : other = loc
  · subst he
    rw [if_pos rfl, lookup_filter_self]
  · rw [if_neg he, lookup_filter_other d.entries he]

theorem isDirectory_iff (d : Disk) (loc : Location) :
    d.isDirectory loc = true ↔ d.entry? loc = some .directory := by
  unfold isDirectory
  cases d.entry? loc with
  | none => simp
  | some e => cases e <;> simp

theorem fileAt_eq_none_iff (d : Disk) (loc : Location) :
    d.fileAt loc = none ↔ d.entry? loc = none ∨ d.entry? loc = some .directory := by
  unfold fileAt
  cases d.entry? loc with
  | none => simp
  | some e => cases e <;> simp

theorem fileAt_eq_some_iff (d : Disk) (loc : Location) (number mode : Nat)
    (contents : ByteArray) :
    d.fileAt loc = some (number, contents, mode) ↔
      d.entry? loc = some (.file number contents mode) := by
  unfold fileAt
  cases d.entry? loc with
  | none => simp
  | some e => cases e <;> simp

/-! ## What the operations do -/

theorem isDirectory_eq_false {d : Disk} {loc : Location}
    (h : d.entry? loc ≠ some .directory) : d.isDirectory loc = false := by
  rw [← Bool.not_eq_true, isDirectory_iff]
  exact h

theorem write?_spec {d d' : Disk} {path : String} {contents : ByteArray}
    (h : d.write? path contents = some d') :
    ∃ loc, d.locate path = some loc ∧
      ((∃ number old mode, d.entry? loc = some (.file number old mode) ∧ mayWrite mode = true ∧
          d' = d.withEntry loc (.file number contents mode)) ∨
        ( d.entry? loc = none ∧ d.mayChange loc = true ∧ d' = d.withNewFile loc contents)) := by
  unfold write? at h
  obtain ⟨loc, hloc, hw⟩ := Option.bind_eq_some_iff.1 h
  refine ⟨loc, hloc, ?_⟩
  cases he : d.entry? loc with
  | none =>
      simp only [he, Option.ite_none_right_eq_some, Option.some.injEq] at hw
      exact Or.inr ⟨rfl, hw.1, hw.2.symm⟩
  | some e =>
      cases e with
      | directory => simp [he] at hw
      | file number old mode =>
          simp only [he, Option.ite_none_right_eq_some, Option.some.injEq] at hw
          exact Or.inl ⟨number, old, mode, rfl, hw.1, hw.2.symm⟩

theorem setMode?_spec {d d' : Disk} {path : String} {mode : Nat}
    (h : d.setMode? path mode = some d') :
    ∃ loc number contents old, d.locate path = some loc ∧
      d.entry? loc = some (.file number contents old) ∧
      d' = d.withEntry loc (.file number contents (mode % 0o10000)) := by
  unfold setMode? at h
  obtain ⟨loc, hloc, hw⟩ := Option.bind_eq_some_iff.1 h
  cases he : d.entry? loc with
  | none => simp [he] at hw
  | some e =>
      cases e with
      | directory => simp [he] at hw
      | file number contents old =>
          simp only [he, Option.some.injEq] at hw
          exact ⟨loc, number, contents, old, hloc, he, hw.symm⟩

theorem rename?_spec {d d' : Disk} {source target : String}
    (h : d.rename? source target = some d') :
    ∃ old new number contents mode, d.locate source = some old ∧ d.locate target = some new ∧
      d.entry? old = some (.file number contents mode) ∧ d.entry? new ≠ some .directory ∧
      d.mayChange old = true ∧ d.mayChange new = true ∧
      d' = (d.without old).withEntry new (.file number contents mode) := by
  unfold rename? at h
  split at h
  · next old new hold hnew =>
      split at h
      · cases h
      · next number contents mode ho hn =>
          simp only [Option.ite_none_right_eq_some, Bool.and_eq_true, Option.some.injEq] at h
          exact ⟨old, new, number, contents, mode, hold, hnew, ho, hn, h.1.1, h.1.2, h.2.symm⟩
      · cases h
  · cases h

/-! ## Following paths -/

theorem follow_eq_walk {d : Disk} {loc found : Location} {steps : List String}
    (h : d.follow loc steps = some found) : found = loc.walk steps := by
  induction steps generalizing loc with
  | nil => exact (Option.some.inj h).symm
  | cons step steps ih =>
      simp only [follow] at h
      simp only [Location.walk]
      split at h
      · split at h
        · next he => rw [if_pos he, ih h]
        · next he =>
            split at h
            · rw [if_neg he, ih h]
            · cases h
      · cases h

theorem follow_mono {d d' : Disk} {loc found : Location} {steps : List String}
    (hdirs : ∀ other, d.isDirectory other = true → d'.isDirectory other = true)
    (h : d.follow loc steps = some found) : d'.follow loc steps = some found := by
  induction steps generalizing loc with
  | nil => exact h
  | cons step steps ih =>
      simp only [follow] at h ⊢
      split at h
      · next hd =>
          rw [if_pos (hdirs loc hd)]
          split at h
          · next he => rw [if_pos he, ih h]
          · next he =>
              rw [if_neg he]
              split at h
              · next hn => rw [if_pos hn, ih h]
              · cases h
      · cases h

theorem locate_eq_place {d : Disk} {path : String} {loc : Location}
    (h : d.locate path = some loc) : loc = d.place path := by
  unfold locate at h
  split at h
  · cases h
  · exact follow_eq_walk h

theorem start_of_here {d d' : Disk} (h : d'.here = d.here) (path : String) :
    d'.start path = d.start path := by
  unfold start
  rw [h]

theorem place_of_here {d d' : Disk} (h : d'.here = d.here) (path : String) :
    d'.place path = d.place path := by
  unfold place
  rw [start_of_here h]

theorem locate_mono {d d' : Disk} {path : String} {loc : Location} (hhere : d'.here = d.here)
    (hdirs : ∀ other, d.isDirectory other = true → d'.isDirectory other = true)
    (h : d.locate path = some loc) : d'.locate path = some loc := by
  unfold locate at h ⊢
  rw [start_of_here hhere]
  split at h
  · cases h
  · next hu =>
      rw [if_neg hu]
      exact follow_mono hdirs h

theorem read?_of_locate {d : Disk} {path : String} {loc : Location}
    (h : d.locate path = some loc) :
    d.read? path = (d.fileAt loc).bind fun file => if mayRead file.2.2 then some file.2.1 else none := by
  unfold read? fileAt
  rw [h, Option.bind_some]
  cases d.entry? loc with
  | none => rfl
  | some e => cases e <;> rfl

/-! ## Sparing a location -/

/-- A change that keeps all directories and the file at `loc`. -/
structure Spares (loc : Location) (d d' : Disk) : Prop where
  here : d'.here = d.here
  directories : ∀ other, d.isDirectory other = true → d'.isDirectory other = true
  file : d'.fileAt loc = d.fileAt loc

theorem Spares.refl (loc : Location) (d : Disk) : Spares loc d d := ⟨rfl, fun _ h => h, rfl⟩

theorem Spares.trans {loc : Location} {d₁ d₂ d₃ : Disk} (h₁ : Spares loc d₁ d₂)
    (h₂ : Spares loc d₂ d₃) : Spares loc d₁ d₃ :=
  ⟨h₂.here.trans h₁.here, fun other h => h₂.directories other (h₁.directories other h),
    h₂.file.trans h₁.file⟩

/-- An entry may be put where no directory stands; it is a directory only where nothing stood. -/
theorem spares_withEntry {d : Disk} {loc spared : Location} {e : Entry}
    (hdir : e = .directory ∨ d.isDirectory loc = false)
    (hspared : spared ≠ loc ∨ (e = .directory ∧ d.entry? loc = none)) :
    Spares spared d (d.withEntry loc e) := by
  refine ⟨rfl, fun other hother => ?_, ?_⟩
  · rw [isDirectory_iff] at hother ⊢
    by_cases hroot : other = .root
    · rw [hroot, entry?_root]
    · rw [entry?_withEntry d e hroot]
      split
      · next he =>
          rcases hdir with rfl | hno
          · rfl
          · rw [← he, ← Bool.not_eq_true, isDirectory_iff] at hno
            exact absurd hother hno
      · exact hother
  · by_cases hroot : spared = .root
    · simp [fileAt, hroot]
    · unfold fileAt
      rw [entry?_withEntry d e hroot]
      by_cases he : spared = loc
      · rcases hspared with hne | ⟨rfl, hnone⟩
        · exact absurd he hne
        · rw [if_pos he, he, hnone]
      · rw [if_neg he]

theorem spares_without {d : Disk} {loc spared : Location} (hno : d.isDirectory loc = false)
    (hne : spared ≠ loc) : Spares spared d (d.without loc) := by
  refine ⟨rfl, fun other hother => ?_, ?_⟩
  · by_cases he : other = loc
    · rw [he, hno] at hother
      cases hother
    · rw [isDirectory_iff] at hother ⊢
      by_cases hroot : other = .root
      · rw [hroot, entry?_root]
      · rw [entry?_without d hroot, if_neg he, hother]
  · by_cases hroot : spared = .root
    · simp [fileAt, hroot]
    · unfold fileAt
      rw [entry?_without d hroot, if_neg hne]

theorem spares_withNewFile {d : Disk} {loc spared : Location} (contents : ByteArray)
    (hno : d.isDirectory loc = false) (hne : spared ≠ loc) :
    Spares spared d (d.withNewFile loc contents) :=
  have h := spares_withEntry (e := .file d.made contents newFileMode) (Or.inr hno) (Or.inl hne)
  ⟨h.here, h.directories, h.file⟩

theorem spares_write? {d d' : Disk} {path : String} {contents : ByteArray} {spared : Location}
    (h : d.write? path contents = some d') (hne : d.place path ≠ spared) :
    Spares spared d d' := by
  obtain ⟨loc, hloc, ⟨number, old, mode, he, -, rfl⟩ | ⟨he, -, rfl⟩⟩ := write?_spec h
  · rw [← locate_eq_place hloc] at hne
    exact spares_withEntry (Or.inr (isDirectory_eq_false (by simp [he]))) (Or.inl (Ne.symm hne))
  · rw [← locate_eq_place hloc] at hne
    exact spares_withNewFile contents (isDirectory_eq_false (by simp [he])) (Ne.symm hne)

theorem spares_setMode? {d d' : Disk} {path : String} {mode : Nat} {spared : Location}
    (h : d.setMode? path mode = some d') (hne : d.place path ≠ spared) : Spares spared d d' := by
  obtain ⟨loc, number, contents, old, hloc, he, rfl⟩ := setMode?_spec h
  rw [← locate_eq_place hloc] at hne
  exact spares_withEntry (Or.inr (isDirectory_eq_false (by simp [he]))) (Or.inl (Ne.symm hne))

theorem spares_rename? {d d' : Disk} {source target : String} {spared : Location}
    (h : d.rename? source target = some d') (hsource : d.place source ≠ spared)
    (htarget : d.place target ≠ spared) : Spares spared d d' := by
  obtain ⟨old, new, number, contents, mode, hold, hnew, ho, hn, -, -, rfl⟩ := rename?_spec h
  rw [← locate_eq_place hold] at hsource
  rw [← locate_eq_place hnew] at htarget
  have hfree : (d.without old).isDirectory new = false := by
    apply isDirectory_eq_false
    by_cases hroot : new = .root
    · exact absurd (by rw [hroot, entry?_root]) hn
    · rw [entry?_without d hroot]
      split
      · simp
      · exact hn
  refine (spares_without (isDirectory_eq_false (by simp [ho])) (Ne.symm hsource)).trans ?_
  exact spares_withEntry (Or.inr hfree) (Or.inl (Ne.symm htarget))

theorem entry?_source_of_rename? {d d' : Disk} {source target : String}
    (h : d.rename? source target = some d') (hne : d.place target ≠ d.place source) :
    d'.entry? (d.place source) = none := by
  obtain ⟨old, new, number, contents, mode, hold, hnew, ho, -, -, -, rfl⟩ := rename?_spec h
  rw [← locate_eq_place hold, ← locate_eq_place hnew] at hne
  rw [← locate_eq_place hold]
  have hroot : old ≠ .root := by
    rintro rfl
    rw [entry?_root] at ho
    cases ho
  rw [entry?_withEntry _ _ hroot, if_neg (Ne.symm hne), entry?_without _ hroot, if_pos rfl]

theorem fileAt_source_of_rename? {d d' : Disk} {source target : String}
    (h : d.rename? source target = some d') (hne : d.place target ≠ d.place source) :
    d'.fileAt (d.place source) = none := by
  rw [fileAt_eq_none_iff, entry?_source_of_rename? h hne]
  exact Or.inl rfl

theorem place_ne_root_of_rename? {d d' : Disk} {source target : String}
    (h : d.rename? source target = some d') : d.place target ≠ .root := by
  obtain ⟨_, new, _, _, _, -, hnew, -, hn, -⟩ := rename?_spec h
  rw [← locate_eq_place hnew]
  rintro rfl
  exact hn (entry?_root d)

theorem place_ne_root_of_write? {d d' : Disk} {path : String} {contents : ByteArray}
    (h : d.write? path contents = some d') : d.place path ≠ .root := by
  obtain ⟨loc, hloc, hhow⟩ := write?_spec h
  rw [← locate_eq_place hloc]
  rintro rfl
  rw [entry?_root] at hhow
  rcases hhow with ⟨_, _, _, he, -⟩ | ⟨he, -⟩
  · cases he
  · cases he

theorem spares_makeSteps (d : Disk) (loc : Location) (steps : List String) (spared : Location) :
    Spares spared d (d.makeSteps loc steps).1 := by
  induction steps generalizing d loc with
  | nil => exact Spares.refl spared d
  | cons step steps ih =>
      simp only [makeSteps]
      split
      · exact ih d loc.parent
      · split
        · cases he : d.entry? (loc.child step) with
          | none =>
              dsimp only
              split
              · refine Spares.trans (spares_withEntry (Or.inl rfl) ?_) (ih _ _)
                exact Or.inr ⟨rfl, he⟩
              · exact Spares.refl spared d
          | some e =>
              cases e with
              | directory => exact ih d (loc.child step)
              | file number contents mode => exact Spares.refl spared d
        · exact Spares.refl spared d

theorem spares_makeParents (d : Disk) (path : String) (spared : Location) :
    Spares spared d (d.makeParents path).1 := by
  unfold makeParents
  split
  · unfold makeDirectories
    split
    · exact spares_makeSteps d _ _ spared
    · exact Spares.refl spared d
  · exact Spares.refl spared d

/-! ## Writing to an open file -/

def overwritten (file : OpenFile) (bytes : ByteArray) (stands : Nat × ByteArray × Nat) :
    Nat × ByteArray × Nat :=
  if stands.1 = file.number then
    (stands.1, overwrite file.position bytes stands.2.1, stands.2.2)
  else stands

theorem entry?_writeTo (d : Disk) (file : OpenFile) (bytes : ByteArray) (loc : Location) :
    entry? (d.writeTo file bytes).2 loc = (d.entry? loc).map fun e =>
      match e with
      | .directory => .directory
      | .file number contents mode =>
          if number = file.number then .file number (overwrite file.position bytes contents) mode
          else .file number contents mode := by
  unfold entry? writeTo
  split
  · rfl
  · induction d.entries with
    | nil => rfl
    | cons e rest ih =>
        obtain ⟨other, entry⟩ := e
        rw [List.map_cons]
        by_cases he : loc = other
        · subst he
          cases entry with
          | directory => simp
          | file number contents mode =>
              by_cases hn : number = file.number
              · simp [hn]
              · simp [hn]
        · have hno : (loc == other) = false := by simpa using he
          cases entry with
          | directory => simpa only [List.lookup_cons, hno] using ih
          | file number contents mode =>
              by_cases hn : number = file.number
              · simpa only [if_pos hn, List.lookup_cons, hno] using ih
              · simpa only [if_neg hn, List.lookup_cons, hno] using ih

theorem isDirectory_writeTo (d : Disk) (file : OpenFile) (bytes : ByteArray) (loc : Location) :
    (d.writeTo file bytes).2.isDirectory loc = d.isDirectory loc := by
  rw [Bool.eq_iff_iff, isDirectory_iff, isDirectory_iff, entry?_writeTo]
  cases d.entry? loc with
  | none => simp
  | some e =>
      cases e with
      | directory => simp
      | file number contents mode =>
          by_cases hn : number = file.number
          · simp [hn]
          · simp [hn]

theorem fileAt_writeTo (d : Disk) (file : OpenFile) (bytes : ByteArray) (loc : Location) :
    (d.writeTo file bytes).2.fileAt loc = (d.fileAt loc).map (overwritten file bytes) := by
  unfold fileAt
  rw [entry?_writeTo]
  cases d.entry? loc with
  | none => rfl
  | some e =>
      cases e with
      | directory => rfl
      | file number contents mode =>
          by_cases hn : number = file.number
          · simp [overwritten, hn]
          · simp [overwritten, hn]

theorem locate_writeTo {d : Disk} {path : String} {loc : Location} (file : OpenFile)
    (bytes : ByteArray) (h : d.locate path = some loc) :
    (d.writeTo file bytes).2.locate path = some loc := by
  refine locate_mono (d := d) rfl (fun other hother => ?_) h
  rwa [isDirectory_writeTo]

/-! ## Keeping a location -/

/-- A change that keeps all directories and alters the file at `loc` in no other way than to take it
away. -/
structure Keeps (loc : Location) (d d' : Disk) : Prop where
  here : d'.here = d.here
  directories : ∀ other, d.isDirectory other = true → d'.isDirectory other = true
  file : d'.fileAt loc = d.fileAt loc ∨ d'.fileAt loc = none

theorem Spares.keeps {loc : Location} {d d' : Disk} (h : Spares loc d d') : Keeps loc d d' :=
  ⟨h.here, h.directories, Or.inl h.file⟩

theorem Keeps.refl (loc : Location) (d : Disk) : Keeps loc d d := (Spares.refl loc d).keeps

theorem Keeps.trans {loc : Location} {d₁ d₂ d₃ : Disk} (h₁ : Keeps loc d₁ d₂)
    (h₂ : Keeps loc d₂ d₃) : Keeps loc d₁ d₃ := by
  refine ⟨h₂.here.trans h₁.here, fun other h => h₂.directories other (h₁.directories other h), ?_⟩
  rcases h₂.file with hsame | hgone
  · rw [hsame]
    exact h₁.file
  · exact Or.inr hgone

/-- Writing a file and moving it over another changes no third file. -/
theorem keeps_replace {d written d' : Disk} {source target : String} {contents : ByteArray}
    {loc : Location} (hwrite : d.write? source contents = some written)
    (hmove : written.rename? source target = some d') (hne : d.place target ≠ loc) :
    Keeps loc d d' := by
  have hroot := place_ne_root_of_write? hwrite
  have hspares := spares_write? hwrite hroot
  have htarget : written.place target ≠ loc := by rwa [place_of_here hspares.here]
  by_cases hsource : d.place source = loc
  · have hgone : d'.fileAt loc = none := by
      have hplace : written.place source = loc := by rwa [place_of_here hspares.here]
      rw [← hplace]
      exact fileAt_source_of_rename? hmove (by rwa [hplace])
    have hmoved : Spares .root written d' := by
      refine spares_rename? hmove ?_ (place_ne_root_of_rename? hmove)
      rwa [place_of_here hspares.here]
    exact ⟨hmoved.here.trans hspares.here,
      fun other h => hmoved.directories other (hspares.directories other h), Or.inr hgone⟩
  · have hmoved := spares_rename? hmove (by rwa [place_of_here hspares.here]) htarget
    exact ((spares_write? hwrite hsource).trans hmoved).keeps

/-! ## Two disks that are read alike -/

/-- A path leads to the same place on two disks as it did at the start, and the file there is the
same or gone from the first. -/
structure Alike (start : Disk) (path : String) (d d' : Disk) : Prop where
  here : d.here = start.here
  located : d.locate path = some (start.place path)
  located' : d'.locate path = some (start.place path)
  file : d.fileAt (start.place path) = d'.fileAt (start.place path) ∨
    d.fileAt (start.place path) = none

namespace Alike

variable {path : String} {start d d' next : Disk}

theorem refl (h : (d.locate path).isSome) : Alike d path d d := by
  obtain ⟨loc, hloc⟩ := Option.isSome_iff_exists.1 h
  obtain rfl := locate_eq_place hloc
  exact ⟨rfl, hloc, hloc, Or.inl rfl⟩

/-- What can be read on the first disk is read on the second. -/
theorem read? (h : Alike start path d d') (hread : (d.read? path).isSome) :
    d.read? path = d'.read? path := by
  rw [read?_of_locate h.located] at hread ⊢
  rw [read?_of_locate h.located']
  rcases h.file with hsame | hgone
  · rw [hsame]
  · simp [hgone] at hread

theorem of_keeps (h : Alike start path d d') (hkeeps : Keeps (start.place path) d next) :
    Alike start path next d' := by
  refine ⟨hkeeps.here.trans h.here, locate_mono hkeeps.here hkeeps.directories h.located,
    h.located', ?_⟩
  rcases hkeeps.file with hkept | hgone
  · rw [hkept]
    exact h.file
  · exact Or.inr hgone

/-- Writing the same to the same open file keeps two disks alike. -/
theorem writeTo (h : Alike start path d d') (file : OpenFile) (bytes : ByteArray) :
    Alike start path (d.writeTo file bytes).2 (d'.writeTo file bytes).2 := by
  refine ⟨h.here, locate_writeTo file bytes h.located, locate_writeTo file bytes h.located', ?_⟩
  rw [fileAt_writeTo, fileAt_writeTo]
  rcases h.file with hsame | hgone
  · exact Or.inl (by rw [hsame])
  · exact Or.inr (by rw [hgone]; rfl)

end Alike
end Disk
end FleetUpgrade
