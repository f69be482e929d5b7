import FleetUpgrade.Proofs.DiskFrame
import FleetUpgrade.Proofs.TextParts
import FleetUpgrade.Store.File

/-! # Replacing a file by a rename

The file that is written stands at another place than the file it is moved over,
since its name is longer. So the old file stands untouched until the move, and a
move that went through once goes through again.
-/

namespace FleetUpgrade

/-! ## The last part of a text -/

namespace Text

/-- Texts without the separator are told apart by what follows the last one. -/
theorem append_sep_inj {sep : Char} {before₁ before₂ last₁ last₂ : List Char}
    (h₁ : sep ∉ last₁) (h₂ : sep ∉ last₂)
    (h : before₁ ++ sep :: last₁ = before₂ ++ sep :: last₂) : last₁ = last₂ := by
  have hparts := congrArg (segments sep) h
  rw [segments_append, segments_append, segments_of_not_mem h₁, segments_of_not_mem h₂] at hparts
  exact (List.append_singleton_inj.1 hparts).2

end Text

/-! ## The last name of a path -/

namespace FilePath

theorem not_mem_of_mem_pieces {path piece : String} (h : piece ∈ pieces path) :
    '/' ∉ piece.toList := by
  unfold pieces at h
  obtain ⟨part, hpart, rfl⟩ := List.mem_map.1 h
  rw [String.toList_ofList]
  exact Text.not_mem_of_mem_segments hpart

theorem pieces_join {dir name : String} (h : '/' ∉ name.toList) :
    ∃ before, pieces (join dir name) = before ++ [name] := by
  have hname : (Text.segments '/' name.toList).map String.ofList = [name] := by
    rw [Text.segments_of_not_mem h, List.map_singleton, String.ofList_toList]
  unfold join
  split
  · exact ⟨[], hname⟩
  · split
    · next hslash =>
        obtain ⟨front, hfront⟩ := List.getLast?_eq_some_iff.1 hslash
        refine ⟨(Text.segments '/' front).map String.ofList, ?_⟩
        unfold pieces
        rw [String.toList_append, hfront, List.append_assoc, List.singleton_append,
          Text.segments_append, List.map_append, hname]
    · refine ⟨(Text.segments '/' dir.toList).map String.ofList, ?_⟩
      unfold pieces
      have hslash : ("/" : String).toList = ['/'] := rfl
      rw [String.toList_append, String.toList_append, hslash, List.append_assoc,
        List.singleton_append, Text.segments_append, List.map_append, hname]

theorem steps_of_pieces {path name : String} {before : List String}
    (h : pieces path = before ++ [name]) (hidle : isIdle name = false) :
    ∃ way, steps path = way ++ [name] := by
  refine ⟨before.filter fun piece => !isIdle piece, ?_⟩
  unfold steps
  rw [h, List.filter_append, List.filter_cons_of_pos (by simp [hidle]), List.filter_nil]

theorem fileName?_of_file {path : String} (h : namesDirectory path = false) :
    ∃ before name, steps path = before ++ [name] ∧ name ≠ ".." ∧ '/' ∉ name.toList ∧
      fileName? path = some name := by
  unfold namesDirectory at h
  cases hlast : (pieces path).getLast? with
  | none => simp [hlast] at h
  | some name =>
      simp only [hlast, Bool.or_eq_false_iff, beq_eq_false_iff_ne, ne_eq] at h
      obtain ⟨front, hfront⟩ := List.getLast?_eq_some_iff.1 hlast
      have hidle : isIdle name = false := by simp [isIdle, h]
      obtain ⟨way, hsteps⟩ := steps_of_pieces hfront hidle
      have hmem : name ∈ pieces path := by simp [hfront]
      refine ⟨way, name, hsteps, h.2, not_mem_of_mem_pieces hmem, ?_⟩
      unfold fileName?
      rw [hsteps, List.getLast?_append, List.getLast?_singleton, Option.some_or]
      exact if_neg h.2

end FilePath

/-! ## Two places -/

namespace Location

theorem walk_append (loc : Location) (steps : List String) {name : String} (h : name ≠ "..") :
    loc.walk (steps ++ [name]) = (loc.walk steps).child name := by
  induction steps generalizing loc with
  | nil => simp only [List.nil_append, walk, if_neg h]
  | cons step steps ih =>
      rw [List.cons_append]
      exact ih _

theorem child_inj {loc₁ loc₂ : Location} {name₁ name₂ : String} (h₁ : '/' ∉ name₁.toList)
    (h₂ : '/' ∉ name₂.toList) (h : loc₁.child name₁ = loc₂.child name₂) : name₁ = name₂ := by
  have hchars := congrArg String.toList h
  have hslash : ("/" : String).toList = ['/'] := rfl
  unfold child at hchars
  simp only [String.toList_append, hslash, List.append_assoc, List.singleton_append] at hchars
  exact String.toList_inj.1 (Text.append_sep_inj h₁ h₂ hchars)

end Location

/-- A file is written beside the one that it replaces, under a longer name. -/
theorem FileStore.place_temporaryPath (d : Disk) {path : String}
    (h : FilePath.namesDirectory path = false) :
    d.place (temporaryPath path) ≠ d.place path := by
  obtain ⟨before, name, hsteps, hup, hslash, hname⟩ := FilePath.fileName?_of_file h
  have hchars : (name ++ ".tmp").toList = name.toList ++ ['.', 't', 'm', 'p'] :=
    String.toList_append
  have hlonger : '/' ∉ (name ++ ".tmp").toList := by
    rw [hchars]
    simp [hslash]
  have hlength : 4 ≤ (name ++ ".tmp").toList.length := by
    rw [hchars]
    simp
  have hidle : FilePath.isIdle (name ++ ".tmp") = false := by
    unfold FilePath.isIdle
    simp only [Bool.or_eq_false_iff, beq_eq_false_iff_ne, ne_eq]
    constructor
    · intro he
      rw [he] at hlength
      exact absurd hlength (by decide)
    · intro he
      rw [he] at hlength
      exact absurd hlength (by decide)
  have hnot : name ++ ".tmp" ≠ ".." := by
    intro he
    rw [he] at hlength
    exact absurd hlength (by decide)
  obtain ⟨front, hfront⟩ :=
    @FilePath.pieces_join ((FilePath.parent? path).getD "") (name ++ ".tmp") hlonger
  obtain ⟨above, habove⟩ := FilePath.steps_of_pieces hfront hidle
  intro hplace
  unfold Disk.place temporaryPath FilePath.withFileName at hplace
  rw [hname] at hplace
  simp only [Option.getD_some, habove, hsteps] at hplace
  rw [Location.walk_append _ _ hnot, Location.walk_append _ _ hup] at hplace
  have hsame := congrArg String.toList (Location.child_inj hlonger hslash hplace)
  rw [hchars] at hsame
  simp at hsame

/-! ## Files that can be replaced -/

namespace Disk

/-- A readable file can be written at one path and moved over what stands at the other. -/
structure Replaceable (d : Disk) (source target : String) : Prop where
  source_located : d.locate source = some (d.place source)
  target_located : d.locate target = some (d.place target)
  apart : d.place source ≠ d.place target
  source_open : d.mayChange (d.place source) = true
  target_open : d.mayChange (d.place target) = true
  source_plain : d.isDirectory (d.place source) = false
  target_plain : d.isDirectory (d.place target) = false
  source_rights : ∀ file ∈ d.fileAt (d.place source),
    mayWrite file.2.2 = true ∧ mayRead file.2.2 = true

theorem ne_root_of_plain {d : Disk} {loc : Location} (h : d.isDirectory loc = false) :
    loc ≠ .root := by
  rintro rfl
  rw [(isDirectory_iff d .root).2 (entry?_root d)] at h
  cases h

theorem plain_of_fileAt {d : Disk} {loc : Location} {file : Nat × ByteArray × Nat}
    (h : d.fileAt loc = some file) : d.isDirectory loc = false := by
  obtain ⟨number, contents, mode⟩ := file
  rw [fileAt_eq_some_iff] at h
  exact isDirectory_eq_false (by simp [h])

theorem fileAt_withEntry {d : Disk} {loc : Location} (h : loc ≠ .root) (number mode : Nat)
    (contents : ByteArray) :
    (d.withEntry loc (.file number contents mode)).fileAt loc = some (number, contents, mode) := by
  rw [fileAt_eq_some_iff, entry?_withEntry d _ h, if_pos rfl]

theorem plain_withEntry {d : Disk} {other : Location} (loc : Location) (number mode : Nat)
    (contents : ByteArray) (h : d.isDirectory other = false) :
    (d.withEntry loc (.file number contents mode)).isDirectory other = false := by
  apply isDirectory_eq_false
  rw [entry?_withEntry d _ (ne_root_of_plain h)]
  split
  · simp
  · rw [← Bool.not_eq_true, isDirectory_iff] at h
    exact h

theorem plain_without {d : Disk} {other : Location} (loc : Location)
    (h : d.isDirectory other = false) : (d.without loc).isDirectory other = false := by
  apply isDirectory_eq_false
  rw [entry?_without d (ne_root_of_plain h)]
  split
  · simp
  · rw [← Bool.not_eq_true, isDirectory_iff] at h
    exact h

namespace Replaceable

variable {d d' : Disk} {source target : String}

theorem of_change (h : d.Replaceable source target) (hhere : d'.here = d.here)
    (hclosed : d'.closed = d.closed)
    (hdirs : ∀ other, d.isDirectory other = true → d'.isDirectory other = true)
    (hsource : d'.isDirectory (d.place source) = false)
    (htarget : d'.isDirectory (d.place target) = false)
    (hrights : ∀ file ∈ d'.fileAt (d.place source),
      mayWrite file.2.2 = true ∧ mayRead file.2.2 = true) :
    d'.Replaceable source target where
  source_located := by rw [place_of_here hhere, locate_mono hhere hdirs h.source_located]
  target_located := by rw [place_of_here hhere, locate_mono hhere hdirs h.target_located]
  apart := by simpa only [place_of_here hhere] using h.apart
  source_open := by simpa only [mayChange, place_of_here hhere, hclosed] using h.source_open
  target_open := by simpa only [mayChange, place_of_here hhere, hclosed] using h.target_open
  source_plain := by rwa [place_of_here hhere]
  target_plain := by rwa [place_of_here hhere]
  source_rights := by rwa [place_of_here hhere]

theorem write (h : d.Replaceable source target) (contents : ByteArray) :
    ∃ written number mode, d.write? source contents = some written ∧
      written.Replaceable source target ∧ mayRead mode = true ∧
      written.fileAt (written.place source) = some (number, contents, mode) ∧
      written.fileAt (written.place target) = d.fileAt (d.place target) := by
  have hroot := ne_root_of_plain h.source_plain
  -- a new file and one that is there differ only in the number and the permissions
  obtain ⟨written, number, mode, hwrite, hrights, hclosed, hplain, hfile⟩ :
      ∃ written number mode, d.write? source contents = some written ∧
        (mayWrite mode = true ∧ mayRead mode = true) ∧ written.closed = d.closed ∧
        (∀ other, d.isDirectory other = false → written.isDirectory other = false) ∧
        written.fileAt (d.place source) = some (number, contents, mode) := by
    unfold write?
    rw [h.source_located, Option.bind_some]
    cases he : d.entry? (d.place source) with
    | none =>
        exact ⟨_, d.made, newFileMode, if_pos h.source_open, by decide, rfl,
          fun _ => plain_withEntry _ d.made newFileMode contents,
          fileAt_withEntry hroot d.made newFileMode contents⟩
    | some e =>
        cases e with
        | directory =>
            have hdir := (isDirectory_iff d _).2 he
            rw [h.source_plain] at hdir
            cases hdir
        | file number old mode =>
            have hrights := h.source_rights _ ((fileAt_eq_some_iff d _ _ _ _).2 he)
            exact ⟨_, number, mode, if_pos hrights.1, hrights, rfl,
              fun _ => plain_withEntry _ number mode contents,
              fileAt_withEntry hroot number mode contents⟩
  have hspares := spares_write? hwrite h.apart
  refine ⟨written, number, mode, hwrite, ?_, hrights.2, ?_, ?_⟩
  · refine h.of_change hspares.here hclosed hspares.directories (hplain _ h.source_plain)
      (hplain _ h.target_plain) ?_
    rw [hfile]
    rintro file ⟨⟩
    exact hrights
  · rwa [place_of_here hspares.here]
  · rw [place_of_here hspares.here, hspares.file]

theorem rename (h : d.Replaceable source target) {number mode : Nat} {contents : ByteArray}
    (hfile : d.fileAt (d.place source) = some (number, contents, mode)) :
    ∃ moved, d.rename? source target = some moved ∧ moved.Replaceable source target ∧
      moved.fileAt (moved.place target) = some (number, contents, mode) := by
  have hsource := (fileAt_eq_some_iff d _ _ _ _).1 hfile
  have htarget : d.entry? (d.place target) ≠ some .directory := by
    rw [Ne, ← isDirectory_iff, Bool.not_eq_true]
    exact h.target_plain
  let moved := (d.without (d.place source)).withEntry (d.place target) (.file number contents mode)
  have hmoved : d.rename? source target = some moved := by
    unfold rename?
    rw [h.source_located, h.target_located]
    simp only [hsource, h.source_open, h.target_open, Bool.and_self, if_true]
    rfl
  have hplain : ∀ other, d.isDirectory other = false → moved.isDirectory other = false :=
    fun other hother => plain_withEntry _ number mode contents (plain_without _ hother)
  have hgone : moved.fileAt (d.place source) = none :=
    fileAt_source_of_rename? hmoved (Ne.symm h.apart)
  -- directories are spared whatever location is asked about, so the root will do
  have hspares : Spares .root d moved :=
    spares_rename? hmoved (ne_root_of_plain h.source_plain) (ne_root_of_plain h.target_plain)
  refine ⟨moved, hmoved, ?_, ?_⟩
  · refine h.of_change rfl rfl hspares.directories (hplain _ h.source_plain)
      (hplain _ h.target_plain) ?_
    rw [hgone]
    rintro file ⟨⟩
  · rw [place_of_here hspares.here]
    exact fileAt_withEntry (ne_root_of_plain h.target_plain) number mode contents

/-- Where a file was written and moved, that can be done again. -/
theorem of_moved {written moved : Disk} {contents : ByteArray}
    (htarget : d.locate target = some (d.place target))
    (hthere : (d.fileAt (d.place target)).isSome) (hapart : d.place source ≠ d.place target)
    (hstale : ∀ file ∈ d.fileAt (d.place source), mayRead file.2.2 = true)
    (hwrite : d.write? source contents = some written)
    (hmove : written.rename? source target = some moved) : d.Replaceable source target := by
  obtain ⟨old, new, -, -, -, hold, hnew, -, -, hopen, hopen', -⟩ := rename?_spec hmove
  obtain ⟨loc, hloc, hhow⟩ := write?_spec hwrite
  have hhere := (spares_write? hwrite hapart).here
  have hclosed : written.closed = d.closed := by
    rcases hhow with ⟨_, _, _, _, _, rfl⟩ | ⟨_, _, rfl⟩ <;> rfl
  obtain rfl := locate_eq_place hloc
  rw [locate_eq_place hold, place_of_here hhere, mayChange, hclosed] at hopen
  rw [locate_eq_place hnew, place_of_here hhere, mayChange, hclosed] at hopen'
  obtain ⟨file, hfile⟩ := Option.isSome_iff_exists.1 hthere
  refine ⟨hloc, htarget, hapart, hopen, hopen', ?_, plain_of_fileAt hfile, ?_⟩
  · rcases hhow with ⟨number, contents, mode, he, -, -⟩ | ⟨he, -, -⟩
    · exact isDirectory_eq_false (by simp [he])
    · exact isDirectory_eq_false (by simp [he])
  · rintro ⟨number, contents, mode⟩ hstands
    refine ⟨?_, hstale _ hstands⟩
    rw [Option.mem_def, fileAt_eq_some_iff] at hstands
    rcases hhow with ⟨_, _, _, he, hmay, -⟩ | ⟨he, -, -⟩
    · rw [he] at hstands
      cases hstands
      exact hmay
    · rw [he] at hstands
      cases hstands

end Replaceable
end Disk

/-- A snapshot is written beside its file and moved over it. -/
theorem FileStore.persist_spec {path : String} {s : Snapshot} {disk replaced : Disk}
    (h : persist path s disk = (.ok (), replaced)) :
    ∃ written, disk.write? (temporaryPath path) s.fileText.toUTF8 = some written ∧
      written.rename? (temporaryPath path) path = some replaced := by
  unfold persist at h
  split at h
  · cases h
  · next written hwrite =>
      split at h
      · cases h
      · next hmove =>
          cases h
          exact ⟨written, hwrite, hmove⟩

end FleetUpgrade
