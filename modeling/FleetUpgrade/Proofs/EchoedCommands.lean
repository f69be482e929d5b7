import FleetUpgrade.Fleet.Commands
import FleetUpgrade.Proofs.MarkedLines
import FleetUpgrade.Proofs.ShellQuoting
import Mathlib.Data.List.Chain

/-! # Echoed commands with configured values

The scripts paste what is configured into their lines as it is. The lines of a script are
described by templates: the fixed text around a pasted value begins and ends with characters that
are not in the word of the marker, so a value without that word brings no marker along.
-/

namespace FleetUpgrade.Script

/-! ## Templates -/

/-- A part of a line: fixed text, or a value that is pasted. -/
inductive LinePart (ν : Type) where
  | fixed (text : String)
  | pasted (value : ν)
  deriving DecidableEq

variable {ν : Type} {value : ν → String} {command : List Char}

namespace LinePart

def text (value : ν → String) : LinePart ν → String
  | .fixed text => text
  | .pasted v => value v

/-- Fixed text does not have the word of the marker. -/
def Fair : LinePart ν → Prop
  | .fixed text => Unmarked text.toList
  | .pasted _ => True

/-- The word of the marker does not go from one part into the next. -/
def Apart : LinePart ν → LinePart ν → Prop
  | .fixed text, _ => ∀ c ∈ text.toList.getLast?, c ∉ markerWord.toList
  | .pasted _, .fixed text => ∃ c ∈ text.toList.head?, c ∉ markerWord.toList
  | .pasted _, .pasted _ => False

instance : DecidablePred (@Fair ν)
  | .fixed text => inferInstanceAs (Decidable (Unmarked text.toList))
  | .pasted _ => inferInstanceAs (Decidable True)

instance : DecidableRel (@Apart ν)
  | .fixed text, _ => Option.decidableForallMem text.toList.getLast?
  | .pasted _, .fixed text => Option.decidableExistsMem text.toList.head?
  | .pasted _, .pasted _ => inferInstanceAs (Decidable False)

end LinePart

def fill (value : ν → String) : List (LinePart ν) → String
  | [] => ""
  | part :: parts => part.text value ++ fill value parts

theorem fill_append (value : ν → String) (parts others : List (LinePart ν)) :
    fill value (parts ++ others) = fill value parts ++ fill value others := by
  induction parts with
  | nil => simp [fill]
  | cons part parts ih => rw [List.cons_append, fill, fill, ih, String.append_assoc]

/-- A marker can only come with a value. -/
def Separated (parts : List (LinePart ν)) : Prop :=
  (∀ part ∈ parts, part.Fair) ∧ parts.IsChain LinePart.Apart

instance (parts : List (LinePart ν)) : Decidable (Separated parts) :=
  inferInstanceAs (Decidable (_ ∧ _))

theorem LinePart.unmarked_text (hvalue : ∀ v, Unmarked (value v).toList) {part : LinePart ν}
    (h : part.Fair) : Unmarked (part.text value).toList := by
  cases part with
  | fixed text => exact h
  | pasted v => exact hvalue v

theorem unmarked_fill (hvalue : ∀ v, Unmarked (value v).toList) {parts : List (LinePart ν)}
    (h : Separated parts) : Unmarked (fill value parts).toList := by
  induction parts with
  | nil => exact ⟨by simp [fill, markerWord], by simp [fill]⟩
  | cons part parts ih =>
      have hpart := LinePart.unmarked_text hvalue (h.1 part List.mem_cons_self)
      have hparts := ih ⟨fun other hother => h.1 other (List.mem_cons_of_mem part hother),
        h.2.tail⟩
      rw [fill, String.toList_append]
      refine hpart.append hparts ?_
      cases parts with
      | nil => exact Or.inr (by simp [fill])
      | cons next parts =>
          have hapart := (List.isChain_cons_cons.1 h.2).1
          cases part with
          | fixed text => exact Or.inl hapart
          | pasted v =>
              -- a value may end like the word begins, so the fixed text after it decides
              cases next with
              | fixed text =>
                  obtain ⟨c, hc, hapart⟩ := hapart
                  have hhead : (fill value (.fixed text :: parts)).toList.head? = some c := by
                    rw [fill, LinePart.text, String.toList_append, List.head?_append,
                      Option.mem_def.1 hc, Option.some_or]
                  refine Or.inr fun d hd => ?_
                  obtain rfl : c = d := Option.some_inj.1 (hhead.symm.trans hd)
                  exact hapart
              | pasted v => exact hapart.elim

/-- A line of a script, with a marker after the indentation or without one. -/
inductive TemplateLine (ν : Type) where
  | plain (parts : List (LinePart ν))
  | marked (indent : String) (parts : List (LinePart ν))

namespace TemplateLine

def text (value : ν → String) : TemplateLine ν → String
  | .plain parts => fill value parts
  | .marked indent parts => indent ++ (marker ++ fill value parts)

def command? : TemplateLine ν → Option (List (LinePart ν))
  | .plain _ => none
  | .marked _ parts => some parts

/-- The line has no marker but the one in its template. -/
def Fair : TemplateLine ν → Prop
  | .plain parts => Separated parts
  | .marked indent parts => 'd' ∉ indent.toList ∧ Separated parts

instance : DecidablePred (@Fair ν)
  | .plain parts => inferInstanceAs (Decidable (Separated parts))
  | .marked indent parts => inferInstanceAs (Decidable ('d' ∉ indent.toList ∧ Separated parts))

theorem echoedIn_text (hvalue : ∀ v, Unmarked (value v).toList) {line : TemplateLine ν}
    (h : line.Fair) :
    EchoedIn (line.text value).toList command ↔
      ∃ parts ∈ line.command?, command = (fill value parts).toList := by
  cases line with
  | plain parts => simpa [text, command?] using (unmarked_fill hvalue h).not_echoedIn
  | marked indent parts =>
      simpa [text, command?] using (unmarked_fill hvalue h.2).echoedIn_marked h.1

end TemplateLine

/-- A script that is written by a template echoes the commands of the template. -/
theorem echoes_template (hvalue : ∀ v, Unmarked (value v).toList)
    {lines : List (TemplateLine ν)} (h : ∀ line ∈ lines, line.Fair) :
    (ofLines (lines.map (TemplateLine.text value))).Echoes command ↔
      ∃ parts ∈ lines.filterMap TemplateLine.command?, command = (fill value parts).toList := by
  simp only [echoes_ofLines, List.mem_map, List.mem_filterMap]
  constructor
  · rintro ⟨_, ⟨line, hline, rfl⟩, hechoed⟩
    obtain ⟨parts, hparts, hcommand⟩ := (TemplateLine.echoedIn_text hvalue (h line hline)).1 hechoed
    exact ⟨parts, ⟨line, hline, hparts⟩, hcommand⟩
  · rintro ⟨parts, ⟨line, hline, hparts⟩, hcommand⟩
    exact ⟨_, ⟨line, hline, rfl⟩,
      (TemplateLine.echoedIn_text hvalue (h line hline)).2 ⟨parts, hparts, hcommand⟩⟩

/-! ## The scripts -/

inductive InstallValue where
  | user
  | uploadedName
  | installedPath
  deriving DecidableEq

inductive UpgradeValue where
  | toolsDirectory
  | toolsVersion
  | agentsDirectory
  | archive
  | controllerTag
  | hookNames
  deriving DecidableEq

def InstallValue.text (config : FleetConfig) (remoteName : String) : InstallValue → String
  | .user => config.sshUser
  | .uploadedName => remoteName
  | .installedPath => config.remoteBinaryPath

def UpgradeValue.text (config : FleetConfig) (archive controllerTag : String) :
    UpgradeValue → String
  | .toolsDirectory => config.toolsDirectory
  | .toolsVersion => config.toolsVersion
  | .agentsDirectory => config.agentsDirectory
  | .archive => archive
  | .controllerTag => controllerTag
  | .hookNames => Text.join " " hookCommands

open LinePart in
def installTemplate : List (TemplateLine InstallValue) :=
  [.marked ""
    [fixed "mv ", fixed "/home/", pasted .user, fixed "/", pasted .uploadedName, fixed " ",
      pasted .installedPath]]

def targetParts : List (LinePart UpgradeValue) :=
  [.pasted .toolsDirectory, .fixed "/", .pasted .toolsVersion]

open LinePart in
def linkHookParts : List (LinePart UpgradeValue) :=
  fixed "ln -s " :: targetParts ++ fixed "/jujud \"" :: targetParts ++ [fixed "/$i\""]

open LinePart in
def editConfParts : List (LinePart UpgradeValue) :=
  [fixed ("sed -i 's/# format 1.18/# format 2.0/; " ++
      "s/upgradedToVersion: 2.0-beta7/upgradedToVersion: 2.0-rc1\\ncontroller: "),
    pasted .controllerTag, fixed "/' $agent/agent.conf"]

open LinePart in
def unpackTemplate : List (TemplateLine UpgradeValue) :=
  [.plain (fixed "if [ ! -d " :: targetParts ++ [fixed " ]; then"]),
    .plain [fixed "    echo Unpack ", pasted .toolsVersion,
      fixed " tools and create jujuc command symlinks"],
    .marked "    " (fixed "mkdir -p " :: targetParts),
    .marked "    " ([fixed "tar --extract --gzip --file=", pasted .archive,
      fixed " --directory="] ++ targetParts),
    .plain [fixed "    for i in ", pasted .hookNames, fixed "; do"],
    .marked "        " linkHookParts,
    .plain [fixed "    done"],
    .plain [fixed "fi"]]

open LinePart in
def relinkTemplate : List (TemplateLine UpgradeValue) :=
  [.plain [fixed "cd ", pasted .agentsDirectory],
    .plain [fixed "for agent in *"],
    .plain [fixed "do"],
    .plain [fixed "    echo Set tools symlink for $agent"],
    .marked "    " [fixed "rm ", pasted .toolsDirectory, fixed "/$agent"],
    .marked "    " [fixed "ln -s ", pasted .toolsVersion, fixed " ", pasted .toolsDirectory,
      fixed "/$agent"],
    .plain [],
    .plain [fixed "    version=$(head -n 1 $agent/agent.conf)"],
    .plain [fixed "    if [ \"$version\" = \"# format 2.0\" ]; then"],
    .plain [fixed "        echo $agent/agent.conf already in format 2.0"],
    .plain [fixed "    elif [ \"$version\" = \"# format 1.18\" ]; then"],
    .plain [fixed "        echo Update $agent/agent.conf to be format 2.0"],
    .marked "        " [fixed "cp $agent/agent.conf $agent/agent.conf.old"],
    .marked "        " editConfParts,
    .plain [fixed "    else"],
    .plain [fixed "        echo $agent/agent.conf has unexpected format: $version"],
    .plain [fixed "    fi"],
    .plain [fixed "done"]]

def upgradeTemplate : List (TemplateLine UpgradeValue) :=
  unpackTemplate ++ .plain [] :: relinkTemplate

theorem installBinary_eq (config : FleetConfig) (remoteName : String) :
    installBinary config remoteName =
      ofLines (installTemplate.map (TemplateLine.text (InstallValue.text config remoteName))) := by
  simp [installBinary, installTemplate, TemplateLine.text, fill, LinePart.text, InstallValue.text,
    FleetConfig.remoteHome, String.append_assoc]

theorem upgradeAgents_eq (config : FleetConfig) (archive controllerTag : String) :
    upgradeAgents config archive controllerTag =
      ofLines (upgradeTemplate.map
        (TemplateLine.text (UpgradeValue.text config archive controllerTag))) := by
  simp [upgradeAgents, unpackLines, relinkLines, upgradeTemplate, unpackTemplate, relinkTemplate,
    linkHookParts, editConfParts, targetParts, TemplateLine.text, fill, LinePart.text,
    UpgradeValue.text, String.append_assoc]

theorem fair_installTemplate : ∀ line ∈ installTemplate, line.Fair := by
  decide +kernel

theorem fair_upgradeTemplate : ∀ line ∈ upgradeTemplate, line.Fair := by
  decide +kernel

/-! ## Commands outside of quotes -/

/-- Fixed text that quotes nothing and that the shell does not act upon. -/
def LinePart.Quiet : LinePart ν → Prop
  | .fixed text => Shell.Plain text.toList ∧ Shell.Bland text.toList
  | .pasted _ => True

instance : DecidablePred (@LinePart.Quiet ν)
  | .fixed text =>
      inferInstanceAs (Decidable (Shell.Plain text.toList ∧ Shell.Bland text.toList))
  | .pasted _ => inferInstanceAs (Decidable True)

def LinePart.value? : LinePart ν → Option ν
  | .fixed _ => none
  | .pasted v => some v

theorem plain_fill (hvalue : ∀ v, Shell.Plain (value v).toList) {parts : List (LinePart ν)}
    (h : ∀ part ∈ parts, part.Quiet) : Shell.Plain (fill value parts).toList := by
  induction parts with
  | nil => simp [fill, Shell.Plain]
  | cons part parts ih =>
      have hparts := ih fun other hother => h other (List.mem_cons_of_mem part hother)
      have hpart : Shell.Plain (part.text value).toList := by
        have hquiet := h part List.mem_cons_self
        cases part with
        | fixed text => exact hquiet.1
        | pasted v => exact hvalue v
      rw [fill, String.toList_append, Shell.plain_append]
      exact ⟨hpart, hparts⟩

theorem bland_fill_iff {parts : List (LinePart ν)} (h : ∀ part ∈ parts, part.Quiet) :
    Shell.Bland (fill value parts).toList ↔
      ∀ v ∈ parts.filterMap LinePart.value?, Shell.Bland (value v).toList := by
  induction parts with
  | nil => simp [fill, Shell.Bland]
  | cons part parts ih =>
      have hparts := ih fun other hother => h other (List.mem_cons_of_mem part hother)
      have hquiet := h part List.mem_cons_self
      rw [fill, String.toList_append, Shell.bland_append, hparts]
      cases part with
      | fixed text => exact and_iff_right hquiet.2
      | pasted v => simp [LinePart.text, LinePart.value?]

/-- A command outside of quotes is harmless just if each pasted value is bland. -/
theorem harmless_fill_iff (hvalue : ∀ v, Shell.Plain (value v).toList) {parts : List (LinePart ν)}
    (h : ∀ part ∈ parts, part.Quiet) :
    Shell.Harmless (fill value parts).toList ↔
      ∀ v ∈ parts.filterMap LinePart.value?, Shell.Bland (value v).toList := by
  rw [Shell.harmless_iff_bland (plain_fill hvalue h), bland_fill_iff h]

/-! ## Commands with quotes -/

open Shell.Quoting in
/-- The place of a hook's link is between double quotes. -/
theorem harmless_linkHook {value : UpgradeValue → String}
    (hvalue : ∀ v, Shell.Plain (value v).toList)
    (hbland : ∀ v ∈ targetParts.filterMap LinePart.value?, Shell.Bland (value v).toList) :
    Shell.Harmless (fill value linkHookParts).toList := by
  have hquiet : ∀ part ∈ targetParts, part.Quiet := by decide
  have htarget := plain_fill hvalue hquiet
  replace hbland := (bland_fill_iff hquiet).2 hbland
  have htext : (fill value linkHookParts).toList =
      "ln -s ".toList ++ ((fill value targetParts).toList ++ ("/jujud \"".toList ++
        ((fill value targetParts).toList ++ "/$i\"".toList))) := by
    simp only [linkHookParts, fill_append, fill, LinePart.text, String.toList_append,
      List.append_assoc, String.append_empty]
  have hbare : scan .bare (fill value targetParts).toList = some .bare := by
    rw [scan_bare htarget, if_pos hbland]
  -- between the quotes the directory may end with a dollar sign
  obtain ⟨q, hscan, hq⟩ := scan_double (Or.inl rfl) htarget hbland
  have hlead : scan .bare "ln -s ".toList = some .bare := by decide
  have hopen : scan .bare "/jujud \"".toList = some .double := by decide
  have hclose : scan .double "/$i\"".toList = some .bare := by decide
  rw [Shell.Harmless, htext, scan_append_of hlead, scan_append_of hbare, scan_append_of hopen,
    scan_append_of hscan, scan_of_isDouble hq (by decide) (by decide), hclose]
  rfl

open Shell.Quoting in
/-- The controller's tag is between single quotes, so it may be anything but a single quote. -/
theorem harmless_editConf {value : UpgradeValue → String}
    (hvalue : Shell.Plain (value .controllerTag).toList) :
    Shell.Harmless (fill value editConfParts).toList := by
  have htag : '\x27' ∉ (value .controllerTag).toList := fun hin => hvalue _ hin (by decide)
  obtain ⟨lead, hparts, hlead⟩ : ∃ lead, editConfParts =
      [.fixed lead, .pasted .controllerTag, .fixed "/' $agent/agent.conf"] ∧
        scan .bare lead.toList = some .single := ⟨_, rfl, by decide +kernel⟩
  have htext : (fill value editConfParts).toList = lead.toList ++
      ((value .controllerTag).toList ++ "/' $agent/agent.conf".toList) := by
    simp only [hparts, fill, LinePart.text, String.toList_append, String.append_empty]
  have hclose : scan .single "/' $agent/agent.conf".toList = some .bare := by decide
  rw [Shell.Harmless, htext, scan_append_of hlead, scan_append_of (scan_single htag), hclose]
  rfl

/-! ## The previews -/

/-- The shell acts upon nothing in the commands that a preview echoes. -/
def PreviewHarmless (s : Script) : Prop :=
  ∀ command, s.Echoes command → Shell.Harmless command

/-- A value on one line, without quotes and without the word of the marker. -/
def Ordinary (value : String) : Prop :=
  Unmarked value.toList ∧ Shell.Plain value.toList

instance (value : String) : Decidable (Ordinary value) :=
  inferInstanceAs (Decidable (_ ∧ _))

/-- Whether a preview is harmless is decided by the values that are exposed, if each command
that does not leave its values outside of quotes protects them. -/
theorem template_harmless_iff (hvalue : ∀ v, Ordinary (value v)) {lines : List (TemplateLine ν)}
    (hfair : ∀ line ∈ lines, line.Fair) {exposed : List ν}
    (hexposed : ∀ v ∈ exposed, ∃ parts ∈ lines.filterMap TemplateLine.command?,
      (∀ part ∈ parts, part.Quiet) ∧ v ∈ parts.filterMap LinePart.value?)
    (hprotected : (∀ v ∈ exposed, Shell.Bland (value v).toList) →
      ∀ parts ∈ lines.filterMap TemplateLine.command?,
        ((∀ part ∈ parts, part.Quiet) ∧ parts.filterMap LinePart.value? ⊆ exposed) ∨
          Shell.Harmless (fill value parts).toList) :
    (ofLines (lines.map (TemplateLine.text value))).PreviewHarmless ↔
      ∀ v ∈ exposed, Shell.Bland (value v).toList := by
  have hplain : ∀ v, Shell.Plain (value v).toList := fun v => (hvalue v).2
  simp only [PreviewHarmless, echoes_template (fun v => (hvalue v).1) hfair]
  constructor
  · intro hall v hv
    obtain ⟨parts, hparts, hquiet, hpasted⟩ := hexposed v hv
    exact (harmless_fill_iff hplain hquiet).1 (hall _ ⟨parts, hparts, rfl⟩) v hpasted
  · rintro hbland _ ⟨parts, hparts, rfl⟩
    rcases hprotected hbland parts hparts with ⟨hquiet, hsubset⟩ | hharmless
    · exact (harmless_fill_iff hplain hquiet).2 fun v hv => hbland v (hsubset hv)
    · exact hharmless

theorem installBinary_harmless_iff {config : FleetConfig} {remoteName : String}
    (hvalues : ∀ v ∈ [config.sshUser, remoteName, config.remoteBinaryPath], Ordinary v) :
    (installBinary config remoteName).PreviewHarmless ↔
      ∀ v ∈ [config.sshUser, remoteName, config.remoteBinaryPath], Shell.Bland v.toList := by
  have hvalue : ∀ v, Ordinary (InstallValue.text config remoteName v) := by
    intro v
    cases v <;> exact hvalues _ (by simp [InstallValue.text])
  have hquiet : ∀ parts ∈ installTemplate.filterMap TemplateLine.command?,
      (∀ part ∈ parts, part.Quiet) ∧
        parts.filterMap LinePart.value? ⊆ [.user, .uploadedName, .installedPath] := by decide
  rw [installBinary_eq, template_harmless_iff hvalue fair_installTemplate
    (by decide) fun _ parts hparts => Or.inl (hquiet parts hparts)]
  simp [InstallValue.text]

theorem ordinary_hookNames : Ordinary (Text.join " " hookCommands) := by
  simp only [Ordinary, Text.join, hookCommands, List.map, String.toList_ofList]
  decide +kernel

/-- The values that stand outside of quotes when the agents' script is previewed. -/
def exposedValues : List UpgradeValue := [.toolsDirectory, .toolsVersion, .archive]

theorem commands_of_upgradeTemplate :
    ∀ parts ∈ upgradeTemplate.filterMap TemplateLine.command?,
      parts = linkHookParts ∨ parts = editConfParts ∨
        (∀ part ∈ parts, part.Quiet) ∧ parts.filterMap LinePart.value? ⊆ exposedValues := by
  decide +kernel

theorem exposed_in_upgradeTemplate :
    ∀ v ∈ exposedValues, ∃ parts ∈ upgradeTemplate.filterMap TemplateLine.command?,
      (∀ part ∈ parts, part.Quiet) ∧ v ∈ parts.filterMap LinePart.value? := by
  decide +kernel

theorem upgradeAgents_harmless_iff {config : FleetConfig} {archive controllerTag : String}
    (hvalues : ∀ v ∈ [config.toolsDirectory, config.toolsVersion, config.agentsDirectory,
      archive, controllerTag], Ordinary v) :
    (upgradeAgents config archive controllerTag).PreviewHarmless ↔
      ∀ v ∈ [config.toolsDirectory, config.toolsVersion, archive], Shell.Bland v.toList := by
  have hvalue : ∀ v, Ordinary (UpgradeValue.text config archive controllerTag v) := by
    intro v
    cases v with
    | hookNames => exact ordinary_hookNames
    | _ => exact hvalues _ (by simp [UpgradeValue.text])
  have hplain := fun v => (hvalue v).2
  rw [upgradeAgents_eq, template_harmless_iff hvalue fair_upgradeTemplate
    exposed_in_upgradeTemplate fun hbland parts hparts => ?_]
  · simp [exposedValues, UpgradeValue.text]
  · rcases commands_of_upgradeTemplate parts hparts with rfl | rfl | hquiet
    · have htarget : targetParts.filterMap LinePart.value? ⊆ exposedValues := by decide
      exact Or.inr (harmless_linkHook hplain fun v hv => hbland v (htarget hv))
    · exact Or.inr (harmless_editConf (hplain .controllerTag))
    · exact Or.inl hquiet

/-- With ordinary values the preview of a distribution is harmless just if the user and the two
names of the program are bland, and that of the agents' script just if the directory and the
version of the tools and their archive are. The controller's tag need not be, being quoted. -/
theorem preview_harmless_iff (config : FleetConfig) (binary archive controllerTag : String)
    (hvalues : ∀ v ∈ [config.sshUser, (Upload.keepName binary).remoteName,
      config.remoteBinaryPath, config.toolsDirectory, config.toolsVersion,
      config.agentsDirectory, archive, controllerTag], Ordinary v) :
    ((installBinary config (Upload.keepName binary).remoteName).PreviewHarmless ↔
      ∀ v ∈ [config.sshUser, (Upload.keepName binary).remoteName, config.remoteBinaryPath],
        Shell.Bland v.toList) ∧
    ((upgradeAgents config archive controllerTag).PreviewHarmless ↔
      ∀ v ∈ [config.toolsDirectory, config.toolsVersion, archive], Shell.Bland v.toList) := by
  constructor
  · refine installBinary_harmless_iff fun v hv => hvalues v ?_
    exact List.mem_append_left _ hv
  · refine upgradeAgents_harmless_iff fun v hv => hvalues v ?_
    exact List.mem_append_right
      [config.sshUser, (Upload.keepName binary).remoteName, config.remoteBinaryPath] hv

def rebootingConfig : FleetConfig :=
  { FleetConfig.standard with toolsDirectory := "/t;reboot" }

theorem preview_harmless_iff_rebooting :
    (installBinary rebootingConfig (Upload.keepName "/usr/bin/fleet").remoteName).PreviewHarmless ∧
      ¬(upgradeAgents rebootingConfig "/home/ubuntu/juju.tgz" "controller-1").PreviewHarmless := by
  obtain ⟨hinstall, hupgrade⟩ := preview_harmless_iff rebootingConfig "/usr/bin/fleet"
    "/home/ubuntu/juju.tgz" "controller-1" (by decide +kernel)
  refine ⟨hinstall.2 (by decide +kernel), fun h => ?_⟩
  exact absurd (hupgrade.1 h) (by decide +kernel)

/-- A valid configuration can make a preview run a command. -/
theorem valid_preview_may_run_command :
    ¬∀ (config : FleetConfig) (binary archive controllerTag : String),
      config.validate = .ok () →
        (installBinary config (Upload.keepName binary).remoteName).PreviewHarmless ∧
          (upgradeAgents config archive controllerTag).PreviewHarmless := by
  intro hall
  have hvalid : rebootingConfig.validate = .ok () := by decide
  have hupgrade := (hall rebootingConfig "/usr/bin/fleet" "/home/ubuntu/juju.tgz" "controller-1"
    hvalid).2
  rw [upgradeAgents_harmless_iff (by decide +kernel)] at hupgrade
  exact absurd hupgrade (by decide +kernel)

end FleetUpgrade.Script
