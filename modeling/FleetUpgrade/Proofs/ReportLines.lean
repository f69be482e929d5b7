import FleetUpgrade.Proofs.TextParts
import FleetUpgrade.Remote.Report

/-! # The lines of a report

A report shows every result below its label, and all but the labels is meant to be indented. Codes
and outputs are: each line of an output is indented by itself. Of an error only the first line
is, so a further line of its message stands where a label does, unless it brings two spaces
along. Without such lines the lines that are not indented are the labels, in the order in which the
results are shown.
-/

namespace FleetUpgrade

def Indented (line : String) : Prop :=
  [' ', ' '] <+: line.toList

instance : DecidablePred Indented := fun line =>
  inferInstanceAs (Decidable ([' ', ' '] <+: line.toList))

/-- A label that can stand on a line of its own. -/
structure Heading (label : String) : Prop where
  one_line : '\n' ∉ label.toList
  no_space : label.toList.head? ≠ some ' '

theorem Heading.not_indented {label : String} (h : Heading label) : ¬Indented label := by
  rintro ⟨rest, hrest⟩
  exact h.no_space (by rw [← hrest]; rfl)

namespace CommandResult

/-- The lines of the error's message after the first. -/
def furtherErrorLines (r : CommandResult) : List String :=
  match r.error with
  | some e => (Text.lines e.message).tail
  | none => []

end CommandResult

namespace Report

def shown (r : Report) : List String :=
  (Text.lines r.text).dropLast

def unindented (texts : List String) : List String :=
  texts.filter fun line => ¬Indented line

variable {texts : List String}

theorem unindented_append (texts others : List String) :
    unindented (texts ++ others) = unindented texts ++ unindented others :=
  List.filter_append texts others

theorem shown_eq (r : Report) : r.shown = r.lines.flatMap Text.lines := by
  rw [shown, text, Text.lines_join_ended, List.dropLast_concat]

/-! ## The lines of one result -/

/-- Lines that are indented one by one show nothing else. -/
theorem unindented_flatMap_lines
    (h : ∀ line ∈ texts, '\n' ∉ line.toList ∧ Indented line) :
    unindented (texts.flatMap Text.lines) = [] := by
  refine List.filter_eq_nil_iff.2 fun line hline => ?_
  obtain ⟨whole, hwhole, hin⟩ := List.mem_flatMap.1 hline
  obtain ⟨hone, hindented⟩ := h whole hwhole
  rw [Text.lines_of_not_mem hone, List.mem_singleton] at hin
  simpa [hin] using hindented

theorem lineFeed_not_mem_toString (i : Int) : '\n' ∉ (toString i).toList := by
  have hnat : ∀ n : Nat, '\n' ∉ n.repr.toList := by
    intro n hin
    rw [Nat.repr_eq_ofList_toDigits, String.toList_ofList] at hin
    exact absurd (Nat.isDigit_of_mem_toDigits (by decide) (by decide) hin) (by decide)
  rw [Int.toString_eq_repr, Int.repr_eq_if]
  split
  · exact hnat _
  · simpa using hnat _

theorem block_indented {heading : String} (hheading : '\n' ∉ heading.toList) (text : String) :
    ∀ line ∈ block heading text, '\n' ∉ line.toList ∧ Indented line := by
  intro line hline
  simp only [block] at hline
  split at hline
  · exact absurd hline List.not_mem_nil
  · rcases List.mem_cons.1 hline with rfl | hbelow
    · exact ⟨by simpa using hheading, by simp [Indented]⟩
    · obtain ⟨part, hpart, rfl⟩ := List.mem_map.1 hbelow
      exact ⟨by simpa using Text.not_mem_of_mem_segments hpart, by simp [Indented]⟩

theorem unindented_error (message : String) :
    unindented (Text.lines ("  ERROR: " ++ message)) =
      unindented (Text.lines message).tail := by
  have hone : '\n' ∉ "  ERROR: ".toList := by decide
  obtain ⟨first, hlines⟩ := Text.tail_lines_append hone message
  have hfirst : Indented ("  ERROR: " ++ first) := by simp [Indented]
  rw [hlines, unindented, List.filter_cons_of_neg (by simpa using hfirst)]
  rfl

/-- The label of a result and the further lines of its error show unindented, and nothing else. -/
theorem unindented_resultLines {r : CommandResult} (hlabel : Heading r.target.label) :
    unindented ((resultLines r).flatMap Text.lines) =
      r.target.label :: unindented r.furtherErrorLines := by
  have hcode : unindented ((if r.code = 0 then [] else ["  Code: " ++ toString r.code]).flatMap
      Text.lines) = [] := by
    refine unindented_flatMap_lines fun line hline => ?_
    split at hline
    · exact absurd hline List.not_mem_nil
    · rw [List.mem_singleton.1 hline]
      exact ⟨by simpa using lineFeed_not_mem_toString r.code, by simp [Indented]⟩
  have hstdout : unindented ((block "stdout" r.stdout).flatMap Text.lines) = [] :=
    unindented_flatMap_lines (block_indented (by decide) r.stdout)
  have hstderr : unindented ((block "stderr" r.stderr).flatMap Text.lines) = [] :=
    unindented_flatMap_lines (block_indented (by decide) r.stderr)
  have hfirst : unindented [r.target.label] = [r.target.label] := by
    simp [unindented, hlabel.not_indented]
  rw [resultLines, List.flatMap_cons, Text.lines_of_not_mem hlabel.one_line, unindented_append,
    hfirst, List.flatMap_append, List.flatMap_append, List.flatMap_append, unindented_append,
    unindented_append, unindented_append, hcode, hstdout, hstderr, List.append_nil,
    List.append_nil, List.append_nil, List.singleton_append, CommandResult.furtherErrorLines]
  cases r.error with
  | none => rfl
  | some e => rw [List.flatMap_singleton, unindented_error]

/-! ## The lines of a report -/

variable {report : Report}

theorem mem_clean_append_problems {r : CommandResult} :
    r ∈ report.clean ++ report.problems ↔ r ∈ report.results := by
  cases h : r.isClean with
  | true => simp [clean, problems, CommandResult.isProblem, h]
  | false => simp [clean, problems, CommandResult.isProblem, h]

/-- The unindented lines of a report, result by result. -/
theorem unindented_shown (h : ∀ r ∈ report.results, Heading r.target.label) :
    unindented report.shown = (report.clean ++ report.problems).flatMap fun r =>
      r.target.label :: unindented r.furtherErrorLines := by
  rw [shown_eq, Report.lines, List.flatMap_assoc, unindented, List.filter_flatMap]
  exact List.flatMap_congr fun r hr =>
    unindented_resultLines (h r (mem_clean_append_problems.1 hr))

/-- Items with more behind some of them are the items alone just if there is no more. -/
theorem flatMap_cons_eq_map_iff {α β : Type} (head : α → β) (more : α → List β) (xs : List α) :
    (xs.flatMap fun x => head x :: more x) = xs.map head ↔ ∀ x ∈ xs, more x = [] := by
  have hlength : ∀ ys : List α, ys.length ≤ (ys.flatMap fun x => head x :: more x).length := by
    intro ys
    induction ys with
    | nil => exact Nat.le_refl 0
    | cons y ys ih =>
        simp only [List.flatMap_cons, List.length_append, List.length_cons]
        omega
  induction xs with
  | nil => simp
  | cons x xs ih =>
      rw [List.flatMap_cons, List.map_cons, List.cons_append, List.cons_inj_right,
        List.forall_mem_cons]
      constructor
      · intro heq
        have hlengths := congrArg List.length heq
        have hrest := hlength xs
        rw [List.length_append, List.length_map] at hlengths
        have hnone : more x = [] := List.length_eq_zero_iff.1 (by omega)
        rw [hnone, List.nil_append] at heq
        exact ⟨hnone, ih.1 heq⟩
      · rintro ⟨hnone, hrest⟩
        rw [hnone, List.nil_append, ih.2 hrest]

theorem check_eq_error_iff (report : Report) (n : Nat) :
    report.check = .error n ↔
      (∃ r ∈ report.results, r.isProblem = true) ∧ n = report.problems.length := by
  have hproblem : report.problemCount = 0 ↔ ¬∃ r ∈ report.results, r.isProblem = true := by
    simp [problemCount, problems]
  unfold check
  by_cases hnone : report.problemCount = 0
  · simp [hnone, hproblem.1 hnone]
  · have hsome := not_not.1 (mt hproblem.2 hnone)
    rw [if_neg hnone, Except.error.injEq, and_iff_right hsome, eq_comm, problemCount]

/-- The unindented lines of a report are the labels of the clean results and then those of the
problems just if every further line of an error message is indented by itself; and checking a report
fails with the number of problems just if there is one. -/
theorem labels_stand_out_iff (report : Report)
    (h : ∀ r ∈ report.results, Heading r.target.label) :
    (unindented report.shown =
        report.clean.map (fun r => r.target.label) ++
          report.problems.map (fun r => r.target.label) ↔
      ∀ r ∈ report.results, ∀ line ∈ r.furtherErrorLines, Indented line) ∧
    ∀ n, report.check = .error n ↔
      (∃ r ∈ report.results, r.isProblem = true) ∧ n = report.problems.length := by
  refine ⟨?_, report.check_eq_error_iff⟩
  rw [unindented_shown h, ← List.map_append, flatMap_cons_eq_map_iff]
  simp only [mem_clean_append_problems, unindented, List.filter_eq_nil_iff, decide_not,
    Bool.not_eq_true', decide_eq_false_iff_not, not_not]

/-- One host that greets and one whose refusal goes over two lines, the second indented. -/
theorem labels_stand_out_of_indented_refusal :
    let report : Report :=
      ⟨[.failed ⟨"10.0.0.2", ["model", "2"]⟩ (.unreachable "ubuntu@10.0.0.2" "banner\n  refused"),
        .completed ⟨"10.0.0.1", ["model", "1"]⟩ ⟨0, "hello\nmodel 2\n", ""⟩]⟩
    unindented report.shown = ["model 1", "model 2"] ∧ report.check = .error 1 := by
  intro report
  have hheading : ∀ r ∈ report.results, Heading r.target.label := by
    simp only [report, List.forall_mem_cons, List.not_mem_nil, false_implies, implies_true,
      and_true]
    exact ⟨⟨by decide +kernel, by decide +kernel⟩, by decide +kernel, by decide +kernel⟩
  have hindented : ∀ r ∈ report.results, ∀ line ∈ r.furtherErrorLines, Indented line := by
    decide +kernel
  have hlines := labels_stand_out_iff report hheading
  exact ⟨hlines.1.2 hindented, (hlines.2 1).2 (by decide +kernel)⟩

/-- The second line of a refusal reads like the label of another target. -/
theorem refusal_shown_as_label :
    let report : Report :=
      ⟨[.failed ⟨"10.0.0.1", ["model", "1"]⟩ (.unreachable "ubuntu@10.0.0.1" "banner\nmodel 2")]⟩
    (∀ r ∈ report.results, '\n' ∉ r.target.label.toList ∧ r.target.label.toList.head? = some 'm') ∧
      unindented report.shown = ["model 1", "model 2"] ∧
      report.clean.map (fun r => r.target.label) ++
        report.problems.map (fun r => r.target.label) = ["model 1"] := by
  decide +kernel

end Report

end FleetUpgrade
