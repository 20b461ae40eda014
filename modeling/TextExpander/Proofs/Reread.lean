import TextExpander.Proofs.Literal

/-!
# Reading the output again

The output of a literal document is a document, and almost always a literal one with the same
output. Two conventions meet here. A line is read without its end, where a carriage return belongs
to the end if a line feed follows it; and it is written with a line feed, whatever it ends with. So
a line that ends with a carriage return when it is read first, such as a last line without a line
feed, loses it in the second reading.

Losing it can do more than make the line shorter. A carriage return is no blank, so that a line that
ends with one is no `include` line, but may be one without it.

## Main results

* `Directive.Literal.dropReturn`: what is left of a literal line without its carriage return.
* `Session.expandSource_unlines`: the output of lines that were written.
* `rereading_drops_carriage_returns`: the output of the output of a literal document.
-/

namespace TextExpander

open Directive (Literal)

/-- Without its carriage return, a literal line can only have become an `include` line. -/
theorem Directive.Literal.dropReturn {line : Text} (h : Literal line)
    (hinclude : includePath? (Text.dropReturn line) = none) : Literal (Text.dropReturn line) := by
  rcases Text.dropReturn_cases line with ⟨-, heq⟩ | heq
  · rwa [heq]
  · have hreturn : Text.isWordChar '\r' = false := by decide
    rw [heq] at h
    exact {
      not_include := hinclude
      not_definition := startsDefinition_concat hreturn _ ▸ h.not_definition
      no_end := Lexeme.identifiers_append_right (s := ['\r']) (by simpa using hreturn) _ ▸ h.no_end
      no_call := fun hcall => h.no_call (hcall.append ['\r']) }

/-- Lines that are written are copied without the carriage returns that they end with, if they are
literal then. -/
theorem Session.expandSource_unlines (s : Session) (name : Path) {ls : List Text}
    (hlines : ∀ line ∈ ls, '\n' ∉ line) (h : ∀ line ∈ ls, Literal (Text.dropReturn line)) :
    (s.expandSource name (Text.unlines ls)).2 = .ok (Text.unlines (ls.map Text.dropReturn)) := by
  have hread : Text.lines (Text.unlines ls) = ls.map Text.dropReturn := Text.lines_unlines hlines
  have hliteral : ∀ line ∈ Text.lines (Text.unlines ls), Literal line := by
    rw [hread]
    exact List.forall_mem_map.mpr h
  rw [s.expandSource_of_literal name hliteral, hread]

/-- **Reading the output of a literal document again.** Two sessions run a literal document and its
output. If no line of the document ends with a carriage return, the output of the output is the
output. In any case, if no line becomes an `include` line without the carriage return that it ends
with, the lines of the second output are those of the first without these carriage returns, and the
two are the same only if there are none. -/
theorem rereading_drops_carriage_returns (s s' : Session) (name : Path) (source out : Text)
    (hliteral : ∀ line ∈ Text.lines source, Literal line)
    (hout : (s.expandSource name source).2 = .ok out) :
    ((∀ line ∈ Text.lines source, line.getLast? ≠ some '\r') →
        (s'.expandSource name out).2 = .ok out) ∧
      ((∀ line ∈ Text.lines source, Directive.includePath? (Text.dropReturn line) = none) →
        (s'.expandSource name out).2 =
            .ok (Text.unlines ((Text.lines source).map Text.dropReturn)) ∧
          ((s'.expandSource name out).2 = .ok out ↔
            ∀ line ∈ Text.lines source, line.getLast? ≠ some '\r')) := by
  have hlines : ∀ line ∈ Text.lines source, '\n' ∉ line := fun line =>
    Text.newline_notMem_of_mem_lines
  obtain rfl : Text.unlines (Text.lines source) = out := by
    rw [s.expandSource_of_literal name hliteral] at hout
    exact Except.ok.inj hout
  have hagain : (∀ line ∈ Text.lines source, Directive.includePath? (Text.dropReturn line) = none) →
      (s'.expandSource name (Text.unlines (Text.lines source))).2 =
        .ok (Text.unlines ((Text.lines source).map Text.dropReturn)) := by
    intro hinclude
    apply s'.expandSource_unlines name hlines
    intro line hline
    exact (hliteral line hline).dropReturn (hinclude line hline)
  refine ⟨fun hreturn => ?_, fun hinclude => ⟨hagain hinclude, ?_⟩⟩
  · have hsame := Text.map_dropReturn_eq_self_iff.mpr hreturn
    rw [hagain, hsame]
    intro line hline
    rw [Text.dropReturn_eq_self_iff.mpr (hreturn line hline)]
    exact (hliteral line hline).not_include
  · have hdropped : ∀ line ∈ (Text.lines source).map Text.dropReturn, '\n' ∉ line := by
      refine List.forall_mem_map.mpr fun line hline hmem => ?_
      exact hlines line hline (Text.dropReturn_subset line hmem)
    rw [hagain hinclude, Except.ok.injEq, Text.unlines_inj hdropped hlines,
      Text.map_dropReturn_eq_self_iff]

/-- A line end of two characters, a carriage return inside a line, and a last line without its end.
-/
theorem carriage_return_inside_a_line_is_kept :
    let s : Session := { read := fun _ _ => .error .absent }
    let source := "a\r\nb\rc(\n\nd".toList
    let out := "a\nb\rc(\n\nd\n".toList
    (s.expandSource ⟨['m']⟩ source).2 = .ok out ∧ (s.expandSource ⟨['m']⟩ out).2 = .ok out := by
  intro s source out
  have hlines : Text.lines source = [['a'], "b\rc(".toList, [], ['d']] := by decide
  have hliteral : ∀ line ∈ Text.lines source, Literal line := by
    rw [hlines]
    decide
  have hout : (s.expandSource ⟨['m']⟩ source).2 = .ok out := by
    rw [s.expandSource_of_literal ⟨['m']⟩ hliteral, hlines]
    rfl
  refine ⟨hout, (rereading_drops_carriage_returns s s ⟨['m']⟩ source out hliteral hout).1 ?_⟩
  rw [hlines]
  decide

/-- A last line without a line feed keeps the carriage return that it ends with, but only once. -/
theorem carriage_return_at_the_end_is_lost :
    let s : Session := { read := fun _ _ => .error .absent }
    (∀ line ∈ Text.lines "a\r".toList, Literal line) ∧
      (s.expandSource ⟨"main.txt".toList⟩ "a\r".toList).2 = .ok "a\r\n".toList ∧
      (s.expandSource ⟨"main.txt".toList⟩ "a\r\n".toList).2 = .ok "a\n".toList ∧
      "a\n".toList ≠ "a\r\n".toList := by
  intro s
  have hfirst : ∀ line ∈ Text.lines "a\r".toList, Literal line := by decide
  have hsecond : ∀ line ∈ Text.lines "a\r\n".toList, Literal line := by decide
  refine ⟨hfirst, ?_, ?_, by decide⟩
  · rw [s.expandSource_of_literal _ hfirst]
    rfl
  · rw [s.expandSource_of_literal _ hsecond]
    rfl

/-- A line that becomes an `include` line when it is read again. -/
example : Literal "include \"b\"\r".toList ∧
    Directive.includePath? (Text.dropReturn "include \"b\"\r".toList) = some ['b'] := by decide

end TextExpander
