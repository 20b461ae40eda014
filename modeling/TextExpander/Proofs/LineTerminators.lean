import TextExpander.Listing
import TextExpander.Proofs.LineEnds
import TextExpander.Run

/-!
# Line ends do not matter

The same lines can be written in many ways. Each of them may end with a line feed or with a carriage
return and a line feed, whatever the others do, and the last one may have no end at all if there is
something in it. `Text.Writes` lists these ways without looking at how lines are read.

Reading gives the lines back from each of them, provided that they hold no line feed and do not end
with a carriage return. The other direction needs no proviso: every text is one of the ways to write
the lines that are read of it, so nothing else is ever read as these lines
(`Text.lines_eq_iff_writes`).

After that there is nothing left to say about a run or a listing. They are given a document as text,
but read only its lines.

## Main definitions

* `Text.Writes`: a text in which given lines are written.

## Main results

* `Text.writes_lines`: a text is a way to write its lines.
* `Text.lines_eq_iff_writes`: the ways to write some lines are the texts that have them.
* `line_ends_do_not_matter`: runs and listings of the same lines.
-/

namespace TextExpander

namespace Text

/-- A text in which the lines are written, each with an end of its own. -/
inductive Writes : List Text → Text → Prop
  /-- No lines. -/
  | nil : Writes [] []
  /-- A last line without an end, which cannot be empty. -/
  | unended {line : Text} : line ≠ [] → Writes [line] line
  /-- A line that ends with a line feed. -/
  | feed (line : Text) {lines : List Text} {t : Text} : Writes lines t →
      Writes (line :: lines) (line ++ '\n' :: t)
  /-- A line that ends with a carriage return and a line feed. -/
  | returnFeed (line : Text) {lines : List Text} {t : Text} : Writes lines t →
      Writes (line :: lines) (line ++ '\r' :: '\n' :: t)

theorem linesOfPieces_cons (piece : Text) {pieces : List Text} (h : pieces ≠ []) :
    linesOfPieces (piece :: pieces) = dropReturn piece :: linesOfPieces pieces := by
  obtain ⟨next, rest, rfl⟩ := List.exists_cons_of_ne_nil h
  rw [linesOfPieces]

theorem lines_append_cons {piece : Text} (h : '\n' ∉ piece) (t : Text) :
    lines (piece ++ '\n' :: t) = dropReturn piece :: lines t := by
  rw [lines, List.splitOn_append_cons_self_of_not_mem h,
    linesOfPieces_cons piece (List.splitOn_ne_nil '\n' t), lines]

theorem lines_of_newline_notMem {line : Text} (h : '\n' ∉ line) (hne : line ≠ []) :
    lines line = [line] := by
  have hempty : ¬ line.isEmpty = true := fun hnil => hne (List.isEmpty_iff.mp hnil)
  rw [lines, List.splitOn_eq_singleton h, linesOfPieces, if_neg hempty]

theorem dropReturn_concat (t : Text) : dropReturn (t ++ ['\r']) = t := by
  rw [dropReturn, List.getLast?_concat, if_pos rfl, List.dropLast_concat]

/-- A text is a way to write the lines that its pieces make. -/
theorem writes_linesOfPieces {pieces : List Text} (hne : pieces ≠ []) :
    Writes (linesOfPieces pieces) (['\n'].intercalate pieces) := by
  fun_induction linesOfPieces pieces with
  | case1 => exact absurd rfl hne
  | case2 last hlast =>
    obtain rfl := List.isEmpty_iff.mp hlast
    exact .nil
  | case3 last hlast =>
    rw [List.intercalate_singleton]
    exact .unended fun hnil => hlast (List.isEmpty_iff.mpr hnil)
  | case4 piece next rest ih =>
    have hrest := ih (List.cons_ne_nil next rest)
    rw [List.intercalate_cons_cons, List.append_assoc]
    rcases dropReturn_cases piece with ⟨-, heq⟩ | heq
    · rw [heq]
      exact .feed piece hrest
    · -- The carriage return that the line lost is part of its end.
      generalize dropReturn piece = line at heq ⊢
      subst heq
      rw [List.append_assoc]
      exact .returnFeed line hrest

/-- **A text is a way to write its lines.** -/
theorem writes_lines (t : Text) : Writes (lines t) t := by
  have h := writes_linesOfPieces (List.splitOn_ne_nil '\n' t)
  rwa [List.intercalate_splitOn] at h

/-- What is read of lines that were written, whatever their ends. -/
theorem lines_of_writes {ls : List Text} {t : Text} (h : Writes ls t)
    (hls : ∀ line ∈ ls, '\n' ∉ line ∧ line.getLast? ≠ some '\r') : lines t = ls := by
  induction h with
  | nil => rfl
  | @unended line hne =>
    obtain ⟨hfeed, -⟩ := hls line List.mem_cons_self
    exact lines_of_newline_notMem hfeed hne
  | feed line _ ih =>
    obtain ⟨hfeed, hreturn⟩ := hls line List.mem_cons_self
    rw [lines_append_cons hfeed, dropReturn_eq_self_iff.mpr hreturn,
      ih fun l hl => hls l (List.mem_cons_of_mem line hl)]
  | @returnFeed line _ t _ ih =>
    obtain ⟨hfeed, -⟩ := hls line List.mem_cons_self
    have hpiece : '\n' ∉ line ++ ['\r'] := by simpa using hfeed
    have hsplit : line ++ '\r' :: '\n' :: t = line ++ ['\r'] ++ '\n' :: t := by simp
    rw [hsplit, lines_append_cons hpiece, dropReturn_concat,
      ih fun l hl => hls l (List.mem_cons_of_mem line hl)]

/-- **The ways to write some lines** are the texts that have these lines. -/
theorem lines_eq_iff_writes {ls : List Text}
    (hls : ∀ line ∈ ls, '\n' ∉ line ∧ line.getLast? ≠ some '\r') {t : Text} :
    lines t = ls ↔ Writes ls t :=
  ⟨fun h => h ▸ writes_lines t, fun h => lines_of_writes h hls⟩

end Text

/-- **Line ends do not matter.** Some lines hold no line feed and do not end with a carriage return.
They are the lines of the texts in which they are written, each with either end or, if it is the
last one and not empty, with none, and of no other texts. So any two of these texts have the same
runs, with the same output, error and definitions, and the same listings. -/
theorem line_ends_do_not_matter (ls : List Text)
    (hls : ∀ line ∈ ls, '\n' ∉ line ∧ line.getLast? ≠ some '\r') :
    (∀ t, Text.lines t = ls ↔ Text.Writes ls t) ∧
      ∀ t u, Text.Writes ls t → Text.Writes ls u →
        (∀ (s : Session) (name : Path) (sink : Sink),
            s.runSource name t sink = s.runSource name u sink) ∧
          (∀ (read : Trail → Reader) (limit : Nat) (name : Path) (trail : Trail),
            Listing.writeSteps read limit (OpenFiles.ofLines name (Text.lines t)) trail =
              Listing.writeSteps read limit (OpenFiles.ofLines name (Text.lines u)) trail) ∧
          ∀ (name : Path) (sink : Sink),
            Listing.writeLexemes name t sink = Listing.writeLexemes name u sink := by
  refine ⟨fun t => Text.lines_eq_iff_writes hls, fun t u ht hu => ?_⟩
  have hlines : Text.lines t = Text.lines u := by
    rw [Text.lines_of_writes ht hls, Text.lines_of_writes hu hls]
  refine ⟨fun s name sink => ?_, fun read limit name trail => ?_, fun name sink => ?_⟩
  · rw [Session.runSource, hlines, Session.runSource]
  · rw [hlines]
  · rw [Listing.writeLexemes, Listing.lexemes, hlines, Listing.writeLexemes, Listing.lexemes]

/-- An empty line, and a line with a carriage return in it, with mixed ends and with none at the
last. -/
theorem mixed_line_ends_do_not_matter :
    let ls : List Text := [['a'], [], "b\rc".toList]
    let t : Text := "a\r\n\nb\rc".toList
    let u : Text := "a\n\r\nb\rc\r\n".toList
    Text.lines t = ls ∧ Text.lines u = ls ∧
      ∀ (s : Session) (name : Path) (sink : Sink),
        s.runSource name t sink = s.runSource name u sink := by
  intro ls t u
  have hls : ∀ line ∈ ls, '\n' ∉ line ∧ line.getLast? ≠ some '\r' := by decide
  have hlast : Text.Writes ["b\rc".toList] "b\rc".toList := .unended (by decide)
  have ht : Text.Writes ls t := .returnFeed ['a'] (.feed [] hlast)
  have hu : Text.Writes ls u :=
    .feed ['a'] (.returnFeed [] (.returnFeed "b\rc".toList .nil))
  obtain ⟨hlines, hruns⟩ := line_ends_do_not_matter ls hls
  exact ⟨(hlines t).mpr ht, (hlines u).mpr hu, (hruns t u ht hu).1⟩

end TextExpander
