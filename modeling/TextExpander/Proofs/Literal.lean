import TextExpander.Proofs.Borders
import TextExpander.Proofs.Decoding
import TextExpander.Proofs.Directives
import TextExpander.Proofs.LineEnds
import TextExpander.Proofs.Streaming

/-!
# Literal documents

A document that has nothing in it for the expander comes out as it went in, but for its line ends.
What makes it so is looked at line by line: a line is no directive, has no `endmacro`, and calls no
name that is known. The only known name is `glue`, since no line defines another.

A run looks at more than lines: at the text that waits, at the calls that are open, at the table.
The invariant is that there is nothing of all this: the table stays empty, no text ever waits, and
what is written is the lines so far.

## Main definitions

* `Outline.HoldsCall`: a text has a name in it with a parenthesis right behind.
* `Directive.Literal`: a line that is only text, and calls nothing.
* `Progress.Copies`: what a run has done that only copied.

## Main results

* `Outline.findCall_eq_none_iff_holdsCall`: the scanner finds a call where there is one.
* `Progress.Copies.step`, `Progress.Copies.feed`: one literal line, and all of them.
* `literal_documents_pass_through`: a literal document comes out as its lines.
-/

namespace TextExpander

namespace Outline

/-! ### The word before a parenthesis -/

section Scanner

variable {α β : Type} [Symbol α] {resolve : Text → Option β}

theorem lastWord_of_isWord {xs : List α} (h : ∀ a ∈ xs, Symbol.isWord a = true) (word : List α) :
    lastWord word xs = xs.reverse ++ word := by
  induction xs generalizing word with
  | nil => rfl
  | cons a xs ih =>
    rw [lastWord, if_pos (h a List.mem_cons_self), ih fun b hb => h b (List.mem_cons_of_mem a hb)]
    simp

theorem lastWord_append_word {before word : List α}
    (hbefore : ∀ a ∈ before.getLast?, Symbol.isWord a = false)
    (hword : ∀ a ∈ word, Symbol.isWord a = true) :
    lastWord [] (before ++ word) = word.reverse := by
  cases before using List.reverseRecOn with
  | nil => simpa using lastWord_of_isWord hword []
  | append_singleton before a =>
    have ha : Symbol.isWord a = false := hbefore a (by simp)
    rw [List.append_assoc, List.singleton_append, lastWord_append_cons ha]
    simpa using lastWord_of_isWord hword []

omit [Symbol α] in
/-- A place in a list is its first one, or comes after that. -/
theorem forall_place_cons {P : List α → α → Prop} {a : α} {xs : List α} :
    (∀ front b rest, a :: xs = front ++ b :: rest → P front b) ↔
      P [] a ∧ ∀ front b rest, xs = front ++ b :: rest → P (a :: front) b := by
  constructor
  · intro h
    exact ⟨h [] a xs rfl, fun front b rest hxs => h (a :: front) b rest (congrArg (a :: ·) hxs)⟩
  · rintro ⟨hfirst, hrest⟩ front b rest hxs
    cases front with
    | nil =>
      obtain ⟨rfl, rfl⟩ := List.cons.inj hxs
      exact hfirst
    | cons c front =>
      obtain ⟨rfl, rfl⟩ := List.cons.inj hxs
      exact hrest front b rest rfl

/-- The scanner finds no call exactly if no parenthesis stands right behind a known name. -/
theorem findCall_eq_none_iff {passed word xs : List α} :
    findCall resolve passed word xs = none ↔
      ∀ front a rest, xs = front ++ a :: rest →
        Symbol.shown a = '(' → refer resolve (lastWord word front).reverse = none := by
  induction xs generalizing passed word with
  | nil => simp [findCall]
  | cons a xs ih =>
    rw [forall_place_cons]
    rcases symbol_cases resolve word a with hword | ⟨callee, ha, hcallee⟩ | ⟨hword, hnone⟩
    · have hother : Symbol.shown a = '(' → refer resolve word.reverse = none := by
        intro ha
        rw [Symbol.isWord_of_opening ha] at hword
        cases hword
      simp only [findCall_word hword, ih, lastWord, hword, if_true]
      exact ⟨fun h => ⟨hother, h⟩, And.right⟩
    · rw [findCall_call ha hcallee]
      constructor
      · intro h
        cases h
      · intro h
        have hnone := h.1 ha
        rw [lastWord, hcallee] at hnone
        cases hnone
    · simp only [findCall_other hword hnone, ih, lastWord, hword, Bool.false_eq_true, if_false]
      exact ⟨fun h => ⟨hnone, h⟩, And.right⟩

end Scanner

/-! ### Calls in a text -/

/-- The name stands in the text as a whole word, with a parenthesis right behind it. -/
def HoldsCall (name t : Text) : Prop :=
  ∃ before after, t = before ++ (name ++ '(' :: after) ∧
    ∀ c ∈ before.getLast?, Text.isWordChar c = false

theorem HoldsCall.append {name t : Text} (h : HoldsCall name t) (more : Text) :
    HoldsCall name (t ++ more) := by
  obtain ⟨before, after, rfl, hbefore⟩ := h
  exact ⟨before, after ++ more, by simp, hbefore⟩

/-- **The scanner finds a call where there is one.** -/
theorem findCall_eq_none_iff_holdsCall {β : Type} {resolve : Text → Option β} {t : Text} :
    findCall resolve [] [] t = none ↔
      ∀ name, Text.isIdentifier name = true → HoldsCall name t → resolve name = none := by
  rw [findCall_eq_none_iff]
  constructor
  · rintro h name hname ⟨before, after, rfl, hbefore⟩
    have hlast : lastWord [] (before ++ name) = name.reverse :=
      lastWord_append_word hbefore (Text.isWordChar_of_isIdentifier hname)
    have hrefer := h (before ++ name) '(' after (by simp) rfl
    rwa [hlast, List.reverse_reverse, refer, Symbol.chars_text, if_pos hname] at hrefer
  · rintro h front a after rfl ha
    obtain ⟨before, hfront, -, hbefore⟩ := eq_append_lastWord [] (by simp) front
    obtain rfl : a = '(' := ha
    rw [refer, Symbol.chars_text]
    split_ifs with hname
    · refine h _ hname ⟨before, after, ?_, hbefore⟩
      rw [← List.append_assoc, ← hfront]
      rfl
    · rfl

/-- Without definitions only `glue` can be called. -/
theorem findCall_empty_eq_none_iff {t : Text} :
    findCall Table.empty.callee? [] [] t = none ↔ ¬ HoldsCall glueName t := by
  rw [findCall_eq_none_iff_holdsCall]
  constructor
  · exact fun h hglue => nomatch h glueName (by decide) hglue
  · intro h name _ hname
    have hne : name ≠ glueName := fun heq => h (heq ▸ hname)
    rw [Table.callee?, if_neg hne]
    rfl

instance (t : Text) : Decidable (HoldsCall glueName t) :=
  decidable_of_iff ((findCall Table.empty.callee? [] [] t).isSome = true) <| by
    rw [← not_iff_not, ← findCall_empty_eq_none_iff, Option.not_isSome_iff_eq_none]

end Outline

/-! ### Text without calls -/

theorem hasOpenCall_of_findCall_none {table : Table} {t : Text}
    (h : Outline.findCall table.callee? [] [] t = none) : hasOpenCall table t = false := by
  rw [hasOpenCall, Outline.scan_of_none h]
  rfl

/-- A fragment without calls is its own expansion, whatever is left of the limit. -/
theorem Expansion.expandFragment_of_findCall_none {table : Table} (limit levels : Nat)
    {f : Fragment} (h : Outline.findCall table.callee? [] [] f = none) :
    expandFragment table limit levels f = .ok f := by
  obtain ⟨callValue, heq⟩ := exists_expandFragment_eq table limit levels
  rw [heq, Outline.scan_of_none h, expandOutline]

theorem Outline.findCall_plain_eq_none {table : Table} {t : Text}
    (h : findCall table.callee? [] [] t = none) :
    findCall table.callee? [] [] (Fragment.plain t) = none := by
  have hchars := findCall_fresh_chars table.callee? (Fragment.plain t)
  rw [show Symbol.chars (Fragment.plain t) = t from Fragment.scan_plain t, h] at hchars
  exact Option.map_eq_none_iff.mp hchars.symm

/-- Text without calls is its own expansion. -/
theorem expand_of_findCall_none {table : Table} (limit : Nat) {t : Text}
    (h : Outline.findCall table.callee? [] [] t = none) : expand table limit t = .ok t := by
  rw [expand, Expansion.expandFragment_of_findCall_none limit limit
    (Outline.findCall_plain_eq_none h)]
  exact congrArg Except.ok (Fragment.text_plain t)

/-! ### Literal lines -/

/-- A line that is only text, and does not call the one name that is always known. -/
structure Directive.Literal (line : Text) : Prop extends Plain line where
  /-- It does not call `glue`. -/
  no_call : ¬ Outline.HoldsCall glueName line

open Directive (Literal)

theorem Directive.literal_iff {line : Text} :
    Literal line ↔ Plain line ∧ ¬ Outline.HoldsCall glueName line :=
  ⟨fun h => ⟨h.toPlain, h.no_call⟩, fun ⟨hplain, hcall⟩ => ⟨hplain, hcall⟩⟩

instance (line : Text) : Decidable (Literal line) :=
  decidable_of_iff _ Directive.literal_iff.symm

/-! ### Copying lines -/

namespace Progress

/-- What a run has done that only copied: nothing is defined, nothing waits, and the given text is
written. -/
structure Copies (written : Text) (p : Progress) : Prop where
  /-- Nothing is defined. -/
  table : p.table = .empty
  /-- No text waits. -/
  pending : p.pending = none
  /-- The output takes everything. -/
  sink : p.sink.TakesAll
  /-- The text is what was written. -/
  bytes : p.sink.bytes = Utf8.encode written

variable {written : Text} {p : Progress}

/-- A literal line is copied. -/
theorem Copies.step (settings : Settings) (h : p.Copies written) {line : SourceLine}
    (hline : Literal line.text) :
    ∃ q, p.step settings (.text line) = (q, none) ∧
      q.Copies (written ++ (line.text ++ ['\n'])) := by
  have hnone : Outline.findCall p.table.callee? [] [] line.text = none := by
    rw [h.table]
    exact Outline.findCall_empty_eq_none_iff.mpr hline.no_call
  have hend : (Directive.cutAtEnd? line.text).isSome = false := by
    rw [hline.cutAtEnd?, Option.isSome_none]
  have hready : Pending.add p.pending line = ⟨line.text, line.location⟩ := by
    rw [h.pending]
    rfl
  have hopen : hasOpenCall p.table (Pending.add p.pending line).text = false := by
    rw [hready]
    exact hasOpenCall_of_findCall_none hnone
  have hexpand : expand p.table settings.expansionLimit (Pending.add p.pending line).text =
      .ok line.text := by
    rw [hready]
    exact expand_of_findCall_none _ hnone
  obtain ⟨sink, hwrite, htakes, hbytes⟩ := h.sink.write [line.text, ['\n']]
  refine ⟨{ p with pending := none, sink }, addText_of_written hend hopen hexpand hwrite, h.table,
    rfl, htakes, ?_⟩
  rw [hbytes, h.bytes, Utf8.encode_append written]
  rfl

/-- Literal lines are copied one after the other, whatever the files are. -/
theorem Copies.feed (settings : Settings) (read : Progress → Reader) (h : p.Copies written)
    (lines : List SourceLine) (hlines : ∀ line ∈ lines, Literal line.text) :
    ∃ q, Cursor.feed read settings.includeLimit (Progress.step settings) { files := [lines] } p =
      (q, none) ∧ q.Copies (written ++ Text.unlines (lines.map SourceLine.text)) := by
  induction lines generalizing p written with
  | nil => exact ⟨p, Cursor.feed_of_end rfl, by simpa [Text.unlines] using h⟩
  | cons line lines ih =>
    have hline := hlines line List.mem_cons_self
    obtain ⟨q, hstep, hq⟩ := h.step settings hline
    obtain ⟨r, hfeed, hr⟩ := ih hq fun l hl => hlines l (List.mem_cons_of_mem line hl)
    refine ⟨r, ?_, ?_⟩
    · rw [Cursor.feed_of_taken (Cursor.next?_of_text hline.not_include
        (Bool.eq_false_iff.mp hline.not_definition)) hstep, hfeed]
    · rw [List.map_cons, Text.unlines_cons]
      simpa using hr

theorem Copies.finish (settings : Settings) (h : p.Copies written) :
    ∃ q, p.finish settings = (q, none) ∧ q.Copies written := by
  rw [Progress.finish, h.pending]
  simp only [flush, h.sink.flush]
  exact ⟨_, rfl, h.table, h.pending, ⟨h.sink.unlimited, h.sink.flushes⟩, h.bytes⟩

end Progress

/-! ### Literal documents -/

theorem SourceLine.map_text_number (file : Path) (depth : Nat) (lines : List Text) :
    (number file depth lines).map SourceLine.text = lines := by
  rw [number_eq_numberFrom]
  generalize 0 = passed
  induction lines generalizing passed with
  | nil => rfl
  | cons line lines ih => rw [numberFrom, List.map_cons, ih]

namespace Session

/-- The lines of a document of which each is literal are its output. -/
theorem expandSource_of_literal (s : Session) (name : Path) {source : Text}
    (h : ∀ line ∈ Text.lines source, Literal line) :
    s.expandSource name source =
      ({ s with table := .empty }, .ok (Text.unlines (Text.lines source))) := by
  have hnumber : (SourceLine.number name 0 (Text.lines source)).map SourceLine.text =
      Text.lines source := SourceLine.map_text_number name 0 (Text.lines source)
  have hstart : Progress.Copies [] {} := ⟨rfl, rfl, ⟨rfl, rfl⟩, rfl⟩
  obtain ⟨q, hfeed, hq⟩ := hstart.feed s.settings (fun p => s.read p.toTrail)
    (SourceLine.number name 0 (Text.lines source)) fun line hline =>
      h line.text (hnumber ▸ List.mem_map_of_mem hline)
  obtain ⟨r, hfinish, hr⟩ := hq.finish s.settings
  have hrun : s.runSource name source {} = ({ s with table := .empty }, r.sink, none) := by
    rw [runSource, runFiles, OpenFiles.ofLines, runDocument, hfeed]
    simp only [hfinish, hr.table]
  have htext : r.sink.text = Text.unlines (Text.lines source) := by
    rw [Sink.text, hr.bytes, Utf8.decodeLossy_encode, hnumber, List.nil_append]
  simp only [expandSource, hrun, htext]

end Session

/-- **Literal documents pass through.** If no line of a document includes a file or begins a
definition, none holds an `endmacro`, and none calls `glue`, then a run succeeds, defines nothing,
and its output is the lines, each with a line feed after it. This is so in every session, whatever
its files, its limits and its earlier definitions are. -/
theorem literal_documents_pass_through (s : Session) (name : Path) (source : Text)
    (hinclude : ∀ line ∈ Text.lines source, Directive.includePath? line = none)
    (hdefine : ∀ line ∈ Text.lines source, Directive.startsDefinition line = false)
    (hend : ∀ line ∈ Text.lines source, Directive.endKeyword ∉ Lexeme.identifiers line)
    (hcall : ∀ line ∈ Text.lines source, ¬ Outline.HoldsCall glueName line) :
    (s.expandSource name source).2 = .ok (Text.unlines (Text.lines source)) ∧
      (s.expandSource name source).1.table = .empty := by
  have hliteral : ∀ line ∈ Text.lines source, Literal line := fun line hline =>
    ⟨⟨hinclude line hline, hdefine line hline, hend line hline⟩, hcall line hline⟩
  rw [s.expandSource_of_literal name hliteral]
  exact ⟨rfl, rfl⟩

/-- Parentheses that do not match, names that are not known, words that only end with a known name,
and a directive that is not the first word of its line. -/
theorem unmatched_text_passes_through :
    let s : Session := { read := fun _ _ => .error .absent, settings := { expansionLimit := 0 } }
    let source :=
      ") f(x, (\r\n\n xglue(a) églue(b) glue (c)\nendmacros (define include \"d\"".toList
    (s.expandSource ⟨['m']⟩ source).2 =
        .ok ") f(x, (\n\n xglue(a) églue(b) glue (c)\nendmacros (define include \"d\"\n".toList ∧
      (s.expandSource ⟨['m']⟩ source).1.table = .empty := by
  intro s source
  have hlines : Text.lines source = [") f(x, (".toList, [], " xglue(a) églue(b) glue (c)".toList,
      "endmacros (define include \"d\"".toList] := by decide
  have hout : Text.unlines (Text.lines source) =
      ") f(x, (\n\n xglue(a) églue(b) glue (c)\nendmacros (define include \"d\"\n".toList := by
    rw [hlines]
    decide
  rw [← hout]
  exact literal_documents_pass_through s ⟨['m']⟩ source (by rw [hlines]; decide)
    (by rw [hlines]; decide) (by rw [hlines]; decide) (by rw [hlines]; decide)

end TextExpander
