import TextExpander.Proofs.Boundaries
import TextExpander.Proofs.WellFormed

/-!
# Where steps come from

Each step of a document is read from lines of a file that was loaded in the course of the run: the
document itself, or a file that an `include` line named. A place in a document is tied to these
files by an invariant: what is left of each open file is the end of a file that was loaded. From it
follows where the next step stands, and where an error does.

A file may hold other lines each time that it is read. So "the lines of a file" are always those
that were loaded, and the same path may stand for several of them.

The one step that does not stand where its location says is the text after a definition. It has the
location of the line where the definition starts, and stands on the line where the definition ends.

## Main definitions

* `Cursor.Leads`: what a line of a file leads to.
* `Cursor.Loaded`: the files that were loaded between the start and a boundary.
* `Location.Shows`: the line that stands at a location.
* `Step.Stands`, `Cursor.Reads`: a step, and what is left of a document, stand in loaded files.

## Main results

* `Cursor.leads_next?`: the next step is what the next line leads to.
* `Cursor.Reached.reads`: at every boundary a document stands in the files that were loaded.
* `text_steps_stand_at_or_below_their_location`: where the text of a document stands.
-/

namespace TextExpander

/-! ### One line -/

namespace Cursor

/-- What a line of a file leads to, where `passed` lines of the file come before it, `following`
come after it, and the file is in front of the open files `outer`. -/
inductive Leads (read : Reader) (limit : Nat) (file : Path) (depth passed : Nat) (text : Text)
    (following : List Text) (outer : OpenFiles) : Except Error (Option (Step × Cursor)) → Prop
  /-- The file that the line names would be too deep. -/
  | tooDeep {named : Text} : Directive.includePath? text = some named → limit < depth + 1 →
      Leads read limit file depth passed text following outer
        (.error (.fault ⟨file, passed + 1⟩ (.includeTooDeep (file.resolve named) limit)))
  /-- The file that the line names cannot be read. -/
  | notFound {named : Text} {reason : FileFault} : Directive.includePath? text = some named →
      read (file.resolve named) = .error reason →
      Leads read limit file depth passed text following outer
        (.error (.fault ⟨file, passed + 1⟩ (.includeNotFound (file.resolve named) reason)))
  /-- The lines of the file that the line names come next. -/
  | included {named : Text} {texts : List Text} : Directive.includePath? text = some named →
      depth + 1 ≤ limit → read (file.resolve named) = .ok texts →
      Leads read limit file depth passed text following outer
        (.ok (some (.splice named ⟨file, passed + 1⟩,
          ⟨SourceLine.numberFrom (file.resolve named) (depth + 1) 0 texts ::
            SourceLine.numberFrom file depth (passed + 1) following :: outer, none⟩)))
  /-- The definition that starts on the line is faulty. -/
  | faulty {e : Error} : Directive.includePath? text = none →
      Directive.startsDefinition text = true →
      Definition.ofLines file depth passed text following = .error e →
      Leads read limit file depth passed text following outer (.error e)
  /-- A definition starts on the line. -/
  | defined {d : Definition} {e : Definition.Enclosed} : Directive.includePath? text = none →
      Directive.startsDefinition text = true →
      Definition.ofLines file depth passed text following = .ok (d, e) →
      Leads read limit file depth passed text following outer
        (.ok (some (.define d,
          ⟨SourceLine.numberFrom file depth (passed + e.parts.length) e.left :: outer,
            (if Symbol.isBlank e.rest then none else some e.rest).map fun t =>
              ⟨t, ⟨file, passed + 1⟩, depth⟩⟩)))
  /-- The line is text. -/
  | plain : Directive.includePath? text = none → Directive.startsDefinition text = false →
      Leads read limit file depth passed text following outer
        (.ok (some (.text ⟨text, ⟨file, passed + 1⟩, depth⟩,
          ⟨SourceLine.numberFrom file depth (passed + 1) following :: outer, none⟩)))

/-- **One line.** The next step of a document that goes on with a line is what the line leads to. -/
theorem leads_next? (read : Reader) (limit : Nat) (file : Path) (depth passed : Nat)
    (text : Text) (following : List Text) (outer : OpenFiles) :
    Leads read limit file depth passed text following outer (next? read limit
      ⟨SourceLine.numberFrom file depth passed (text :: following) :: outer, none⟩) := by
  rw [SourceLine.numberFrom]
  cases hnamed : Directive.includePath? text with
  | some named =>
    rw [next?_of_include hnamed]
    by_cases hdeep : limit < depth + 1
    · simp only [OpenFiles.splice, if_pos hdeep]
      exact .tooDeep hnamed hdeep
    · cases hread : read (file.resolve named) with
      | error reason =>
        simp only [OpenFiles.splice, if_neg hdeep, hread]
        exact .notFound hnamed hread
      | ok texts =>
        simp only [OpenFiles.splice, if_neg hdeep, hread, SourceLine.number_eq_numberFrom]
        exact .included hnamed (by omega) hread
  | none =>
    cases hstarts : Directive.startsDefinition text with
    | false =>
      rw [next?_of_text hnamed (by simp [hstarts])]
      exact .plain hnamed hstarts
    | true =>
      rw [next?_of_definition hnamed hstarts]
      cases hlines : Definition.ofLines file depth passed text following with
      | error e =>
        have hparse := Definition.parse_of_error hlines
        split
        · next e' _ heq =>
          obtain rfl : e' = e := by simpa [heq] using hparse
          exact .faulty hnamed hstarts hlines
        · next heq => simp [heq] at hparse
      | ok found =>
        obtain ⟨d, e⟩ := found
        obtain ⟨used, hparse, hdrop⟩ := Definition.parse_of_ok hlines
        simp only [hparse, hdrop]
        exact .defined hnamed hstarts hlines
end Cursor

/-! ### Lines of loaded files -/

section Places

variable (loaded : Path → List Text → Prop)

/-- The line `text` stands at a location of a loaded file, and the lines `after` follow it there. -/
def Location.Shows (l : Location) (text : Text) (after : List Text) : Prop :=
  ∃ before, loaded l.file (before ++ text :: after) ∧ l.line = before.length + 1

/-- The definition, with the lines that it takes, is the one that starts at its location. -/
def Definition.Stands (d : Definition) (e : Enclosed) : Prop :=
  ∃ depth before text after, loaded d.location.file (before ++ text :: after) ∧
    Directive.startsDefinition text = true ∧
    ofLines d.location.file depth before.length text after = .ok (d, e)

/-- The text after a definition, which has the location of the definition. -/
def SourceLine.Trails (line : SourceLine) : Prop :=
  ∃ d e, Definition.Stands loaded d e ∧ line.location = d.location ∧ line.text = e.rest

/-- What a step is read from. -/
def Step.Stands : Step → Prop
  | .splice named location => ∃ text after, location.Shows loaded text after ∧
      Directive.includePath? text = some named
  | .define d => ∃ e, d.Stands loaded e
  | .text line => (∃ after, line.location.Shows loaded line.text after ∧
      Directive.startsDefinition line.text = false) ∨ line.Trails loaded

/-- The lines are what is left of a loaded file. -/
def SourceLine.RestOf (lines : List SourceLine) : Prop :=
  ∃ file depth before unread, loaded file (before ++ unread) ∧
    lines = numberFrom file depth before.length unread

/-- What is left of a document stands in loaded files. -/
structure Cursor.Reads (c : Cursor) : Prop where
  /-- Each open file is the end of a loaded one. -/
  files : ∀ lines ∈ c.files, SourceLine.RestOf loaded lines
  /-- The text that comes before the next line follows a definition. -/
  queued : ∀ line, c.queued = some line → line.Trails loaded

end Places

variable {loaded : Path → List Text → Prop}

/-- What stands at the location of a definition: its header, and then the lines that it takes. -/
theorem Definition.Stands.shows {d : Definition} {e : Enclosed} (h : d.Stands loaded e) :
    ∃ text after s, d.location.Shows loaded text after ∧
      Directive.startsDefinition text = true ∧ signature text = .ok s ∧ s.name = d.name ∧
      enclosed? (s.rest :: after) = some e := by
  obtain ⟨depth, before, text, after, hloaded, hstarts, hlines⟩ := h
  obtain ⟨s, hsignature, he, -, hd⟩ := of_ofLines hlines
  have hlocation : d.location = ⟨d.location.file, before.length + 1⟩ := congrArg location hd
  refine ⟨text, after, s, ⟨before, hloaded, ?_⟩, hstarts, hsignature, congrArg name hd.symm, he⟩
  exact congrArg Location.line hlocation

theorem Definition.Stands.wellFormed {d : Definition} {e : Enclosed} (h : d.Stands loaded e) :
    d.WellFormed := by
  obtain ⟨depth, before, text, after, -, -, hlines⟩ := h
  exact wellFormed_of_ofLines hlines

namespace Cursor

variable {read : Reader} {limit : Nat} {c d : Cursor} {step : Step}

/-- What comes next: the text after a definition, the end of the document, or a line of a loaded
file. -/
theorem Reads.cases (h : c.Reads loaded) (read : Reader) (limit : Nat) :
    (∃ line, c.queued = some line ∧ line.Trails loaded) ∨ c.next? read limit = .ok none ∨
      ∃ file depth before text after outer, loaded file (before ++ text :: after) ∧
        (∀ lines ∈ outer, SourceLine.RestOf loaded lines) ∧
        Leads read limit file depth before.length text after outer (c.next? read limit) := by
  obtain ⟨files, queued⟩ := c
  cases queued with
  | some line => exact .inl ⟨line, rfl, h.queued line rfl⟩
  | none =>
    right
    obtain ⟨hfiles, -⟩ := h
    -- Files that are at their end are left, so the first line left is what matters.
    induction files with
    | nil => exact .inl rfl
    | cons lines outer ih =>
      obtain ⟨hlines, houter⟩ := List.forall_mem_cons.mp hfiles
      obtain ⟨file, depth, before, unread, hloaded, rfl⟩ := hlines
      cases unread with
      | nil => exact ih houter
      | cons text after =>
        exact .inr ⟨file, depth, before, text, after, outer, hloaded, houter,
          leads_next? read limit file depth before.length text after outer⟩

/-- **One step.** It stands in loaded files, and so does what is left after it, if a file that it
includes is loaded too. -/
theorem Reads.next (h : c.Reads loaded) (hnext : c.next? read limit = .ok (some (step, d)))
    (hincluded : ∀ named location texts, step = .splice named location →
      read (location.file.resolve named) = .ok texts →
      loaded (location.file.resolve named) texts) :
    step.Stands loaded ∧ d.Reads loaded := by
  obtain ⟨line, hqueued, htrails⟩ | hend | ⟨file, depth, before, text, after, outer, hloaded,
    houter, hleads⟩ := h.cases read limit
  · simp only [next?, hqueued] at hnext
    obtain ⟨rfl, rfl⟩ := Prod.mk.inj (Option.some.inj (Except.ok.inj hnext))
    exact ⟨.inr htrails, h.files, by simp⟩
  · rw [hend] at hnext
    cases hnext
  · have hrest : loaded file ((before ++ [text]) ++ after) := by simpa using hloaded
    have hafter : SourceLine.RestOf loaded
        (SourceLine.numberFrom file depth (before.length + 1) after) :=
      ⟨file, depth, before ++ [text], after, hrest, by simp⟩
    rw [hnext] at hleads
    cases hleads with
    | included hnamed _ hread =>
      refine ⟨⟨text, after, ⟨before, hloaded, rfl⟩, hnamed⟩, ?_, by simp⟩
      have hfile := hincluded _ _ _ rfl hread
      exact List.forall_mem_cons.mpr ⟨⟨_, _, [], _, hfile, rfl⟩,
        List.forall_mem_cons.mpr ⟨hafter, houter⟩⟩
    | @defined d e _ hstarts hlines =>
      obtain ⟨s, -, he, -, hd⟩ := Definition.of_ofLines hlines
      have hlocation : d.location = ⟨file, before.length + 1⟩ := congrArg Definition.location hd
      have hstands : d.Stands loaded e := by
        refine ⟨depth, before, text, after, ?_, hstarts, ?_⟩
        · rw [hlocation]
          exact hloaded
        · rw [hlocation]
          exact hlines
      refine ⟨⟨e, hstands⟩, List.forall_mem_cons.mpr ⟨?_, houter⟩, fun line hline => ?_⟩
      · -- The definition takes the header and as many lines after it as it has parts but one.
        obtain ⟨taken, ending, part, hsplit, -, -, hparts⟩ := Definition.of_enclosed? he
        have hlength : e.parts.length = taken.length + 1 := by simp [hparts]
        have hafter' : text :: after = (text :: after).take e.parts.length ++ e.left := by
          have hdrop : (text :: after).drop e.parts.length = e.left := by
            have hleft : (s.rest :: after).drop e.parts.length = e.left := by
              rw [hsplit, hlength]
              simp
            rw [hlength] at hleft ⊢
            exact hleft
          rw [← hdrop, List.take_append_drop]
        have hle : e.parts.length ≤ (text :: after).length := by
          have := congrArg List.length hsplit
          simp only [List.length_cons, List.length_append] at this ⊢
          omega
        refine ⟨file, depth, before ++ (text :: after).take e.parts.length, e.left, ?_, ?_⟩
        · rw [List.append_assoc, ← hafter']
          exact hloaded
        · rw [List.length_append, List.length_take, Nat.min_eq_left hle]
      · obtain ⟨t, ht, rfl⟩ := Option.map_eq_some_iff.mp hline
        refine ⟨d, e, hstands, hlocation.symm, ?_⟩
        split at ht
        · cases ht
        · exact (Option.some.inj ht).symm
    | plain _ hstarts =>
      exact ⟨.inl ⟨after, ⟨before, hloaded, rfl⟩, hstarts⟩,
        List.forall_mem_cons.mpr ⟨hafter, houter⟩, by simp⟩

/-! ### Boundaries -/

variable {σ : Type} {read : σ → Reader} {act : σ → Step → σ × Option Error} {name : Path}
  {lines : List Text} {s t : σ}

/-- The files that are loaded when a document is read: the document itself, and what an `include`
line of it names, as the file is when the line is read. -/
inductive Loaded (read : σ → Reader) (limit : Nat) (act : σ → Step → σ × Option Error)
    (name : Path) (lines : List Text) (s : σ) : Path → List Text → Prop
  /-- The document. -/
  | document : Loaded read limit act name lines s name lines
  /-- A file that is included at a boundary. -/
  | included {c d : Cursor} {t : σ} {named : Text} {location : Location} {texts : List Text} :
      Reached read limit act { files := OpenFiles.ofLines name lines } s c t →
      c.next? (read t) limit = .ok (some (.splice named location, d)) →
      read t (location.file.resolve named) = .ok texts →
      Loaded read limit act name lines s (location.file.resolve named) texts

/-- **At every boundary** what is left of a document stands in the files that were loaded. -/
theorem Reached.reads
    (h : Reached read limit act { files := OpenFiles.ofLines name lines } s c t) :
    c.Reads (Loaded read limit act name lines s) := by
  induction h with
  | start =>
    refine ⟨fun rest hrest => ?_, by simp⟩
    obtain rfl := List.mem_singleton.mp hrest
    exact ⟨name, 0, [], lines, .document, SourceLine.number_eq_numberFrom name 0 lines⟩
  | step hreached hnext _ ih =>
    refine (ih.next hnext fun named location texts hsplice hread => ?_).2
    subst hsplice
    exact .included hreached hnext hread

/-- Every step stands in the files that were loaded. -/
theorem Reached.stands
    (h : Reached read limit act { files := OpenFiles.ofLines name lines } s c t)
    (hnext : c.next? (read t) limit = .ok (some (step, d))) :
    step.Stands (Loaded read limit act name lines s) := by
  refine (h.reads.next hnext fun named location texts hsplice hread => ?_).1
  subst hsplice
  exact .included h hnext hread

end Cursor

/-- The text after a definition stands on the line with the end of the definition, which is the line
of its location or a later one. -/
theorem SourceLine.Trails.shows {line : SourceLine} (h : line.Trails loaded) :
    ∃ text after, line.location.Shows loaded text after ∧
      Directive.startsDefinition text = true ∧ ∃ between ending below part,
        text :: after = between ++ ending :: below ∧
        ending = part ++ Directive.endKeyword ++ line.text := by
  obtain ⟨d, e, hstands, hlocation, htext⟩ := h
  obtain ⟨text, after, s, hshows, hstarts, hsignature, -, he⟩ := hstands.shows
  refine ⟨text, after, hlocation ▸ hshows, hstarts, ?_⟩
  obtain ⟨taken, ending, part, hsplit, -, hcut, -⟩ := Definition.of_enclosed? he
  obtain ⟨hending, -⟩ := Lexeme.eq_of_cutAt hcut
  rw [← htext] at hending
  cases taken with
  | nil =>
    -- The definition ends on the line of its header, of which `ending` is the last part.
    obtain ⟨rfl, -⟩ := List.cons.inj hsplit
    obtain ⟨front, hfront⟩ := Definition.suffix_of_signature hsignature
    exact ⟨[], text, after, front ++ part, rfl, by rw [← hfront, hending]; simp⟩
  | cons _ taken =>
    obtain ⟨-, rfl⟩ := List.cons.inj hsplit
    exact ⟨text :: taken, ending, e.left, part, rfl, hending⟩

/-- Text has the location of a line. -/
theorem Step.Stands.shows_text {line : SourceLine} (h : (Step.text line).Stands loaded) :
    ∃ text after, line.location.Shows loaded text after := by
  rcases h with ⟨after, hshows, -⟩ | htrails
  · exact ⟨line.text, after, hshows⟩
  · obtain ⟨text, after, hshows, -⟩ := htrails.shows
    exact ⟨text, after, hshows⟩

/-- **Where the text of a document stands.** A line that is text stands where its location says.
Text after a definition has the location of the line where the definition starts, and is what
follows an `endmacro` on that line or on a later one of the same file. -/
theorem text_steps_stand_at_or_below_their_location {σ : Type} (read : σ → Reader) (limit : Nat)
    (act : σ → Step → σ × Option Error) (name : Path) (lines : List Text) (s : σ)
    {c d : Cursor} {t : σ} {line : SourceLine}
    (hreached : Cursor.Reached read limit act { files := OpenFiles.ofLines name lines } s c t)
    (hnext : c.next? (read t) limit = .ok (some (.text line, d))) :
    ∃ text after,
      line.location.Shows (Cursor.Loaded read limit act name lines s) text after ∧
      ((Directive.startsDefinition text = false ∧ line.text = text) ∨
        (Directive.startsDefinition text = true ∧ ∃ between ending below part,
          text :: after = between ++ ending :: below ∧
          ending = part ++ Directive.endKeyword ++ line.text)) := by
  rcases hreached.stands hnext with ⟨after, hshows, htext⟩ | htrails
  · exact ⟨line.text, after, hshows, .inl ⟨htext, rfl⟩⟩
  · obtain ⟨text, after, hshows, hstarts, hending⟩ := htrails.shows
    exact ⟨text, after, hshows, .inr ⟨hstarts, hending⟩⟩

/-- A definition of two lines with text after it: the text stands on the second line. -/
theorem trailing_text_stands_below_its_location :
    let lines := ["define m()".toList, "x endmacro tail".toList]
    let read : Unit → Reader := fun _ _ => .error .absent
    let act : Unit → Step → Unit × Option Error := fun s _ => (s, none)
    let line : SourceLine := ⟨" tail".toList, ⟨⟨['d']⟩, 1⟩, 0⟩
    (∃ c d, Cursor.Reached read 0 act { files := OpenFiles.ofLines ⟨['d']⟩ lines } () c () ∧
      c.next? (read ()) 0 = .ok (some (.text line, d))) ∧
    ∃ text after, line.location.Shows (Cursor.Loaded read 0 act ⟨['d']⟩ lines ()) text after ∧
      ((Directive.startsDefinition text = false ∧ line.text = text) ∨
        (Directive.startsDefinition text = true ∧ ∃ between ending below part,
          text :: after = between ++ ending :: below ∧
          ending = part ++ Directive.endKeyword ++ line.text)) := by
  intro lines read act line
  have hdefine : Cursor.next? (read ()) 0 { files := OpenFiles.ofLines ⟨['d']⟩ lines } =
      .ok (some (.define ⟨['m'], [], ['x'], ⟨⟨['d']⟩, 1⟩⟩, ⟨[[]], some line⟩)) := by
    decide +kernel
  have hreached : Cursor.Reached read 0 act { files := OpenFiles.ofLines ⟨['d']⟩ lines } ()
      ⟨[[]], some line⟩ () := .step .start hdefine rfl
  exact ⟨⟨_, _, hreached, rfl⟩,
    text_steps_stand_at_or_below_their_location read 0 act ⟨['d']⟩ lines () hreached rfl⟩

/-- Text does not always stand on the line of its location: the text after a definition of two lines
is no part of the first. -/
theorem trailing_text_is_not_on_the_line_of_its_location :
    let header := "define m()".toList
    let read : Reader := fun _ => .error .absent
    ∃ steps c d line, Walk (Cursor.next? read 0)
        { files := OpenFiles.ofLines ⟨['d']⟩ [header, "x endmacro tail".toList] } steps c ∧
      c.next? read 0 = .ok (some (.text line, d)) ∧
      line.location = ⟨⟨['d']⟩, 1⟩ ∧ ¬ line.text <:+ header := by
  intro header read
  let line : SourceLine := ⟨" tail".toList, ⟨⟨['d']⟩, 1⟩, 0⟩
  have hdefine : Cursor.next? read 0
      { files := OpenFiles.ofLines ⟨['d']⟩ [header, "x endmacro tail".toList] } =
        .ok (some (.define ⟨['m'], [], ['x'], ⟨⟨['d']⟩, 1⟩⟩, ⟨[[]], some line⟩)) := by
    decide +kernel
  exact ⟨_, _, _, line, Walk.start.step hdefine, rfl, rfl, by decide⟩

end TextExpander
