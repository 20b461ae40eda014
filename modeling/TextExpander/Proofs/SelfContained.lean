import TextExpander.Proofs.Origins

/-!
# Lines that stand on their own

A definition takes lines up to its end, so what a line is depends on the lines before it in its
file. But if some lines hold every definition that they start to its end, then what comes after them
is read as if it were the beginning. In the recursive course of a file such lines give their steps,
and the lines after them theirs, with nothing but the numbers of the lines carried over.

Where a document has read its own lines up to some line, and this line is the next to be read, the
lines before it stand on their own. Files that are still open there are included ones, which are
deeper than the document.

## Main definitions

* `SelfContained`: each definition that the lines start ends in them.

## Main results

* `SelfContained.splice_append`: the course of the lines, and then that of the lines after them.
* `selfContained_of_splice`: lines that give a course without an error are self-contained.
* `selfContained_of_walk`: the lines of a document before one that is reached as a line.
-/

namespace TextExpander

namespace Definition

/-- What lines enclose does not depend on those after the end. -/
theorem enclosed?_append {lines : List Text} {e : Enclosed} (h : enclosed? lines = some e)
    (more : List Text) : enclosed? (lines ++ more) = some { e with left := e.left ++ more } := by
  induction lines generalizing e with
  | nil => cases h
  | cons text following ih =>
    rw [enclosed?] at h
    rw [List.cons_append, enclosed?]
    split at h
    · obtain rfl := Option.some.inj h
      rfl
    · obtain ⟨e', he', rfl⟩ := Option.map_eq_some_iff.mp h
      rw [ih he']
      rfl

/-- The lines up to the end enclose the same, with nothing left. -/
theorem exists_taken_of_enclosed? {lines : List Text} {e : Enclosed}
    (h : enclosed? lines = some e) : ∃ taken, lines = taken ++ e.left ∧
      enclosed? taken = some { e with left := [] } ∧ taken.length = e.parts.length := by
  induction lines generalizing e with
  | nil => cases h
  | cons text following ih =>
    rw [enclosed?] at h
    split at h
    · next part rest hcut =>
      obtain rfl := Option.some.inj h
      exact ⟨[text], rfl, by rw [enclosed?, hcut], rfl⟩
    · next hcut =>
      obtain ⟨e', he', rfl⟩ := Option.map_eq_some_iff.mp h
      obtain ⟨taken, hlines, henclosed, hlength⟩ := ih he'
      refine ⟨text :: taken, congrArg (text :: ·) hlines, ?_, congrArg Nat.succ hlength⟩
      rw [enclosed?, hcut, henclosed]
      rfl

/-- The definition on a line, given what the lines enclose. A directive in the body is an error. -/
theorem ofLines_of_enclosed? (file : Path) (depth passed : Nat) {text : Text}
    {following : List Text} {s : Signature} {e : Enclosed} (hs : signature text = .ok s)
    (he : enclosed? (s.rest :: following) = some e) :
    ofLines file depth passed text following =
      match nestedError? s.name (SourceLine.numberFrom file depth passed e.parts) with
      | some err => .error err
      | none => .ok (⟨s.name, s.parameters, Symbol.trim (Text.joinLines e.parts),
          ⟨file, passed + 1⟩⟩, e) := by
  simp only [ofLines, hs, enclose, he]
  cases nestedError? s.name (SourceLine.numberFrom file depth passed e.parts) <;> rfl

end Definition

/-! ### The course of one line and of those after it -/

theorem Course.andThen_of_ok {c : Course} (h : c.failure = none) (d : Course) :
    c.andThen d = { d with steps := c.steps ++ d.steps } := by
  obtain ⟨steps, failure⟩ := c
  obtain rfl : failure = none := h
  rfl

theorem Course.parts_of_andThen {c d : Course} (h : (c.andThen d).failure = none) :
    c.failure = none ∧ d.failure = none ∧ (c.andThen d).steps = c.steps ++ d.steps := by
  obtain ⟨steps, failure⟩ := c
  cases failure with
  | some e => cases h
  | none => exact ⟨rfl, h, rfl⟩

section Courses

variable {text : Text} (read : Reader) (limit : Nat) (file : Path) (depth passed : Nat)

theorem splice_of_definition {following : List Text} {d : Definition} {e : Definition.Enclosed}
    (hinclude : Directive.includePath? text = none)
    (hstarts : Directive.startsDefinition text = true)
    (h : Definition.ofLines file depth passed text following = .ok (d, e)) :
    splice read limit file depth passed (text :: following) =
      (Course.andThen { steps := Step.ofTrailing e.rest ⟨file, passed + 1⟩ depth }
        (splice read limit file depth (passed + e.parts.length) e.left)).cons (.define d) := by
  rw [splice]
  simp only [hinclude, hstarts, if_true]
  split
  · next h' => simp [h] at h'
  · next h' =>
    obtain ⟨rfl, rfl⟩ := by simpa [h] using h'
    rfl

theorem splice_of_faulty {following : List Text} {err : Error}
    (hinclude : Directive.includePath? text = none)
    (hstarts : Directive.startsDefinition text = true)
    (h : Definition.ofLines file depth passed text following = .error err) :
    splice read limit file depth passed (text :: following) = .failed err := by
  rw [splice]
  simp only [hinclude, hstarts, if_true]
  split
  · next h' => rw [Except.error.inj (h.symm.trans h')]
  · next h' => simp [h] at h'

theorem splice_of_plain (hinclude : Directive.includePath? text = none)
    (hstarts : Directive.startsDefinition text = false) (following : List Text) :
    splice read limit file depth passed (text :: following) =
      (splice read limit file depth (passed + 1) following).cons
        (.text ⟨text, ⟨file, passed + 1⟩, depth⟩) := by
  rw [splice]
  simp only [hinclude, hstarts, Bool.false_eq_true, if_false]

theorem splice_of_included {named : Text} {texts : List Text}
    (h : Directive.includePath? text = some named) (hdeep : ¬ limit < depth + 1)
    (hread : read (file.resolve named) = .ok texts) (following : List Text) :
    splice read limit file depth passed (text :: following) =
      ((splice read limit (file.resolve named) (depth + 1) 0 texts).andThen
        (splice read limit file depth (passed + 1) following)).cons
          (.splice named ⟨file, passed + 1⟩) := by
  rw [splice]
  simp only [h, if_neg hdeep, hread]

/-- What an `include` line gives does not depend on the lines after it. -/
theorem exists_splice_of_include {named : Text}
    (h : Directive.includePath? text = some named) :
    ∃ c : Course, ∀ following, splice read limit file depth passed (text :: following) =
      c.andThen (splice read limit file depth (passed + 1) following) := by
  by_cases hdeep : limit < depth + 1
  · refine ⟨.failed (.fault ⟨file, passed + 1⟩ (.includeTooDeep (file.resolve named) limit)),
      fun following => ?_⟩
    rw [splice]
    simp only [h, if_pos hdeep, Course.failed_andThen]
  · cases hread : read (file.resolve named) with
    | error reason =>
      refine ⟨.failed (.fault ⟨file, passed + 1⟩ (.includeNotFound (file.resolve named) reason)),
        fun following => ?_⟩
      rw [splice]
      simp only [h, if_neg hdeep, hread, Course.failed_andThen]
    | ok texts =>
      refine ⟨(splice read limit (file.resolve named) (depth + 1) 0 texts).cons
        (.splice named ⟨file, passed + 1⟩), fun following => ?_⟩
      rw [splice_of_included read limit file depth passed h hdeep hread, Course.cons_andThen]

end Courses

/-! ### Self-contained lines -/

/-- Each definition that the lines start ends in them. -/
inductive SelfContained : List Text → Prop
  /-- No lines. -/
  | nil : SelfContained []
  /-- A line that includes a file. -/
  | inclusion {text named : Text} {following : List Text} :
      Directive.includePath? text = some named → SelfContained following →
      SelfContained (text :: following)
  /-- A line that is text. -/
  | plain {text : Text} {following : List Text} : Directive.includePath? text = none →
      Directive.startsDefinition text = false → SelfContained following →
      SelfContained (text :: following)
  /-- The lines of a definition. -/
  | definition {text : Text} {following : List Text} {s : Definition.Signature}
      {e : Definition.Enclosed} : Directive.includePath? text = none →
      Directive.startsDefinition text = true → Definition.signature text = .ok s →
      Definition.enclosed? (s.rest :: following) = some e → SelfContained e.left →
      SelfContained (text :: following)

namespace SelfContained

theorem append {lines more : List Text} (h : SelfContained lines) (hmore : SelfContained more) :
    SelfContained (lines ++ more) := by
  induction h with
  | nil => exact hmore
  | inclusion hnamed _ ih => exact .inclusion hnamed ih
  | plain hinclude hstarts _ ih => exact .plain hinclude hstarts ih
  | definition hinclude hstarts hs he _ ih =>
    exact .definition hinclude hstarts hs (Definition.enclosed?_append he more) ih

/-- **The lines, and then the lines after them.** -/
theorem splice_append {lines : List Text} (h : SelfContained lines) (read : Reader) (limit : Nat)
    (file : Path) (depth passed : Nat) (more : List Text) :
    splice read limit file depth passed (lines ++ more) =
      (splice read limit file depth passed lines).andThen
        (splice read limit file depth (passed + lines.length) more) := by
  induction h generalizing passed with
  | nil =>
    rw [splice]
    rfl
  | @inclusion text named following hnamed _ ih =>
    obtain ⟨c, hc⟩ := exists_splice_of_include read limit file depth passed hnamed
    rw [List.cons_append, hc, hc, ih, Course.andThen_assoc, List.length_cons]
    simp only [Nat.add_right_comm, Nat.add_assoc]
  | @plain text following hinclude hstarts _ ih =>
    rw [List.cons_append, splice_of_plain read limit file depth passed hinclude hstarts,
      splice_of_plain read limit file depth passed hinclude hstarts, ih, Course.cons_andThen,
      List.length_cons]
    simp only [Nat.add_right_comm, Nat.add_assoc]
  | @definition text following s e hinclude hstarts hs he _ ih =>
    have he' : Definition.enclosed? (s.rest :: (following ++ more)) =
        some { e with left := e.left ++ more } := Definition.enclosed?_append he more
    have hlines := Definition.ofLines_of_enclosed? file depth passed hs he
    have hlines' := Definition.ofLines_of_enclosed? file depth passed hs he'
    cases hnested : Definition.nestedError? s.name
        (SourceLine.numberFrom file depth passed e.parts) with
    | some err =>
      rw [hnested] at hlines hlines'
      rw [List.cons_append, splice_of_faulty read limit file depth passed hinclude hstarts hlines,
        splice_of_faulty read limit file depth passed hinclude hstarts hlines',
        Course.failed_andThen]
    | none =>
      rw [hnested] at hlines hlines'
      have hlength := (Definition.length_enclosed? he).2
      rw [List.cons_append,
        splice_of_definition read limit file depth passed hinclude hstarts hlines,
        splice_of_definition read limit file depth passed hinclude hstarts hlines', ih,
        Course.cons_andThen, Course.andThen_assoc]
      rw [List.length_cons] at hlength
      simp only [List.length_cons, Nat.add_assoc, hlength]

end SelfContained

/-- Lines that give a course without an error are self-contained. -/
theorem selfContained_of_splice {read : Reader} {limit : Nat} {file : Path} {depth passed : Nat}
    {lines : List Text} (h : (splice read limit file depth passed lines).failure = none) :
    SelfContained lines := by
  fun_induction splice read limit file depth passed lines with
  | case1 => exact .nil
  | case2 => cases h
  | case3 => cases h
  | case4 file depth passed text following here named hnamed path hdeep texts hread _ ih =>
    exact .inclusion hnamed (ih (Course.parts_of_andThen h).2.1)
  | case5 => cases h
  | case6 file depth passed text following here hnamed hstarts d e hlines ih =>
    obtain ⟨s, hs, he, -⟩ := Definition.of_ofLines hlines
    exact .definition hnamed hstarts hs he (ih h)
  | case7 file depth passed text following here hnamed hstarts ih =>
    exact .plain hnamed (by simpa using hstarts) (ih h)

/-! ### Places between the lines of a document -/

namespace Cursor

/-- The document has read self-contained lines of its own, and all other files that are open are
included ones. -/
def Between (name : Path) (lines : List Text) (c : Cursor) : Prop :=
  ∃ inner passed unread, c.files = inner ++ [SourceLine.numberFrom name 0 passed.length unread] ∧
    lines = passed ++ unread ∧ SelfContained passed ∧ ∀ file ∈ inner, ∀ l ∈ file, l.depth ≠ 0

variable {name : Path} {lines : List Text} {c d : Cursor} {read : Reader} {limit : Nat}

/-- A line of the document itself is read. -/
theorem Between.next_line {passed : List Text} {text : Text} {following : List Text} {step : Step}
    (hlines : lines = passed ++ text :: following) (hpassed : SelfContained passed)
    (hnext : next? read limit
      ⟨[SourceLine.numberFrom name 0 passed.length (text :: following)], none⟩ =
        .ok (some (step, d))) : d.Between name lines := by
  have hone : lines = (passed ++ [text]) ++ following := by simp [hlines]
  have hleads := leads_next? read limit name 0 passed.length text following []
  rw [hnext] at hleads
  cases hleads with
  | @included named texts hnamed _ _ =>
    refine ⟨[SourceLine.numberFrom (name.resolve named) (0 + 1) 0 texts], passed ++ [text],
      following, ?_, hone, ?_, ?_⟩
    · rw [List.length_append]
      rfl
    · exact hpassed.append (.inclusion hnamed .nil)
    · intro file hfile l hl
      obtain rfl := List.mem_singleton.mp hfile
      rw [SourceLine.depth_of_mem_numberFrom hl]
      exact Nat.succ_ne_zero 0
  | @defined _ e hinclude hstarts hdefinition =>
    obtain ⟨s, hs, he, -⟩ := Definition.of_ofLines hdefinition
    obtain ⟨taken, hsplit, htaken, hlength⟩ := Definition.exists_taken_of_enclosed? he
    cases taken with
    | nil => cases htaken
    | cons rest taken =>
      obtain ⟨rfl, rfl⟩ := List.cons.inj hsplit
      refine ⟨[], passed ++ text :: taken, e.left, ?_, by simp [hlines], ?_, by simp⟩
      · rw [List.length_append, List.length_cons, ← hlength]
        rfl
      · exact hpassed.append (.definition hinclude hstarts hs htaken .nil)
  | plain hinclude hstarts =>
    refine ⟨[], passed ++ [text], following, ?_, hone, ?_, by simp⟩
    · rw [List.length_append]
      rfl
    · exact hpassed.append (.plain hinclude hstarts .nil)

/-- **One step** from a place between the lines of a document. -/
theorem Between.next {step : Step} (h : c.Between name lines)
    (hnext : c.next? read limit = .ok (some (step, d))) : d.Between name lines := by
  obtain ⟨files, queued⟩ := c
  obtain ⟨inner, passed, unread, rfl, hlines, hpassed, hinner⟩ := h
  cases queued with
  | some line =>
    obtain ⟨-, rfl⟩ := Prod.mk.inj (Option.some.inj (Except.ok.inj hnext))
    exact ⟨inner, passed, unread, rfl, hlines, hpassed, hinner⟩
  | none =>
    -- Included files that are at their end are left, so the first line left is what matters.
    induction inner with
    | nil =>
      cases unread with
      | nil => cases hnext
      | cons text following => exact Between.next_line hlines hpassed hnext
    | cons file inner ih =>
      obtain ⟨hfile, hothers⟩ := List.forall_mem_cons.mp hinner
      cases file with
      | nil => exact ih hothers hnext
      | cons line rest =>
        obtain ⟨hline, hrest⟩ := List.forall_mem_cons.mp hfile
        rcases follows_cons ⟨read, step, hnext⟩ with ⟨n, hfiles⟩ | ⟨-, -, path, texts, hfiles⟩
        · refine ⟨rest.drop n :: inner, passed, unread, hfiles, hlines, hpassed,
            List.forall_mem_cons.mpr ⟨fun l hl => ?_, hothers⟩⟩
          exact hrest l (List.mem_of_mem_drop hl)
        · refine ⟨_ :: rest :: inner, passed, unread, hfiles, hlines, hpassed,
            List.forall_mem_cons.mpr ⟨fun l hl => ?_, List.forall_mem_cons.mpr ⟨hrest, hothers⟩⟩⟩
          rw [depth_of_mem_number hl]
          exact Nat.succ_ne_zero _

theorem Between.walk {steps : List Step}
    (h : Walk (next? read limit) { files := OpenFiles.ofLines name lines } steps c) :
    c.Between name lines := by
  induction h with
  | start =>
    refine ⟨[], [], lines, ?_, rfl, .nil, by simp⟩
    rw [OpenFiles.ofLines, SourceLine.number_eq_numberFrom]
    rfl
  | step _ hnext ih => exact ih.next hnext

/-- A line of depth zero that is read next is one of the document. -/
theorem eq_of_next?_append {inner : OpenFiles} (hinner : ∀ file ∈ inner, ∀ l ∈ file, l.depth ≠ 0)
    {own : List SourceLine} {line : SourceLine} {rest : OpenFiles} (hline : line.depth = 0)
    (h : OpenFiles.next? (inner ++ [own]) = some (line, rest)) :
    ∃ following, own = line :: following := by
  induction inner with
  | nil =>
    cases own with
    | nil => cases h
    | cons l own =>
      obtain ⟨rfl, -⟩ := Prod.mk.inj (Option.some.inj h)
      exact ⟨own, rfl⟩
  | cons file inner ih =>
    obtain ⟨hfile, hothers⟩ := List.forall_mem_cons.mp hinner
    cases file with
    | nil => exact ih hothers h
    | cons l file =>
      obtain ⟨rfl, -⟩ := Prod.mk.inj (Option.some.inj h)
      exact absurd hline (hfile _ List.mem_cons_self)

end Cursor

/-- **The lines before a line that is reached as such.** If the next line of the document to be read
is the one after `before`, then these lines are self-contained. -/
theorem selfContained_of_walk {read : Reader} {limit : Nat} {name : Path}
    {before after : List Text} {text : Text} {steps : List Step} {c : Cursor} {rest : OpenFiles}
    (h : Walk (Cursor.next? read limit)
      { files := OpenFiles.ofLines name (before ++ text :: after) } steps c)
    (hnext : c.files.next? = some (⟨text, ⟨name, before.length + 1⟩, 0⟩, rest)) :
    SelfContained before := by
  obtain ⟨inner, passed, unread, hfiles, hlines, hpassed, hinner⟩ := Cursor.Between.walk h
  rw [hfiles] at hnext
  obtain ⟨following, hown⟩ := Cursor.eq_of_next?_append hinner rfl hnext
  cases unread with
  | nil => cases hown
  | cons text' unread =>
    obtain ⟨hline, -⟩ := List.cons.inj hown
    have hlength : passed.length = before.length :=
      Nat.succ.inj (congrArg (fun l => l.location.line) hline)
    obtain ⟨rfl, -⟩ := List.append_inj hlines hlength.symm
    exact hpassed

end TextExpander
