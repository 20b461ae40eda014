import TextExpander.Proofs.Frames

/-!
# Including a file splices its lines

A document is read from a stack of open files: lines come from the innermost one, files that are at
their end are left when the next line is asked for, the body of a definition is taken from the
innermost file alone, and text after a definition waits in a place of its own. Said without a stack,
the lines of a file give their steps one after the other, where an `include` line gives the steps of
the lines of its file before those of the lines that follow it.

This recursive definition is `splice`. It is about one file at a time, so it knows nothing of the
files that are open around it, and it finds the end of a definition before it looks for directives
in its body. That the stack gives the same steps and the same error is proved for a file in front of
*any* open files (`Cursor.course_cons`): what comes from them follows what comes from the file. An
included file is then one more file in front, and no invariant of the stack is needed.

## Main definitions

* `Course`: the steps of a document and the error that ends it early.
* `Cursor.course`: the course of a document that is read from open files.
* `Definition.enclosed?`: the parts of a body up to its end.
* `splice`: the course of the lines of a file, by recursion.

## Main results

* `Definition.finds_readBody`: a body is read as its enclosed lines say.
* `Cursor.course_cons`: a file in front of any open files gives its steps first.
* `include_stack_splices_recursively`: the two courses are the same.
-/

namespace TextExpander

/-! ### Courses -/

/-- The steps of a document, and the error that ends it early. -/
structure Course where
  /-- The steps, in order. -/
  steps : List Step := []
  /-- The error after the last step, if there is one. -/
  failure : Option Error := none
  deriving DecidableEq, Repr

namespace Course

/-- The course that ends in an error before the first step. -/
def failed (e : Error) : Course := { failure := some e }

/-- A course after one step. -/
def cons (step : Step) (c : Course) : Course := { c with steps := step :: c.steps }

/-- One course after the other, unless the first ends in an error. -/
def andThen (c d : Course) : Course :=
  match c.failure with
  | some _ => c
  | none => { d with steps := c.steps ++ d.steps }

@[simp] theorem empty_andThen (d : Course) : andThen {} d = d := rfl

@[simp] theorem andThen_empty (c : Course) : c.andThen {} = c := by
  obtain ⟨steps, failure⟩ := c
  cases failure <;> simp [andThen]

@[simp] theorem failed_andThen (e : Error) (d : Course) : (failed e).andThen d = failed e := rfl

@[simp] theorem cons_andThen (step : Step) (c d : Course) :
    (c.cons step).andThen d = (c.andThen d).cons step := by
  obtain ⟨steps, failure⟩ := c
  cases failure <;> rfl

theorem andThen_assoc (c d e : Course) : (c.andThen d).andThen e = c.andThen (d.andThen e) := by
  obtain ⟨steps, failure⟩ := c
  obtain ⟨steps', failure'⟩ := d
  cases failure with
  | some _ => rfl
  | none => cases failure' <;> simp [andThen]

end Course

namespace Cursor

/-- The course of a document from a place on: the steps up to its end or up to the first error. -/
def course (read : Reader) (limit : Nat) (c : Cursor) : Course :=
  match _hnext : c.next? read limit with
  | .error e => .failed e
  | .ok none => {}
  | .ok (some (step, d)) => (course read limit d).cons step
termination_by (follows_wellFounded limit).wrap c
decreasing_by exact ⟨read, step, _hnext⟩

variable {read : Reader} {limit : Nat} {c d : Cursor}

theorem course_of_error {e : Error} (h : c.next? read limit = .error e) :
    course read limit c = .failed e := by
  rw [course]
  split <;> simp_all

theorem course_of_end (h : c.next? read limit = .ok none) : course read limit c = {} := by
  rw [course]
  split <;> simp_all

theorem course_of_step {step : Step} (h : c.next? read limit = .ok (some (step, d))) :
    course read limit c = (course read limit d).cons step := by
  rw [course]
  split
  · simp_all
  · simp_all
  · next step' d' h' =>
    obtain ⟨rfl, rfl⟩ : step = step' ∧ d = d' := by simpa [h] using h'
    rfl

theorem course_congr (h : c.next? read limit = d.next? read limit) :
    course read limit c = course read limit d := by
  cases hnext : d.next? read limit with
  | error e => rw [course_of_error hnext, course_of_error (h.trans hnext)]
  | ok next =>
    cases next with
    | none => rw [course_of_end hnext, course_of_end (h.trans hnext)]
    | some next => rw [course_of_step hnext, course_of_step (h.trans hnext)]

end Cursor

/-! ### The lines of a definition -/

namespace Definition

/-- The lines from the end of a parameter list to the end of the definition. -/
structure Enclosed where
  /-- The parts of the body, line by line. -/
  parts : List Text
  /-- What follows the `endmacro` on its line. -/
  rest : Text
  /-- The lines after it. -/
  left : List Text
  deriving DecidableEq, Repr

/-- The lines up to the first `endmacro`, if there is one. -/
def enclosed? : List Text → Option Enclosed
  | [] => none
  | text :: following =>
    match Directive.cutAtEnd? text with
    | some (part, rest) => some ⟨[part], rest, following⟩
    | none => (enclosed? following).map fun e => { e with parts := text :: e.parts }

/-- The error that the first directive among the parts of a body is. -/
def nestedError? (name : Text) (parts : List SourceLine) : Option Error :=
  parts.findSome? fun part =>
    (nested? part.text).map fun construct => .fault part.location (.illegalNested construct name)

theorem length_enclosed? {lines : List Text} {e : Enclosed} (h : enclosed? lines = some e) :
    e.parts ≠ [] ∧ e.parts.length + e.left.length = lines.length := by
  induction lines generalizing e with
  | nil => cases h
  | cons text following ih =>
    rw [enclosed?] at h
    split at h
    · obtain rfl := Option.some.inj h
      exact ⟨List.cons_ne_nil _ _, by simp [Nat.add_comm]⟩
    · obtain ⟨e', he', rfl⟩ := Option.map_eq_some_iff.mp h
      refine ⟨List.cons_ne_nil _ _, ?_⟩
      have hlength := (ih he').2
      simp only [List.length_cons]
      omega

/-- The lines that the definition of `name` with its header at `home` takes of the lines of a file
after the first `passed`, the first of which starts after the parameter list. The end has to be
there, and no part before it may be a directive; a directive counts first. -/
def enclose (name : Text) (home : Location) (file : Path) (depth passed : Nat)
    (lines : List Text) : Except Error Enclosed :=
  match enclosed? lines with
  | none =>
    .error ((nestedError? name (SourceLine.numberFrom file depth passed lines)).getD
      (.fault home (.unterminated name)))
  | some e =>
    match nestedError? name (SourceLine.numberFrom file depth passed e.parts) with
    | some err => .error err
    | none => .ok e

/-- The definition that starts on the line `text`, given how many lines of its file come before that
line and which come after it: the definition and the lines that it takes. -/
def ofLines (file : Path) (depth passed : Nat) (text : Text) (following : List Text) :
    Except Error (Definition × Enclosed) :=
  let home : Location := ⟨file, passed + 1⟩
  match signature text with
  | .error what => .error (.fault home what)
  | .ok s =>
    match enclose s.name home file depth passed (s.rest :: following) with
    | .error e => .error e
    | .ok enclosed =>
      .ok (⟨s.name, s.parameters, Symbol.trim (Text.joinLines enclosed.parts), home⟩, enclosed)

theorem length_left_ofLines {file : Path} {depth passed : Nat} {text : Text}
    {following : List Text} {d : Definition} {enclosed : Enclosed}
    (h : ofLines file depth passed text following = .ok (d, enclosed)) :
    enclosed.left.length ≤ following.length := by
  simp only [ofLines, enclose] at h
  split at h
  · cases h
  · split at h
    · cases h
    · next enclosed' hencloses =>
      obtain ⟨-, rfl⟩ := by simpa using h
      split at hencloses
      · cases hencloses
      · next e he =>
        split at hencloses
        · cases hencloses
        · obtain rfl := Except.ok.inj hencloses
          obtain ⟨hne, hlength⟩ := length_enclosed? he
          have hpos := List.length_pos_iff.mpr hne
          simp only [List.length_cons] at hlength
          omega

/-! ### Reading a definition

The reader looks for the end, checks each part and counts the lines all at once. What it finds is
compared, one line at a time, with the three done one after the other. -/

section Reading

variable {name : Text} {home here : Location} {file : Path} {depth passed : Nat}
  {segment part rest : Text} {e : Error}

theorem nestedError?_numberFrom_cons (name : Text) (file : Path) (depth passed : Nat)
    (segment : Text) (following : List Text) :
    nestedError? name (SourceLine.numberFrom file depth passed (segment :: following)) =
      match checkPart name ⟨file, passed + 1⟩ segment with
      | .error e => some e
      | .ok _ => nestedError? name (SourceLine.numberFrom file depth (passed + 1) following) := by
  rw [nestedError?, SourceLine.numberFrom, List.findSome?_cons, checkPart]
  cases nested? segment <;> rfl

theorem enclose_of_cut (h : Directive.cutAtEnd? segment = some (part, rest))
    (following : List Text) :
    enclose name home file depth passed (segment :: following) =
      (checkPart name ⟨file, passed + 1⟩ part).map fun _ => ⟨[part], rest, following⟩ := by
  simp only [enclose, enclosed?, h, nestedError?_numberFrom_cons]
  cases checkPart name ⟨file, passed + 1⟩ part <;> rfl

theorem enclose_of_nested (h : Directive.cutAtEnd? segment = none)
    (hpart : checkPart name ⟨file, passed + 1⟩ segment = .error e) (following : List Text) :
    enclose name home file depth passed (segment :: following) = .error e := by
  simp only [enclose, enclosed?, h]
  cases enclosed? following <;> simp [nestedError?_numberFrom_cons, hpart]

theorem enclose_cons (h : Directive.cutAtEnd? segment = none)
    (hpart : checkPart name ⟨file, passed + 1⟩ segment = .ok ()) (following : List Text) :
    enclose name home file depth passed (segment :: following) =
      (enclose name home file depth (passed + 1) following).map fun e =>
        { e with parts := segment :: e.parts } := by
  simp only [enclose, enclosed?, h]
  cases enclosed? following with
  | none => simp only [nestedError?_numberFrom_cons, hpart]; rfl
  | some e =>
    simp only [Option.map_some, nestedError?_numberFrom_cons, hpart]
    cases nestedError? name (SourceLine.numberFrom file depth (passed + 1) e.parts) <;> rfl

theorem readBody_of_cut (h : Directive.cutAtEnd? segment = some (part, rest))
    (following : List SourceLine) :
    readBody name home here segment following =
      ((checkPart name here part).map fun _ => ⟨[part], rest⟩, 0) := by
  unfold readBody
  rw [h]

theorem readBody_of_nested (h : Directive.cutAtEnd? segment = none)
    (hpart : checkPart name here segment = .error e) (following : List SourceLine) :
    readBody name home here segment following = (.error e, 0) := by
  unfold readBody
  rw [h, hpart]

theorem readBody_nil (h : Directive.cutAtEnd? segment = none)
    (hpart : checkPart name here segment = .ok ()) :
    readBody name home here segment [] = (.error (.fault home (.unterminated name)), 0) := by
  unfold readBody
  rw [h, hpart]

theorem readBody_cons (h : Directive.cutAtEnd? segment = none)
    (hpart : checkPart name here segment = .ok ()) (next : SourceLine)
    (following : List SourceLine) :
    readBody name home here segment (next :: following) =
      ((readBody name home next.location next.text following).1.map fun b =>
        { b with parts := segment :: b.parts },
      (readBody name home next.location next.text following).2 + 1) := by
  conv => lhs; unfold readBody
  rw [h, hpart]

/-- What was found in the lines after the first one is what the lines enclose: the same error, or
the same body, and as many lines used as leaves those after it. -/
def Finds (file : Path) (depth passed : Nat) (following : List Text)
    (found : Except Error Body × Nat) : Except Error Enclosed → Prop
  | .error e => found.1 = .error e
  | .ok e => found.1 = .ok ⟨e.parts, e.rest⟩ ∧
      (SourceLine.numberFrom file depth (passed + 1) following).drop found.2 =
        SourceLine.numberFrom file depth (passed + e.parts.length) e.left

theorem finds_of_cut (h : Directive.cutAtEnd? segment = some (part, rest))
    (following : List Text) :
    Finds file depth passed following
      (readBody name home ⟨file, passed + 1⟩ segment
        (SourceLine.numberFrom file depth (passed + 1) following))
      (enclose name home file depth passed (segment :: following)) := by
  rw [readBody_of_cut h, enclose_of_cut h]
  cases checkPart name ⟨file, passed + 1⟩ part with
  | error e => rfl
  | ok _ => exact ⟨rfl, rfl⟩

theorem finds_readBody (name : Text) (home : Location) (file : Path) (depth passed : Nat)
    (segment : Text) (following : List Text) :
    Finds file depth passed following
      (readBody name home ⟨file, passed + 1⟩ segment
        (SourceLine.numberFrom file depth (passed + 1) following))
      (enclose name home file depth passed (segment :: following)) := by
  induction following generalizing segment passed with
  | nil =>
    cases hcut : Directive.cutAtEnd? segment with
    | some cut => exact finds_of_cut hcut _
    | none =>
      cases hpart : checkPart name ⟨file, passed + 1⟩ segment with
      | error e => rw [readBody_of_nested hcut hpart, enclose_of_nested hcut hpart]; rfl
      | ok _ => rw [SourceLine.numberFrom, readBody_nil hcut hpart, enclose_cons hcut hpart]; rfl
  | cons next following ih =>
    cases hcut : Directive.cutAtEnd? segment with
    | some cut => exact finds_of_cut hcut _
    | none =>
      cases hpart : checkPart name ⟨file, passed + 1⟩ segment with
      | error e => rw [readBody_of_nested hcut hpart, enclose_of_nested hcut hpart]; rfl
      | ok _ =>
        have hnext := ih (passed + 1) next
        rw [SourceLine.numberFrom, readBody_cons hcut hpart, enclose_cons hcut hpart]
        cases hfound : enclose name home file depth (passed + 1) (next :: following) with
        | error e =>
          rw [hfound] at hnext
          simp only [Finds] at hnext
          simp only [Except.map, Finds, hnext]
        | ok e =>
          rw [hfound] at hnext
          obtain ⟨hbody, hdrop⟩ := hnext
          refine ⟨by simp only [hbody]; rfl, ?_⟩
          rw [SourceLine.numberFrom, List.drop_succ_cons, hdrop, List.length_cons]
          simp only [Nat.add_right_comm, Nat.add_assoc]

theorem parse_of_error {text : Text} {following : List Text}
    (h : ofLines file depth passed text following = .error e) :
    (parse ⟨text, ⟨file, passed + 1⟩, depth⟩
      (SourceLine.numberFrom file depth (passed + 1) following)).1 = .error e := by
  rw [ofLines] at h
  rw [parse]
  cases hsignature : signature text with
  | error what =>
    rw [hsignature] at h
    obtain rfl := Except.error.inj h
    rfl
  | ok s =>
    simp only [hsignature] at h
    have hfinds := finds_readBody s.name ⟨file, passed + 1⟩ file depth passed s.rest following
    cases henclose : enclose s.name ⟨file, passed + 1⟩ file depth passed (s.rest :: following) with
    | ok enclosed =>
      rw [henclose] at h
      cases h
    | error e' =>
      rw [henclose] at h hfinds
      obtain rfl := Except.error.inj h
      simp only [Finds] at hfinds
      simp only [hfinds]
      rfl

theorem parse_of_ok {text : Text} {following : List Text} {d : Definition} {enclosed : Enclosed}
    (h : ofLines file depth passed text following = .ok (d, enclosed)) :
    ∃ used, parse ⟨text, ⟨file, passed + 1⟩, depth⟩
        (SourceLine.numberFrom file depth (passed + 1) following) =
        (.ok ⟨d, if Symbol.isBlank enclosed.rest then none else some enclosed.rest⟩, used) ∧
      (SourceLine.numberFrom file depth (passed + 1) following).drop used =
        SourceLine.numberFrom file depth (passed + enclosed.parts.length) enclosed.left := by
  rw [ofLines] at h
  cases hsignature : signature text with
  | error what =>
    rw [hsignature] at h
    cases h
  | ok s =>
    simp only [hsignature] at h
    have hfinds := finds_readBody s.name ⟨file, passed + 1⟩ file depth passed s.rest following
    cases henclose : enclose s.name ⟨file, passed + 1⟩ file depth passed (s.rest :: following) with
    | error e' =>
      rw [henclose] at h
      cases h
    | ok enclosed' =>
      rw [henclose] at h hfinds
      obtain ⟨rfl, rfl⟩ := by simpa using h
      obtain ⟨hbody, hdrop⟩ := hfinds
      refine ⟨_, ?_, hdrop⟩
      simp only [parse, hsignature, hbody]
      rfl

end Reading

end Definition

/-! ### Splicing by recursion -/

/-- The text after a definition, as the step that it is; no step if it is blank. -/
def Step.ofTrailing (rest : Text) (location : Location) (depth : Nat) : List Step :=
  if Symbol.isBlank rest then [] else [.text ⟨rest, location, depth⟩]

/-- The course of the lines of a file that is read at a depth, after the first `passed` lines. -/
def splice (read : Reader) (limit : Nat) (file : Path) (depth passed : Nat) :
    List Text → Course
  | [] => {}
  | text :: following =>
    let here : Location := ⟨file, passed + 1⟩
    match Directive.includePath? text with
    | some named =>
      let path := file.resolve named
      if limit < depth + 1 then .failed (.fault here (.includeTooDeep path limit))
      else
        match read path with
        | .error reason => .failed (.fault here (.includeNotFound path reason))
        | .ok lines =>
          ((splice read limit path (depth + 1) 0 lines).andThen
            (splice read limit file depth (passed + 1) following)).cons (.splice named here)
    | none =>
      if Directive.startsDefinition text then
        match _h : Definition.ofLines file depth passed text following with
        | .error e => .failed e
        | .ok (d, enclosed) =>
          Course.cons (.define d)
            (Course.andThen { steps := Step.ofTrailing enclosed.rest here depth }
              (splice read limit file depth (passed + enclosed.parts.length) enclosed.left))
      else (splice read limit file depth (passed + 1) following).cons (.text ⟨text, here, depth⟩)
termination_by lines => (limit - depth, lines.length)
decreasing_by
  · exact Prod.Lex.left _ _ (by omega)
  · exact Prod.Lex.right _ (by simp)
  · exact Prod.Lex.right _ (by have := Definition.length_left_ofLines _h; simp; omega)
  · exact Prod.Lex.right _ (by simp)

/-! ### The two courses -/

namespace Cursor

variable {read : Reader} {limit : Nat}

theorem course_trailing (files : OpenFiles) (line : SourceLine) (rest : Text) :
    course read limit ⟨files, (if Symbol.isBlank rest then none else some rest).map fun t =>
        { line with text := t }⟩ =
      Course.andThen { steps := Step.ofTrailing rest line.location line.depth }
        (course read limit ⟨files, none⟩) := by
  rw [Step.ofTrailing]
  split
  · rfl
  · exact course_of_step rfl

/-! One equation for each kind of line that a document goes on with. -/

section Lines

variable {line : SourceLine} {lines : List SourceLine} {outer : OpenFiles}

theorem next?_of_include {named : Text} (h : Directive.includePath? line.text = some named) :
    next? read limit ⟨(line :: lines) :: outer, none⟩ =
      match OpenFiles.splice read limit line named (lines :: outer) with
      | .error e => .error e
      | .ok spliced => .ok (some (.splice named line.location, { files := spliced })) := by
  cases hsplice : OpenFiles.splice read limit line named (lines :: outer) with
  | error e => simp only [next?, OpenFiles.next?, h, hsplice]
  | ok spliced => simp only [next?, OpenFiles.next?, h, hsplice]

theorem next?_of_definition (hinclude : Directive.includePath? line.text = none)
    (h : Directive.startsDefinition line.text = true) :
    next? read limit ⟨(line :: lines) :: outer, none⟩ =
      match Definition.parse line lines with
      | (.error e, _) => .error e
      | (.ok parsed, used) =>
        .ok (some (.define parsed.definition,
          ⟨lines.drop used :: outer, parsed.trailing.map fun t => { line with text := t }⟩)) := by
  simp only [next?, OpenFiles.next?, hinclude, h, if_true]
  rfl

theorem next?_of_text (hinclude : Directive.includePath? line.text = none)
    (h : ¬ Directive.startsDefinition line.text = true) :
    next? read limit ⟨(line :: lines) :: outer, none⟩ =
      .ok (some (.text line, { files := lines :: outer })) := by
  simp only [next?, OpenFiles.next?, hinclude, h]
  rfl

end Lines

/-- **A file in front of open files.** First comes what the lines of the file give, and then, unless
that ends in an error, what the other open files give. -/
theorem course_cons (read : Reader) (limit : Nat) (file : Path) (depth passed : Nat)
    (lines : List Text) (outer : OpenFiles) :
    course read limit ⟨SourceLine.numberFrom file depth passed lines :: outer, none⟩ =
      (splice read limit file depth passed lines).andThen (course read limit ⟨outer, none⟩) := by
  fun_induction splice read limit file depth passed lines generalizing outer with
  | case1 file depth passed =>
    -- The file is at its end, and is left when the next line is asked for.
    rw [Course.empty_andThen]
    exact course_congr rfl
  | case2 file depth passed text following here named hnamed path hdeep =>
    rw [Course.failed_andThen, SourceLine.numberFrom]
    refine course_of_error ?_
    rw [next?_of_include hnamed, OpenFiles.splice, if_pos hdeep]
  | case3 file depth passed text following here named hnamed path hdeep reason hread =>
    rw [Course.failed_andThen, SourceLine.numberFrom]
    refine course_of_error ?_
    rw [next?_of_include hnamed, OpenFiles.splice, if_neg hdeep]
    simp only [path] at hread
    simp only [hread]
    rfl
  | case4 file depth passed text following here named hnamed path hdeep texts hread ihfile ihrest =>
    -- The included file is in front of the rest of this one, which is in front of `outer`.
    have hstep : next? read limit
        ⟨SourceLine.numberFrom file depth passed (text :: following) :: outer, none⟩ =
          .ok (some (.splice named here, ⟨SourceLine.numberFrom path (depth + 1) 0 texts ::
            SourceLine.numberFrom file depth (passed + 1) following :: outer, none⟩)) := by
      rw [SourceLine.numberFrom, next?_of_include hnamed, OpenFiles.splice, if_neg hdeep,
        ← SourceLine.number_eq_numberFrom]
      simp only [path] at hread ⊢
      simp only [hread]
      rfl
    rw [course_of_step hstep, ihfile, ihrest, Course.cons_andThen, Course.andThen_assoc]
  | case5 file depth passed text following hnamed hstarts e herror =>
    rw [Course.failed_andThen, SourceLine.numberFrom]
    refine course_of_error ?_
    rw [next?_of_definition hnamed hstarts]
    have hparse := Definition.parse_of_error herror
    split
    · next e' _ heq => simpa [heq] using hparse
    · next heq => simp [heq] at hparse
  | case6 file depth passed text following here hnamed hstarts d enclosed hok ih =>
    obtain ⟨used, hparse, hdrop⟩ := Definition.parse_of_ok hok
    have hstep : next? read limit
        ⟨SourceLine.numberFrom file depth passed (text :: following) :: outer, none⟩ =
          .ok (some (.define d,
            ⟨SourceLine.numberFrom file depth (passed + enclosed.parts.length) enclosed.left ::
              outer,
              (if Symbol.isBlank enclosed.rest then none else some enclosed.rest).map fun t =>
                ⟨t, here, depth⟩⟩)) := by
      rw [SourceLine.numberFrom, next?_of_definition hnamed hstarts, hparse]
      simp only [hdrop]
      rfl
    rw [course_of_step hstep, Course.cons_andThen, Course.andThen_assoc, ← ih outer]
    exact congrArg _ (course_trailing _ ⟨text, here, depth⟩ _)
  | case7 file depth passed text following here hnamed hstarts ih =>
    rw [SourceLine.numberFrom, course_of_step (next?_of_text hnamed hstarts), ih,
      Course.cons_andThen]

end Cursor

/-- **The include stack refines recursive splicing.** For every reader, limit, name and list of
lines, the steps that are read from the stack of open files, and the error that ends them, are those
of the recursive definition. -/
theorem include_stack_splices_recursively (read : Reader) (limit : Nat) (name : Path)
    (lines : List Text) :
    Cursor.course read limit { files := OpenFiles.ofLines name lines } =
      splice read limit name 0 0 lines := by
  have hend : Cursor.course read limit ⟨[], none⟩ = {} := Cursor.course_of_end rfl
  rw [OpenFiles.ofLines, SourceLine.number_eq_numberFrom, Cursor.course_cons, hend,
    Course.andThen_empty]

end TextExpander
