import TextExpander.Proofs.Relocation
import TextExpander.Proofs.SelfContained

/-!
# Files that correspond

The same lines may be read in two places: with other numbers, or from a file of which the path is
spelled otherwise. Then the courses have the same steps, at locations that correspond. An `include`
line names its file relative to the file in which it stands, so the two courses do not have to read
the same files. What they read has to correspond again: the same lines, at locations that
correspond, which name files that correspond. These are the conditions on a relation between paths
(`Path.Correspondence`), and with them the included files are no different from the document, at any
depth.

The errors of two such courses differ in more than locations. An error about an `include` line tells
the path of its file, and the paths only correspond.

## Main definitions

* `Path.Correspondence`: what has to be known of paths that correspond.
* `Fault.Related`, `Error.Related`, `Course.Related`: the same but for locations and paths that
  correspond.

## Main results

* `Course.related_splice`: the courses of the same lines in two places.
* `related_goOn_play`: what follows for whole runs.
-/

namespace TextExpander

variable {R : Location → Location → Prop} {F : Path → Path → Prop}

/-! ### What corresponds -/

/-- The faults are the same, but for locations and the paths of included files. -/
inductive Fault.Related (R : Location → Location → Prop) (F : Path → Path → Prop) :
    Fault → Fault → Prop
  /-- An included file cannot be read. -/
  | includeNotFound {path path' : Path} (reason : FileFault) : F path path' →
      Related R F (.includeNotFound path reason) (.includeNotFound path' reason)
  /-- An included file would be too deep. -/
  | includeTooDeep {path path' : Path} (limit : Nat) : F path path' →
      Related R F (.includeTooDeep path limit) (.includeTooDeep path' limit)
  /-- The faults are the same but for locations. -/
  | moved {what what' : Fault} : what.Moved R what' → Related R F what what'

/-- The errors are the same, but for locations and the paths of included files. -/
inductive Error.Related (R : Location → Location → Prop) (F : Path → Path → Prop) :
    Error → Error → Prop
  /-- The document is faulty. -/
  | fault {location location' : Location} {what what' : Fault} : R location location' →
      what.Related R F what' → Related R F (.fault location what) (.fault location' what')
  /-- The document cannot be read. -/
  | unreadable (path : Path) (reason : FileFault) :
      Related R F (.unreadable path reason) (.unreadable path reason)
  /-- The output cannot be written. -/
  | output (reason : WriteFault) : Related R F (.output reason) (.output reason)

/-- The courses have the same steps at corresponding locations, and end in errors that correspond or
not at all. -/
structure Course.Related (R : Location → Location → Prop) (F : Path → Path → Prop)
    (c c' : Course) : Prop where
  /-- The steps correspond. -/
  steps : List.Forall₂ (Step.Moved R) c.steps c'.steps
  /-- The errors at the end correspond. -/
  failure : Option.Rel (Error.Related R F) c.failure c'.failure

theorem Error.Moved.related {e e' : Error} (h : e.Moved R e') : e.Related R F e' := by
  cases h with
  | fault hlocation hwhat => exact .fault hlocation (.moved hwhat)
  | unreadable path reason => exact .unreadable path reason
  | output reason => exact .output reason

/-- If only equal paths correspond, the errors differ in locations alone. -/
theorem Error.Related.moved {e e' : Error} (h : e.Related R Eq e') : e.Moved R e' := by
  cases h with
  | fault hlocation hwhat =>
    refine .fault hlocation ?_
    cases hwhat with
    | includeNotFound reason hpath =>
      obtain rfl := hpath
      exact .other (by rintro _ _ ⟨⟩)
    | includeTooDeep limit hpath =>
      obtain rfl := hpath
      exact .other (by rintro _ _ ⟨⟩)
    | moved hwhat => exact hwhat
  | unreadable path reason => exact .unreadable path reason
  | output reason => exact .output reason

/-- What corresponds to a second definition of a name is a second definition of that name. -/
theorem Error.Related.of_redefinition {location previous : Location} {name : Text} {e : Error}
    (h : Error.Related R F (.fault location (.redefinition name previous)) e) :
    ∃ location' previous', e = .fault location' (.redefinition name previous') ∧
      R location location' ∧ R previous previous' := by
  cases h with
  | fault hlocation hwhat =>
    cases hwhat with
    | moved hwhat =>
      cases hwhat with
      | redefinition _ hprevious => exact ⟨_, _, rfl, hlocation, hprevious⟩
      | other hne => exact absurd rfl (hne name previous)

theorem Course.Related.moved {c c' : Course} (h : c.Related R Eq c') : c.Moved R c' := by
  refine ⟨h.steps, ?_⟩
  have hfailure := h.failure
  generalize c.failure = failure, c'.failure = failure' at hfailure ⊢
  cases hfailure with
  | none => exact .none
  | some he => exact .some he.moved

namespace Course

theorem Related.cons {c c' : Course} (h : c.Related R F c') {step step' : Step}
    (hstep : step.Moved R step') : (c.cons step).Related R F (c'.cons step') :=
  ⟨.cons hstep h.steps, h.failure⟩

theorem Related.andThen {c c' d d' : Course} (hc : c.Related R F c') (hd : d.Related R F d') :
    (c.andThen d).Related R F (c'.andThen d') := by
  obtain ⟨steps, failure⟩ := c
  obtain ⟨steps', failure'⟩ := c'
  obtain ⟨hsteps, hfailure⟩ := hc
  cases hfailure with
  | none => exact ⟨List.rel_append hsteps hd.steps, hd.failure⟩
  | some he => exact ⟨hsteps, .some he⟩

theorem related_failed {e e' : Error} (h : e.Related R F e') :
    (failed e).Related R F (failed e') :=
  ⟨.nil, .some h⟩

end Course

/-- What has to be known of paths that correspond. -/
structure Path.Correspondence (read : Reader) (R : Location → Location → Prop)
    (F : Path → Path → Prop) : Prop where
  /-- They have the same lines. -/
  read : ∀ {p q : Path}, F p q → read p = read q
  /-- The lines are at locations that correspond. -/
  line : ∀ {p q : Path}, F p q → ∀ n, R ⟨p, n⟩ ⟨q, n⟩
  /-- What is named in them corresponds. -/
  resolve : ∀ {p q : Path}, F p q → ∀ named, F (p.resolve named) (q.resolve named)

/-- A path corresponds to itself. -/
theorem Path.Correspondence.eq (read : Reader) (hrefl : ∀ l, R l l) :
    Correspondence read R Eq where
  read := by
    rintro p _ rfl
    rfl
  line := by
    rintro p _ rfl n
    exact hrefl _
  resolve := by
    rintro p _ rfl named
    rfl

/-! ### The same lines in two places -/

section Lines

variable {file file' : Path} {k : Nat}

theorem Definition.rel_nestedError? (hR : ∀ n, R ⟨file, n + 1⟩ ⟨file', n + k + 1⟩) (name : Text)
    (depth passed : Nat) (parts : List Text) :
    Option.Rel (Error.Moved R)
      (nestedError? name (SourceLine.numberFrom file depth passed parts))
      (nestedError? name (SourceLine.numberFrom file' depth (passed + k) parts)) := by
  induction parts generalizing passed with
  | nil => exact .none
  | cons part parts ih =>
    rw [nestedError?_numberFrom_cons, nestedError?_numberFrom_cons, checkPart, checkPart]
    rcases nested? part with _ | construct
    · have hrest := ih (passed + 1)
      rwa [Nat.add_right_comm passed 1 k] at hrest
    · exact .some (.fault (hR passed) (.other (by rintro _ _ ⟨⟩)))

/-- The lines that a definition takes in two places are the same. -/
theorem Definition.agree_enclose (hR : ∀ n, R ⟨file, n + 1⟩ ⟨file', n + k + 1⟩) (name : Text)
    (depth passed : Nat) (lines : List Text) :
    Agree (Error.Moved R) Eq
      (enclose name ⟨file, passed + 1⟩ file depth passed lines)
      (enclose name ⟨file', passed + k + 1⟩ file' depth (passed + k) lines) := by
  rw [enclose, enclose]
  rcases enclosed? lines with _ | e
  · have hnested := rel_nestedError? hR name depth passed lines
    generalize nestedError? name (SourceLine.numberFrom file depth passed lines) = found,
      nestedError? name (SourceLine.numberFrom file' depth (passed + k) lines) = found'
      at hnested ⊢
    cases hnested with
    | none => exact .error (.fault (hR passed) (.other (by rintro _ _ ⟨⟩)))
    | some he => exact .error he
  · have hnested := rel_nestedError? hR name depth passed e.parts
    simp only
    generalize nestedError? name (SourceLine.numberFrom file depth passed e.parts) = found,
      nestedError? name (SourceLine.numberFrom file' depth (passed + k) e.parts) = found'
      at hnested ⊢
    cases hnested with
    | none => exact .ok rfl
    | some he => exact .error he

/-- A definition in two places. -/
theorem Definition.agree_ofLines (hrefl : ∀ l, R l l)
    (hR : ∀ n, R ⟨file, n + 1⟩ ⟨file', n + k + 1⟩) (depth passed : Nat) (text : Text)
    (following : List Text) :
    Agree (Error.Moved R) (fun x x' => x.1.Moved R x'.1 ∧ x.2 = x'.2)
      (ofLines file depth passed text following)
      (ofLines file' depth (passed + k) text following) := by
  rw [ofLines, ofLines]
  rcases signature text with what | s
  · exact .error (.fault (hR passed) (.refl hrefl what))
  · have henclose := agree_enclose hR s.name depth passed (s.rest :: following)
    simp only
    generalize enclose s.name ⟨file, passed + 1⟩ file depth passed (s.rest :: following) = x,
      enclose s.name ⟨file', passed + k + 1⟩ file' depth (passed + k) (s.rest :: following) = y
      at henclose ⊢
    cases henclose with
    | error he => exact .error he
    | ok he =>
      obtain rfl := he
      exact .ok ⟨⟨rfl, hR passed⟩, rfl⟩

/-- The text after a definition in two places. -/
theorem Step.related_ofTrailing {location location' : Location} (h : R location location')
    (rest : Text) (depth : Nat) :
    Course.Related R F { steps := ofTrailing rest location depth }
      { steps := ofTrailing rest location' depth } := by
  rw [ofTrailing, ofTrailing]
  split_ifs
  · exact ⟨.nil, .none⟩
  · exact ⟨.cons (.text rfl h) .nil, .none⟩

/-- **The courses of the same lines in two places** that correspond: the second `k` lines further
down in its file. The included files correspond, and their lines have the same numbers. -/
theorem Course.related_splice {read : Reader} (hF : Path.Correspondence read R F)
    (hrefl : ∀ l, R l l) (hR : ∀ n, R ⟨file, n + 1⟩ ⟨file', n + k + 1⟩)
    (hnames : ∀ named, F (file.resolve named) (file'.resolve named)) (limit depth passed : Nat)
    (lines : List Text) :
    (splice read limit file depth passed lines).Related R F
      (splice read limit file' depth (passed + k) lines) := by
  fun_induction splice read limit file depth passed lines generalizing file' k with
  | case1 file depth passed =>
    rw [splice]
    exact ⟨.nil, .none⟩
  | case2 file depth passed text following here named hnamed =>
    rename_i path hdeep
    rw [splice]
    simp only [hnamed, if_pos hdeep]
    exact related_failed (.fault (hR passed) (.includeTooDeep limit (hnames named)))
  | case3 file depth passed text following here named hnamed path hdeep =>
    rename_i reason hread
    rw [splice]
    simp only [path, hF.read (hnames named)] at hread
    simp only [hnamed, if_neg hdeep, hread]
    exact related_failed (.fault (hR passed) (.includeNotFound reason (hnames named)))
  | case4 file depth passed text following here named hnamed path hdeep texts hread =>
    rename_i ihfile ih
    simp only [path, hF.read (hnames named)] at hread
    rw [splice_of_included read limit file' depth (passed + k) hnamed hdeep hread]
    have hfile := ihfile (k := 0) (fun n => hF.line (hnames named) (n + 1))
      (hF.resolve (hnames named))
    have hrest := ih hR hnames
    rw [Nat.add_right_comm passed 1 k] at hrest
    exact (hfile.andThen hrest).cons (.splice named (hR passed))
  | case5 file depth passed text following hnamed hstarts e herror =>
    have hagree := Definition.agree_ofLines hrefl hR depth passed text following
    rw [herror] at hagree
    generalize hlines : Definition.ofLines file' depth (passed + k) text following = found
      at hagree
    cases hagree with
    | error he =>
      rw [splice_of_faulty read limit file' depth (passed + k) hnamed hstarts hlines]
      exact related_failed he.related
  | case6 file depth passed text following here hnamed hstarts d e hlines =>
    rename_i ih
    have hagree := Definition.agree_ofLines hrefl hR depth passed text following
    rw [hlines] at hagree
    generalize hlines' : Definition.ofLines file' depth (passed + k) text following = found
      at hagree
    cases hagree with
    | @ok _ x hx =>
      obtain ⟨d', e'⟩ := x
      obtain ⟨hd, rfl⟩ : d.Moved R d' ∧ e = e' := hx
      rw [splice_of_definition read limit file' depth (passed + k) hnamed hstarts hlines']
      have hrest := ih hR hnames
      rw [Nat.add_right_comm passed _ k] at hrest
      exact ((Step.related_ofTrailing (hR passed) e.rest depth).andThen hrest).cons (.define hd)
  | case7 file depth passed text following here hnamed hstarts =>
    rename_i ih
    rw [splice_of_plain read limit file' depth (passed + k) hnamed (by simpa using hstarts)]
    have hrest := ih hR hnames
    rw [Nat.add_right_comm passed 1 k] at hrest
    exact hrest.cons (.text rfl (hR passed))

end Lines

/-- **Runs of courses that correspond**, into outputs that correspond. -/
theorem related_goOn_play {S : Sink → Sink → Prop} (hS : Sink.Simulation S) (settings : Settings)
    {p q : Progress} (h : p.Related S R q) {c c' : Course} (hc : c.Related R F c') :
    Progress.RelatedOutcome S R (Error.Related R F)
      (goOn (Progress.finish settings) (c.play (Progress.step settings) p))
      (goOn (Progress.finish settings) (c'.play (Progress.step settings) q)) :=
  Progress.related_goOn_play hS (fun _ _ he => he.related) h hc.steps hc.failure

end TextExpander
