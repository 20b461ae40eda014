import TextExpander.Proofs.Interchange
import TextExpander.Proofs.Limits
import TextExpander.Proofs.Splicing

/-!
# Runs replay their document

If what the files hold does not depend on what is done, then a run is its document's steps, done one
after the other. So a run is known from the course of its document, and two runs are compared by
comparing their courses. What the steps do depends on the definitions, but not on where these stand,
so what a definition says is kept apart from its location.

## Main definitions

* `Course.play`: the steps of a course, done one after the other.
* `Definition.content`, `Table.contents`: definitions without their locations.

## Main results

* `Cursor.feed_eq_play`: handing the steps of a document on is playing its course.
* `runDocument_eq_play`: so is a run, up to its end.
-/

namespace TextExpander

/-! ### Playing a course -/

section Play

variable {σ : Type} (act : σ → Step → σ × Option Error)

/-- Does steps one after the other, up to the first that fails. -/
def doSteps : List Step → σ → σ × Option Error
  | [], s => (s, none)
  | step :: rest, s => goOn (doSteps rest) (act s step)

/-- Does the steps of a course, and then ends as it ends. -/
def Course.play (c : Course) (s : σ) : σ × Option Error :=
  goOn (fun t => (t, c.failure)) (doSteps act c.steps s)

theorem goOn_assoc (next after : σ → σ × Option Error) (x : σ × Option Error) :
    goOn after (goOn next x) = goOn (fun s => goOn after (next s)) x := by
  obtain ⟨s, _ | e⟩ := x <;> rfl

/-- A course without an error is its steps. -/
theorem Course.play_of_ok {c : Course} (h : c.failure = none) (s : σ) :
    c.play act s = doSteps act c.steps s := by
  rw [play, h]
  generalize doSteps act c.steps s = x
  obtain ⟨t, _ | e⟩ := x <;> rfl

/-- What goes through has a course without an error. -/
theorem Course.failure_of_play {act : σ → Step → σ × Option Error} {c : Course} {s : σ}
    (h : (c.play act s).2 = none) : c.failure = none := by
  rw [play] at h
  generalize doSteps act c.steps s = x at h
  obtain ⟨t, _ | e⟩ := x
  · exact h
  · cases h

theorem snd_of_goOn {next : σ → σ × Option Error} {x : σ × Option Error}
    (h : (goOn next x).2 = none) : x.2 = none := by
  obtain ⟨s, _ | e⟩ := x
  · rfl
  · cases h

theorem doSteps_append (steps more : List Step) (s : σ) :
    doSteps act (steps ++ more) s = goOn (doSteps act more) (doSteps act steps s) := by
  induction steps generalizing s with
  | nil => rfl
  | cons step steps ih =>
    have hrest : doSteps act (steps ++ more) =
        fun t => goOn (doSteps act more) (doSteps act steps t) := funext ih
    rw [List.cons_append, doSteps, doSteps, goOn_assoc, hrest]

theorem doSteps_invariant {act : σ → Step → σ × Option Error} {P : σ → Prop}
    (hact : ∀ t next, P t → P (act t next).1) (steps : List Step) {s : σ} (hs : P s) :
    P (doSteps act steps s).1 := by
  induction steps generalizing s with
  | nil => exact hs
  | cons step steps ih => exact goOn_invariant (hact s step hs) fun t ht => ih ht

/-- Steps that fail do so at the first step that is refused. -/
theorem doSteps_of_error {act : σ → Step → σ × Option Error} {steps : List Step} {s t : σ}
    {e : Error} (h : doSteps act steps s = (t, some e)) :
    ∃ before next after r, steps = before ++ next :: after ∧
      doSteps act before s = (r, none) ∧ act r next = (t, some e) := by
  induction steps generalizing s with
  | nil => cases h
  | cons step steps ih =>
    rw [doSteps] at h
    rcases hstep : act s step with ⟨r, _ | e'⟩
    · rw [hstep] at h
      obtain ⟨before, next, after, r', rfl, hbefore, hnext⟩ := ih h
      refine ⟨step :: before, next, after, r', rfl, ?_, hnext⟩
      rw [doSteps, hstep]
      exact hbefore
    · rw [hstep] at h
      obtain ⟨rfl, rfl⟩ : r = t ∧ e' = e := by simpa [goOn] using h
      exact ⟨[], step, steps, s, rfl, rfl, hstep⟩

/-- **Handing on is playing.** If the files do not change, the steps of a document are handed on by
playing its course. -/
theorem Cursor.feed_eq_play (read : Reader) (limit : Nat) (c : Cursor) (s : σ) :
    feed (fun _ => read) limit act c s = (course read limit c).play act s := by
  induction c using (follows_wellFounded limit).induction generalizing s with
  | _ c ih =>
    cases hnext : c.next? read limit with
    | error e =>
      rw [feed_of_error hnext, course_of_error hnext]
      rfl
    | ok next =>
      cases next with
      | none =>
        rw [feed_of_end hnext, course_of_end hnext]
        rfl
      | some next =>
        obtain ⟨step, d⟩ := next
        have hrest : feed (fun _ => read) limit act d = (course read limit d).play act :=
          funext fun t => ih d ⟨read, step, hnext⟩ t
        have hfeed : feed (fun _ => read) limit act c s =
            goOn (feed (fun _ => read) limit act d) (act s step) := by
          rw [feed_of_step hnext]
          generalize act s step = x
          obtain ⟨t, _ | e⟩ := x <;> rfl
        rw [hfeed, hrest, course_of_step hnext]
        exact (goOn_assoc ..).symm

end Play

/-- A run over files that do not change plays the recursive course of its document, and ends. -/
theorem runDocument_eq_play (settings : Settings) (read : Reader) (name : Path)
    (lines : List Text) (trail : Trail) :
    runDocument settings (fun _ => read) (OpenFiles.ofLines name lines) trail =
      goOn (Progress.finish settings) ((splice read settings.includeLimit name 0 0 lines).play
        (Progress.step settings) { toTrail := trail }) := by
  have hend : Cursor.course read settings.includeLimit ⟨[], none⟩ = {} := Cursor.course_of_end rfl
  rw [runDocument_eq_goOn, Cursor.feed_eq_play, OpenFiles.ofLines, SourceLine.number_eq_numberFrom,
    Cursor.course_cons, hend, Course.andThen_empty]

/-! ### Definitions without their locations -/

/-- What a definition says. -/
def Definition.content (d : Definition) : Text × List Text × Text :=
  (d.name, d.parameters, d.body)

/-- What the definitions of a table say, in order. -/
def Table.contents (t : Table) : List (Text × List Text × Text) :=
  t.entries.map Definition.content

theorem Definition.eq_of_content_eq {d d' : Definition} (h : d.content = d'.content) :
    d = { d' with location := d.location } := by
  obtain ⟨name, parameters, body, location⟩ := d
  obtain ⟨rfl, hrest⟩ := Prod.mk.inj h
  obtain ⟨rfl, rfl⟩ := Prod.mk.inj hrest
  rfl

theorem Callee.alike_of_content_eq {d d' : Definition} (h : d.content = d'.content) :
    Alike (.user d) (.user d') := by
  rw [Definition.eq_of_content_eq h]
  exact .user rfl rfl fun _ _ => rfl

end TextExpander
