import TextExpander.Proofs.Correspondence
import TextExpander.Proofs.Spelling

/-!
# Spellings of a document's path

A document that is given as text has a name, and what it includes is relative to that name. However
the name is spelled, the run is the same: it writes the same, it fails at the same line for the same
reason or not at all, and its definitions are the same. Locations tell the name as it was spelled,
and the names of included files begin with it, so these may differ, but only as spellings of one
path.

Files in memory are found under every spelling, and two spellings of a path name the same files
(`Path.sameFile_resolve`); so spellings of one path correspond, and everything else is known of
paths that do.

## Main definitions

* `Path.Respelled`, `Location.Respelled`: the same path, and the same line of a file.

## Main results

* `Path.correspondence_respelled`: spellings of one path correspond.
* `spelling_of_the_name_does_not_matter`: the two runs.
-/

namespace TextExpander

/-- The paths are spellings of one. -/
def Path.Respelled (p q : Path) : Prop :=
  p.sameFile q = true

/-- The locations are one line of one file, of which the path may be spelled in two ways. -/
def Location.Respelled (l l' : Location) : Prop :=
  l.file.Respelled l'.file ∧ l.line = l'.line

theorem Path.Respelled.refl (p : Path) : p.Respelled p :=
  sameFile_iff.mpr rfl

theorem Location.Respelled.refl (l : Location) : l.Respelled l :=
  ⟨.refl l.file, rfl⟩

theorem Reader.ofFiles_of_respelled (files : List (Path × Text)) {p q : Path}
    (h : p.Respelled q) : ofFiles files p = ofFiles files q := by
  have hfound : (fun file : Path × Text => file.1.sameFile p) = fun file => file.1.sameFile q := by
    funext file
    rw [Path.sameFile, Path.sameFile, Path.sameFile_iff.mp h]
  rw [ofFiles, ofFiles, hfound]

/-- **Spellings of one path correspond**, for files in memory. -/
theorem Path.correspondence_respelled (files : List (Path × Text)) :
    Correspondence (Reader.ofFiles files) Location.Respelled Respelled where
  read := Reader.ofFiles_of_respelled files
  line := fun h _ => ⟨h, rfl⟩
  resolve := sameFile_resolve

/-- **The spelling of the name does not matter.** If two paths have the same components, then what
is named in them has the same components; and a document that is run under one or the other writes
the same, fails at the same line in the same way or not at all, and leaves the same definitions at
the same lines, but for the spelling of paths. -/
theorem spelling_of_the_name_does_not_matter (files : List (Path × Text)) {f g : Path}
    (h : f.sameFile g = true) :
    (∀ named, (f.resolve named).sameFile (g.resolve named) = true) ∧
    ∀ (settings : Settings) (table : Table) (source : Text) (sink : Sink),
      let session : Session := { read := fun _ => Reader.ofFiles files, settings, table }
      let run := session.runSource f source sink
      let run' := session.runSource g source sink
      run.2.1 = run'.2.1 ∧
        Option.Rel (Error.Related Location.Respelled Path.Respelled) run.2.2 run'.2.2 ∧
        run.1.table.Moved Location.Respelled run'.1.table := by
  refine ⟨fun named => Path.sameFile_resolve h named, ?_⟩
  intro settings table source sink session run run'
  have hF := Path.correspondence_respelled files
  have hcourse : Course.Related Location.Respelled Path.Respelled
      (splice (Reader.ofFiles files) settings.includeLimit f 0 0 (Text.lines source))
      (splice (Reader.ofFiles files) settings.includeLimit g 0 0 (Text.lines source)) :=
    Course.related_splice hF .refl (k := 0) (fun n => hF.line h (n + 1)) (hF.resolve h) ..
  have hstart : Progress.Related Eq Location.Respelled { toTrail := { sink } }
      { toTrail := { sink } } := ⟨rfl, .nil, .none⟩
  have hrun := related_goOn_play .eq settings hstart hcourse
  rw [← runDocument_eq_play, ← runDocument_eq_play] at hrun
  exact ⟨hrun.1.sink, hrun.2, hrun.1.table⟩

/-- A document under `a//b/d/` defines again what a file that it includes defines. How this run ends
is known from the run under `a/./b/d`. -/
theorem redefinition_under_another_spelling :
    let files : List (Path × Text) := [(⟨"a/b/e".toList⟩, "define f() endmacro".toList)]
    let session : Session := { read := fun _ => Reader.ofFiles files }
    let source := "include \"e\"\ndefine f() endmacro".toList
    let run := session.runSource ⟨"a//b/d/".toList⟩ source {}
    run.2.1 = {} ∧ ∃ location previous,
      run.2.2 = some (.fault location (.redefinition ['f'] previous)) ∧
        location.line = 2 ∧ previous.line = 1 ∧ previous.file.Respelled ⟨"a/b/e".toList⟩ := by
  intro files session source run
  let read : Reader := Reader.ofFiles files
  let reading : Progress → Reader := fun _ => read
  let d : Path := ⟨"a/./b/d".toList⟩
  let e : Path := ⟨"a/./b/e".toList⟩
  let inner : SourceLine := ⟨"define f() endmacro".toList, ⟨e, 1⟩, 1⟩
  let last : SourceLine := ⟨"define f() endmacro".toList, ⟨d, 2⟩, 0⟩
  let f : Definition := ⟨['f'], [], [], ⟨e, 1⟩⟩
  let again : Error := .fault ⟨d, 2⟩ (.redefinition ['f'] ⟨e, 1⟩)
  let defined : Progress := { opened := [e], table := Table.empty.put f }
  have hsplice : Cursor.next? (reading {}) 10 { files := OpenFiles.ofLines d (Text.lines source) } =
      .ok (some (.splice ['e'] ⟨d, 1⟩, { files := [[inner], [last]] })) := by decide +kernel
  have hopened : Progress.step {} {} (.splice ['e'] ⟨d, 1⟩) = ({ opened := [e] }, none) := by
    have hresolve : d.resolve ['e'] = e := by decide +kernel
    exact Progress.step_splice_of_resolve hresolve
  have hdefine : Cursor.next? (reading { opened := [e] }) 10 { files := [[inner], [last]] } =
      .ok (some (.define f, { files := [[], [last]] })) := by decide +kernel
  have hagain : Cursor.next? (reading defined) 10 { files := [[], [last]] } =
      .ok (some (.define { f with location := ⟨d, 2⟩ }, { files := [[]] })) := by decide +kernel
  have hother : session.runSource d source {} =
      ({ session with table := Table.empty.put f }, {}, some again) := by
    have hfeed : Cursor.feed reading 10 (Progress.step {})
        { files := OpenFiles.ofLines d (Text.lines source) } {} = (defined, some again) := by
      rw [Cursor.feed_of_taken hsplice hopened, Cursor.feed_of_taken hdefine rfl,
        Cursor.feed_of_refused hagain rfl]
    simp only [Session.runSource, Session.runFiles]
    rw [runDocument_of_feed_error hfeed]
  obtain ⟨-, hruns⟩ := spelling_of_the_name_does_not_matter files (f := d)
    (g := ⟨"a//b/d/".toList⟩) (by decide +kernel)
  obtain ⟨hsink, hfailure, -⟩ := hruns {} .empty source {}
  rw [hother] at hsink hfailure
  refine ⟨hsink.symm, ?_⟩
  generalize run.2.2 = failure at hfailure ⊢
  cases hfailure with
  | some he =>
    obtain ⟨location, previous, rfl, hlocation, hprevious⟩ := he.of_redefinition
    have hfile : previous.file.components = Path.components ⟨"a/b/e".toList⟩ :=
      (Path.sameFile_iff.mp hprevious.1).symm.trans (by decide +kernel)
    exact ⟨location, previous, rfl, hlocation.2.symm, hprevious.2.symm, Path.sameFile_iff.mpr hfile⟩

end TextExpander
