import TextExpander.Proofs.Directories
import TextExpander.Proofs.Relocation
import TextExpander.Proofs.SelfContained

/-!
# Including a file pastes its lines

An `include` line stands for the lines of its file. If the file is named by a single piece, then the
document in which these lines are pasted in place of the `include` line does the same, as long as
the document itself goes through. Both documents are cut in three, and their recursive courses with
them: the lines before the `include` line, which are self-contained because it is reached as a line;
the lines of the file, which are self-contained because the file is read without an error; and the
lines after it.

Of the three parts, the second is read from another file, at another depth, and with other line
numbers, and the third with other line numbers. A course that goes through depends on none of these:
it goes through at a smaller depth too, the file lies in the same directory, so that its lines name
the same files, and numbers are only in locations.

That locations are all the two runs differ in does not say which locations: here every location
corresponds to every other (`Progress.alike_iff`). The steps that include files do nothing in a run,
so one document may have more of them than the other.

## Main definitions

* `Step.Pasted`: the first steps are the second, with more files included.
* `Progress.Alike`: two runs have done the same.

## Main results

* `Progress.sameOutcome_doSteps`: steps that say the same do the same.
* `splice_elsewhere`: the course of the same lines in another place.
* `including_a_file_pastes_its_lines`: the two runs.
-/

namespace TextExpander

/-! ### Outcomes that correspond -/

section Outcomes

variable {σ τ : Type} {R : σ → τ → Prop}

/-- What was done corresponds, and both went through or both failed. -/
def SameOutcome (R : σ → τ → Prop) (x : σ × Option Error) (y : τ × Option Error) : Prop :=
  R x.1 y.1 ∧ x.2.isSome = y.2.isSome

theorem SameOutcome.goOn {x : σ × Option Error} {y : τ × Option Error} (h : SameOutcome R x y)
    {next : σ → σ × Option Error} {next' : τ → τ × Option Error}
    (hnext : ∀ s t, R s t → SameOutcome R (next s) (next' t)) :
    SameOutcome R (goOn next x) (goOn next' y) := by
  obtain ⟨s, failure⟩ := x
  obtain ⟨t, failure'⟩ := y
  obtain ⟨hst, hfailure⟩ := h
  cases failure with
  | none =>
    cases failure' with
    | none => exact hnext s t hst
    | some e' => cases hfailure
  | some e =>
    cases failure' with
    | none => cases hfailure
    | some e' => exact ⟨hst, rfl⟩

end Outcomes

/-! ### Steps that say the same -/

/-- The steps say the same, wherever they stand. -/
inductive Step.Alike : Step → Step → Prop
  /-- Files are included. -/
  | splice (named named' : Text) (location location' : Location) :
      Alike (.splice named location) (.splice named' location')
  /-- The definitions say the same. -/
  | define {d d' : Definition} : d.content = d'.content → Alike (.define d) (.define d')
  /-- The texts are the same. -/
  | text {line line' : SourceLine} : line.text = line'.text → Alike (.text line) (.text line')

/-- The first steps are the second, but for where they stand, with more files included. -/
inductive Step.Pasted : List Step → List Step → Prop
  /-- No steps. -/
  | nil : Pasted [] []
  /-- Two steps that say the same. -/
  | cons {step step' : Step} {steps steps' : List Step} : Alike step step' →
      Pasted steps steps' → Pasted (step :: steps) (step' :: steps')
  /-- A file that only the first include. -/
  | skip (named : Text) (location : Location) {steps steps' : List Step} :
      Pasted steps steps' → Pasted (.splice named location :: steps) steps'

theorem Step.Pasted.append {steps steps' more more' : List Step} (h : Pasted steps steps')
    (hmore : Pasted more more') : Pasted (steps ++ more) (steps' ++ more') := by
  induction h with
  | nil => exact hmore
  | cons hstep _ ih => exact .cons hstep ih
  | skip named location _ ih => exact .skip named location ih

theorem Step.Alike.refl (step : Step) : Step.Alike step step := by
  cases step with
  | splice named location => exact .splice ..
  | define d => exact .define rfl
  | text line => exact .text rfl

theorem Step.Pasted.refl (steps : List Step) : Pasted steps steps := by
  induction steps with
  | nil => exact .nil
  | cons step steps ih => exact .cons (.refl step) ih

/-! ### Runs that do the same -/

theorem Table.moved_iff_contents {t t' : Table} :
    t.Moved (fun _ _ => True) t' ↔ t.contents = t'.contents := by
  refine ⟨Table.Moved.contents, fun h => ?_⟩
  rw [Table.contents, Table.contents, ← List.forall₂_eq_eq_eq, List.forall₂_map_left_iff,
    List.forall₂_map_right_iff] at h
  exact h.imp fun _ _ hcontent => ⟨hcontent, trivial⟩

namespace Progress

/-- Two runs have done the same: but for locations, and for the files that they opened, there is no
difference. -/
structure Alike (p q : Progress) : Prop where
  /-- They wrote the same. -/
  sink : p.sink = q.sink
  /-- Their definitions say the same. -/
  contents : p.table.contents = q.table.contents
  /-- The same text waits. -/
  pending : p.pending.map Pending.text = q.pending.map Pending.text

variable {settings : Settings} {p q : Progress}

/-- Locations are what the two runs may differ in. -/
theorem alike_iff : p.Alike q ↔ p.Related Eq (fun _ _ => True) q := by
  have hpending : p.pending.map Pending.text = q.pending.map Pending.text ↔
      Option.Rel (fun ready ready' : Pending => ready.text = ready'.text ∧ True)
        p.pending q.pending := by
    rcases p.pending with _ | ready <;> rcases q.pending with _ | ready' <;> simp
  constructor
  · rintro ⟨hsink, hcontents, hwaits⟩
    exact ⟨hsink, Table.moved_iff_contents.mpr hcontents, hpending.mp hwaits⟩
  · rintro ⟨hsink, htable, hwaits⟩
    exact ⟨hsink, Table.moved_iff_contents.mp htable, hpending.mpr hwaits⟩

theorem RelatedOutcome.same {E : Error → Error → Prop} {x y : Progress × Option Error}
    (h : RelatedOutcome Eq (fun _ _ => True) E x y) : SameOutcome Alike x y := by
  obtain ⟨p, failure⟩ := x
  obtain ⟨q, failure'⟩ := y
  obtain ⟨hpq, hfailure⟩ := h
  refine ⟨alike_iff.mpr hpq, ?_⟩
  cases hfailure <;> rfl

/-- **One step.** -/
theorem sameOutcome_step (h : p.Alike q) {next next' : Step} (hnext : next.Alike next') :
    SameOutcome Alike (step settings p next) (step settings q next') := by
  have hrelated := alike_iff.mp h
  cases hnext with
  | splice named named' location location' => exact ⟨⟨h.sink, h.contents, h.pending⟩, rfl⟩
  | define hd => exact (related_step .eq hrelated (.define ⟨hd, trivial⟩)).same
  | text hline => exact (related_step .eq hrelated (.text hline trivial)).same

/-- **Steps that say the same do the same.** -/
theorem sameOutcome_doSteps {steps steps' : List Step} (hsteps : Step.Pasted steps steps')
    (h : p.Alike q) :
    SameOutcome Alike (doSteps (step settings) steps p) (doSteps (step settings) steps' q) := by
  induction hsteps generalizing p q with
  | nil => exact ⟨h, rfl⟩
  | cons hstep _ ih => exact (sameOutcome_step h hstep).goOn fun _ _ => ih
  | skip named location _ ih => exact ih ⟨h.sink, h.contents, h.pending⟩

theorem sameOutcome_finish (h : p.Alike q) (settings : Settings) :
    SameOutcome Alike (p.finish settings) (q.finish settings) :=
  (related_finish .eq (alike_iff.mp h)).same

end Progress

/-! ### The same lines in another place -/

theorem Definition.nestedError?_eq_none_iff {name : Text} {file : Path} {depth passed : Nat}
    {parts : List Text} : nestedError? name (SourceLine.numberFrom file depth passed parts) = none ↔
      ∀ part ∈ parts, nested? part = none := by
  induction parts generalizing passed with
  | nil => simp [SourceLine.numberFrom, nestedError?]
  | cons part parts ih =>
    rw [nestedError?_numberFrom_cons, checkPart, List.forall_mem_cons, ← @ih (passed + 1)]
    cases nested? part <;> simp

theorem Definition.ofLines_elsewhere {file : Path} {depth passed : Nat} {text : Text}
    {following : List Text} {d : Definition} {e : Enclosed}
    (h : ofLines file depth passed text following = .ok (d, e)) (file' : Path)
    (depth' passed' : Nat) :
    ofLines file' depth' passed' text following =
      .ok ({ d with location := ⟨file', passed' + 1⟩ }, e) := by
  obtain ⟨s, hs, he, hnested, rfl⟩ := of_ofLines h
  have hnested' : nestedError? s.name (SourceLine.numberFrom file' depth' passed' e.parts) = none :=
    nestedError?_eq_none_iff.mpr (nestedError?_eq_none_iff.mp hnested)
  rw [ofLines_of_enclosed? file' depth' passed' hs he, hnested']

theorem Step.pasted_ofTrailing (rest : Text) (location location' : Location) (depth depth' : Nat) :
    Pasted (ofTrailing rest location depth) (ofTrailing rest location' depth') := by
  rw [ofTrailing, ofTrailing]
  split
  · exact .nil
  · exact .cons (.text rfl) .nil

/-- **The same lines in another place.** If they give a course without an error, then in a file of
the same directory, with any line numbers, and no deeper, they give a course without an error that
says the same. -/
theorem splice_elsewhere {read : Reader} {limit : Nat} {file : Path} {depth passed : Nat}
    {lines : List Text} (h : (splice read limit file depth passed lines).failure = none)
    {file' : Path} (hfile : ∀ named, file'.resolve named = file.resolve named) {depth' : Nat}
    (hdepth : depth' ≤ depth) (passed' : Nat) :
    (splice read limit file' depth' passed' lines).failure = none ∧
      Step.Pasted (splice read limit file depth passed lines).steps
        (splice read limit file' depth' passed' lines).steps := by
  fun_induction splice read limit file depth passed lines generalizing file' depth' passed' with
  | case1 file depth passed =>
    rw [splice]
    exact ⟨rfl, .nil⟩
  | case2 => cases h
  | case3 => cases h
  | case4 file depth passed text following here named hnamed path hdeep texts hread ihfile =>
    rename_i ihrest
    obtain ⟨hinner, houter, hsteps⟩ := Course.parts_of_andThen h
    obtain ⟨hinner', hpasted⟩ := ihfile hinner (fun _ => rfl) (Nat.succ_le_succ hdepth) 0
    obtain ⟨houter', hpasted'⟩ := ihrest houter hfile hdepth (passed' + 1)
    have hread' : read (file'.resolve named) = .ok texts := by
      rw [hfile]
      exact hread
    rw [splice_of_included read limit file' depth' passed' hnamed (by omega) hread', hfile,
      Course.andThen_of_ok hinner']
    refine ⟨houter', .cons (.splice ..) ?_⟩
    rw [hsteps]
    exact hpasted.append hpasted'
  | case5 => cases h
  | case6 file depth passed text following here hnamed hstarts d e hlines ih =>
    have hlines' := Definition.ofLines_elsewhere hlines file' depth' passed'
    obtain ⟨hleft, hpasted⟩ := ih h hfile hdepth (passed' + e.parts.length)
    rw [splice_of_definition read limit file' depth' passed' hnamed hstarts hlines']
    exact ⟨hleft, .cons (.define rfl) ((Step.pasted_ofTrailing ..).append hpasted)⟩
  | case7 file depth passed text following here hnamed hstarts ih =>
    obtain ⟨hrest, hpasted⟩ := ih h hfile hdepth (passed' + 1)
    rw [splice_of_plain read limit file' depth' passed' hnamed (by simpa using hstarts)]
    exact ⟨hrest, .cons (.text rfl) hpasted⟩

/-! ### The two documents -/

/-- The course of a document without an error, with the lines of a file that it includes pasted. -/
theorem course_of_pasted {read : Reader} {limit : Nat} {name : Path} {before after : List Text}
    {text named : Text} {texts : List Text} (hbefore : SelfContained before)
    (hnamed : Directive.includePath? text = some named) (hbare : Path.Bare ⟨named⟩)
    (hread : read (name.resolve named) = .ok texts)
    (h : (splice read limit name 0 0 (before ++ text :: after)).failure = none) :
    (splice read limit name 0 0 (before ++ texts ++ after)).failure = none ∧
      Step.Pasted (splice read limit name 0 0 (before ++ text :: after)).steps
        (splice read limit name 0 0 (before ++ texts ++ after)).steps := by
  rw [hbefore.splice_append] at h ⊢
  obtain ⟨hfront, hback, hsteps⟩ := Course.parts_of_andThen h
  have hdeep : ¬ limit < 0 + 1 := by
    intro hdeep
    rw [splice] at hback
    simp only [hnamed, if_pos hdeep] at hback
    cases hback
  have hincluded := splice_of_included read limit name 0 (0 + before.length) hnamed hdeep hread
    after
  rw [hincluded] at hback
  obtain ⟨hfile, hafter, hfileSteps⟩ := Course.parts_of_andThen hback
  obtain ⟨hfile', hpasted⟩ := splice_elsewhere hfile
    (fun target => (Path.resolve_resolve name hbare target).symm) (Nat.zero_le 1)
    (0 + before.length)
  obtain ⟨hafter', hpasted'⟩ := splice_elsewhere hafter (fun _ => rfl) (Nat.le_refl 0)
    (0 + before.length + texts.length)
  rw [List.append_assoc, hbefore.splice_append, (selfContained_of_splice hfile).splice_append,
    Course.andThen_of_ok hfront, Course.andThen_of_ok hfile', hsteps, hincluded]
  refine ⟨hafter', (Step.Pasted.refl _).append (.skip named _ ?_)⟩
  rw [hfileSteps]
  exact hpasted.append hpasted'

/-- **Including a file pastes its lines.** A document goes through, and in it an `include` line is
reached as a line, which names a file by a single piece. Then the document with the lines of the
file in place of the `include` line goes through too. It gives the same output, and definitions that
differ at most in their locations. -/
theorem including_a_file_pastes_its_lines (settings : Settings) (read : Reader) (name : Path)
    (before after : List Text) (text named : Text) (texts : List Text) (trail : Trail)
    {steps : List Step} {c : Cursor} {rest : OpenFiles}
    (hreached : Walk (Cursor.next? read settings.includeLimit)
      { files := OpenFiles.ofLines name (before ++ text :: after) } steps c)
    (hnext : c.files.next? = some (⟨text, ⟨name, before.length + 1⟩, 0⟩, rest))
    (hnamed : Directive.includePath? text = some named) (hbare : Path.Bare ⟨named⟩)
    (hread : read (name.resolve named) = .ok texts)
    (hok : (runDocument settings (fun _ => read)
      (OpenFiles.ofLines name (before ++ text :: after)) trail).2 = none) :
    let run := runDocument settings (fun _ => read)
      (OpenFiles.ofLines name (before ++ text :: after)) trail
    let pasted := runDocument settings (fun _ => read)
      (OpenFiles.ofLines name (before ++ texts ++ after)) trail
    pasted.2 = none ∧ pasted.1.sink = run.1.sink ∧
      pasted.1.table.contents = run.1.table.contents := by
  intro run pasted
  have hbefore : SelfContained before := selfContained_of_walk hreached hnext
  have hcourse : (splice read settings.includeLimit name 0 0
      (before ++ text :: after)).failure = none := by
    rw [runDocument_eq_play] at hok
    exact Course.failure_of_play (snd_of_goOn hok)
  obtain ⟨hcourse', hpasted⟩ := course_of_pasted hbefore hnamed hbare hread hcourse
  have hsame : SameOutcome Progress.Alike run pasted := by
    simp only [run, pasted, runDocument_eq_play]
    rw [Course.play_of_ok _ hcourse, Course.play_of_ok _ hcourse']
    exact (Progress.sameOutcome_doSteps hpasted ⟨rfl, rfl, rfl⟩).goOn
      fun _ _ hpq => Progress.sameOutcome_finish hpq settings
  obtain ⟨halike, hfailure⟩ := hsame
  refine ⟨?_, halike.sink.symm, halike.contents.symm⟩
  rw [hok] at hfailure
  exact Option.isNone_iff_eq_none.mp (Option.isSome_eq_false_iff.mp hfailure.symm)

/-- A call that starts before a file is included and ends after it. -/
theorem call_around_a_pasted_file :
    let read : Reader := Reader.ofFiles [(⟨"s/e".toList⟩, "b\ndefine g() y endmacro\n".toList)]
    let lines := ["glue(a,".toList] ++ "include \"e\"".toList :: [")".toList]
    let pastedLines := ["glue(a,".toList] ++ ["b".toList, "define g() y endmacro".toList] ++
      [")".toList]
    let run := runDocument {} (fun _ => read) (OpenFiles.ofLines ⟨"s/d".toList⟩ lines) {}
    let pasted := runDocument {} (fun _ => read) (OpenFiles.ofLines ⟨"s/d".toList⟩ pastedLines) {}
    run.2 = none ∧ pasted.2 = none ∧ pasted.1.sink.bytes = Utf8.encode "ab\n".toList ∧
      pasted.1.table.contents = [(['g'], [], ['y'])] := by
  intro read lines pastedLines run pasted
  let reading : Progress → Reader := fun _ => read
  let d : Path := ⟨"s/d".toList⟩
  let e : Path := ⟨"s/e".toList⟩
  let first : SourceLine := ⟨"glue(a,".toList, ⟨d, 1⟩, 0⟩
  let directive : SourceLine := ⟨"include \"e\"".toList, ⟨d, 2⟩, 0⟩
  let last : SourceLine := ⟨")".toList, ⟨d, 3⟩, 0⟩
  let inner : SourceLine := ⟨"b".toList, ⟨e, 1⟩, 1⟩
  let header : SourceLine := ⟨"define g() y endmacro".toList, ⟨e, 2⟩, 1⟩
  let g : Definition := ⟨['g'], [], ['y'], ⟨e, 2⟩⟩
  let one : Progress := { pending := some ⟨"glue(a,".toList, ⟨d, 1⟩⟩ }
  let two : Progress := { opened := [e], pending := some ⟨"glue(a,\nb".toList, ⟨d, 1⟩⟩ }
  let three : Progress := { two with table := Table.empty.put g }
  let sink : Sink := (Sink.write {} ["ab".toList, ['\n']]).1
  let done : Progress := { opened := [e], table := Table.empty.put g, sink }
  have hread : read (d.resolve ['e']) = .ok ["b".toList, "define g() y endmacro".toList] := by
    decide +kernel
  have hfirst : Cursor.next? (reading {}) 10 { files := OpenFiles.ofLines d lines } =
      .ok (some (.text first, { files := [[directive, last]] })) := by rfl
  have hsplice : Cursor.next? (reading one) 10 { files := [[directive, last]] } =
      .ok (some (.splice ['e'] ⟨d, 2⟩, { files := [[inner, header], [last]] })) := by
    decide +kernel
  have hinner : Cursor.next? (reading { one with opened := [e] }) 10
      { files := [[inner, header], [last]] } =
      .ok (some (.text inner, { files := [[header], [last]] })) := by rfl
  have hdefine : Cursor.next? (reading two) 10 { files := [[header], [last]] } =
      .ok (some (.define g, { files := [[], [last]] })) := by decide +kernel
  have hlast : Cursor.next? (reading three) 10 { files := [[], [last]] } =
      .ok (some (.text last, { files := [[]] })) := by rfl
  have hone : Progress.step {} {} (.text first) = (one, none) :=
    Progress.addText_of_open rfl (by decide +kernel)
  have hopened : Progress.step {} one (.splice ['e'] ⟨d, 2⟩) =
      ({ one with opened := [e] }, none) := by
    have hresolve : d.resolve ['e'] = e := by decide +kernel
    exact Progress.step_splice_of_resolve hresolve
  have htwo : Progress.step {} { one with opened := [e] } (.text inner) = (two, none) :=
    Progress.addText_of_open rfl (by decide +kernel)
  have hdone : Progress.step {} three (.text last) = (done, none) := by
    have hexpand : expand (Table.empty.put g) 10 "glue(a,\nb\n)".toList = .ok "ab".toList := by
      decide +kernel
    exact Progress.addText_of_written rfl (by decide +kernel) hexpand rfl
  have hrun : run = (done, none) := by
    have hfeed : Cursor.feed reading 10 (Progress.step {})
        { files := OpenFiles.ofLines d lines } {} = (done, none) := by
      rw [Cursor.feed_of_taken hfirst hone, Cursor.feed_of_taken hsplice hopened,
        Cursor.feed_of_taken hinner htwo, Cursor.feed_of_taken hdefine rfl,
        Cursor.feed_of_taken hlast hdone, Cursor.feed_of_end rfl]
    exact runDocument_of_feed_end hfeed rfl
  have hok : run.2 = none := by rw [hrun]
  obtain ⟨hpasted, hsink, hcontents⟩ := including_a_file_pastes_its_lines {} read d
    ["glue(a,".toList] [")".toList] "include \"e\"".toList ['e']
    ["b".toList, "define g() y endmacro".toList] {} (.step .start hfirst) rfl rfl ⟨_, rfl⟩ hread hok
  refine ⟨hok, hpasted, ?_, ?_⟩
  · rw [hsink]
    exact (congrArg (fun x => x.1.sink.bytes) hrun).trans (Sink.bytes_write_of_unlimited rfl _)
  · rw [hcontents]
    exact congrArg (fun x => x.1.table.contents) hrun

end TextExpander
