import TextExpander.Proofs.Relocation
import TextExpander.Proofs.Truncation

/-!
# What a listing shows

The listing of the steps of a document follows includes and reads definitions, but it takes nothing
in. A run of the same document does the listed steps, one after the other: reading asks neither for
the definitions, nor for the text that waits, nor for what was written. So the definitions of a run
are those that are listed, and its output comes from the texts that are listed, each taken in with
the definitions listed before it. A run that fails does so after some of the listed steps, and its
table has the definitions of these.

## Main definitions

* `Step.definitions`, `Step.textsAfter`: the definitions among steps, and the texts with the
  definitions before them.
* `Table.ofDefinitions`: definitions that are put into an empty table one after the other.
* `Progress.takeUnder`: lines of text taken in, each under its own definitions.
* `Course.FailsAfter`: how a run fails after some of its steps.

## Main results

* `Listing.bytes_writeSteps`: a listing has the items of all steps.
* `Progress.takeUnder_of_doSteps`: the steps of a run, and its texts alone.
* `Course.takes_of_goOn`: what a run that goes through has taken in.
* `Course.failsAfter_of_goOn`: where a run fails, and with what table.
* `listings_show_what_runs_do`: a listing and a run of the same document.
-/

namespace TextExpander

/-! ### Definitions and texts among steps -/

/-- The definition that a step is, if it is one. -/
def Step.definition? : Step → Option Definition
  | .define d => some d
  | .splice _ _ => none
  | .text _ => none

/-- The definitions among steps, in order. -/
def Step.definitions (steps : List Step) : List Definition :=
  steps.filterMap Step.definition?

/-- The lines of text among steps, in order, each with the definitions that come before it. -/
def Step.textsAfter (before : List Definition) : List Step → List (List Definition × SourceLine)
  | [] => []
  | .splice _ _ :: rest => textsAfter before rest
  | .define d :: rest => textsAfter (before ++ [d]) rest
  | .text line :: rest => (before, line) :: textsAfter before rest

/-- The table after definitions were put into an empty table one after the other. -/
def Table.ofDefinitions (policy : Redefinition) (ds : List Definition) : Except Error Table :=
  ds.foldlM (fun table d => table.define policy d) .empty

/-- Takes in lines of text, each under the table of its own definitions. -/
def Progress.takeUnder (settings : Settings) :
    List (List Definition × SourceLine) → Progress → Progress × Option Error
  | [], p => (p, none)
  | (ds, line) :: rest, p =>
    match Table.ofDefinitions settings.redefinition ds with
    | .error e => (p, some e)
    | .ok table => goOn (takeUnder settings rest) (addText settings { p with table } line)

/-- The errors that a step of a document can raise when a run takes it in. -/
inductive Step.Raises : Step → Error → Prop
  /-- The name is defined already. -/
  | redefinition (d : Definition) (previous : Location) :
      Raises (.define d) (.fault d.location (.redefinition d.name previous))
  /-- No definition ends here. -/
  | unmatchedEnd (line : SourceLine) :
      Raises (.text line) (.fault line.location .unmatchedEnd)
  /-- The text cannot be expanded, which is reported where it began. -/
  | expansion (line : SourceLine) (location : Location) {what : Fault} : what.OfCall →
      Raises (.text line) (.fault location what)

/-- How a run of a course fails, after it has taken in some of the steps. -/
inductive Course.FailsAfter (settings : Settings) (c : Course) : List Step → Error → Prop
  /-- The step that follows is refused. -/
  | refused {before after : List Step} {next : Step} {p q : Progress} {e : Error} :
      c.steps = before ++ next :: after →
      doSteps (Progress.step settings) before {} = (p, none) →
      p.step settings next = (q, some e) → next.Raises e → FailsAfter settings c before e
  /-- After the last step the document cannot be read. -/
  | unread {p : Progress} {e : Error} :
      doSteps (Progress.step settings) c.steps {} = (p, none) →
      c.failure = some e → FailsAfter settings c c.steps e
  /-- The document ends, and a call is not closed. -/
  | unclosed {p : Progress} {ready : Pending} {what : Fault} :
      doSteps (Progress.step settings) c.steps {} = (p, none) → c.failure = none →
      p.pending = some ready →
      expand p.table settings.expansionLimit ready.text = .error what → what.OfCall →
      FailsAfter settings c c.steps (.fault ready.location what)

@[simp]
theorem Step.definitions_append (steps more : List Step) :
    definitions (steps ++ more) = definitions steps ++ definitions more :=
  List.filterMap_append

theorem Table.ofDefinitions_concat {policy : Redefinition} {ds : List Definition} {table : Table}
    (h : ofDefinitions policy ds = .ok table) (d : Definition) :
    ofDefinitions policy (ds ++ [d]) = table.define policy d := by
  rw [ofDefinitions] at h
  rw [ofDefinitions, List.foldlM_append, h]
  exact bind_pure (table.define policy d)

/-! ### Listings -/

namespace Listing

/-- Writing steps into an output that takes everything. -/
theorem doSteps_writeStep (steps : List Step) {trail : Trail} (h : trail.sink.TakesAll) :
    ∃ trail', doSteps writeStep steps trail = (trail', none) ∧ trail'.sink.TakesAll ∧
      trail'.sink.bytes = trail.sink.bytes ++ Utf8.encode (steps.flatMap Step.item).flatten := by
  induction steps generalizing trail with
  | nil => exact ⟨trail, rfl, h, by simp [Utf8.encode]⟩
  | cons next steps ih =>
    obtain ⟨sink, hwrite, htakes, hbytes⟩ := h.write next.item
    have hnext : Sink.TakesAll (Trail.mk sink (next.opened ++ trail.opened)).sink := htakes
    obtain ⟨trail', hsteps, htakes', hbytes'⟩ := ih hnext
    refine ⟨trail', ?_, htakes', ?_⟩
    · rw [doSteps, writeStep, hwrite]
      exact hsteps
    · rw [hbytes', hbytes, List.append_assoc, List.flatMap_cons, List.flatten_append,
        Utf8.encode_append]

/-- **A listing** has the items of all steps, and fails if the document cannot be read further. -/
theorem bytes_writeSteps (read : Reader) (limit : Nat) (files : OpenFiles) :
    let listed := Cursor.course read limit { files }
    let listing := writeSteps (fun _ => read) limit files {}
    listing.1.bytes = Utf8.encode (listed.steps.flatMap Step.item).flatten ∧
      listing.2 = listed.failure := by
  intro listed listing
  have hempty : ({} : Trail).sink.TakesAll := ⟨rfl, rfl⟩
  obtain ⟨trail, hsteps, htakes, hbytes⟩ := doSteps_writeStep listed.steps hempty
  have hplay : Cursor.feed (fun _ => read) limit writeStep { files } {} =
      (trail, listed.failure) := by
    rw [Cursor.feed_eq_play, Course.play, hsteps]
    rfl
  have hlisting : listing = goOn Sink.flush (trail.sink, listed.failure) := by
    simp only [listing, writeSteps]
    rw [hplay]
    rcases listed.failure with _ | e <;> rfl
  rw [hlisting]
  rcases listed.failure with _ | e
  · rw [goOn, htakes.flush]
    exact ⟨hbytes, rfl⟩
  · exact ⟨hbytes, rfl⟩

end Listing

/-! ### Runs step by step -/

namespace Progress

variable {settings : Settings} {p q : Progress}

theorem table_addText (p : Progress) (line : SourceLine) :
    (p.addText settings line).1.table = p.table := by
  simp only [addText]
  split_ifs
  · rfl
  · rfl
  · exact table_emit _ _

/-- A step that is refused leaves the definitions as they are. -/
theorem table_step_of_error {next : Step} {e : Error} (h : p.step settings next = (q, some e)) :
    q.table = p.table := by
  cases next with
  | splice named location => cases h
  | define d =>
    rw [step] at h
    split at h
    · cases h
    · obtain ⟨rfl, -⟩ := Prod.mk.inj h
      rfl
  | text line =>
    rw [step] at h
    rw [← table_addText p line, h]

/-- A step that is taken in adds its definition, if it is one. -/
theorem ofDefinitions_of_step {next : Step} (h : p.step settings next = (q, none))
    {ds : List Definition} (hp : Table.ofDefinitions settings.redefinition ds = .ok p.table) :
    Table.ofDefinitions settings.redefinition (ds ++ Step.definitions [next]) = .ok q.table := by
  cases next with
  | splice named location =>
    obtain ⟨rfl, -⟩ := Prod.mk.inj h
    rw [show Step.definitions [.splice named location] = [] from rfl, List.append_nil]
    exact hp
  | define d =>
    rw [show Step.definitions [.define d] = [d] from rfl, Table.ofDefinitions_concat hp]
    rw [step] at h
    split at h
    · next table htable =>
      obtain ⟨rfl, -⟩ := Prod.mk.inj h
      exact htable
    · cases h
  | text line =>
    rw [step] at h
    rw [show Step.definitions [.text line] = [] from rfl, List.append_nil, hp,
      ← table_addText p line, h]

/-- **The definitions of steps** that are all taken in are the table at their end. -/
theorem ofDefinitions_of_doSteps {steps : List Step}
    (h : doSteps (step settings) steps p = (q, none))
    {ds : List Definition} (hp : Table.ofDefinitions settings.redefinition ds = .ok p.table) :
    Table.ofDefinitions settings.redefinition (ds ++ Step.definitions steps) = .ok q.table := by
  induction steps generalizing p ds with
  | nil =>
    obtain ⟨rfl, -⟩ := Prod.mk.inj h
    rwa [show Step.definitions [] = [] from rfl, List.append_nil]
  | cons next steps ih =>
    rw [doSteps] at h
    rcases hnext : p.step settings next with ⟨r, _ | e⟩
    · rw [hnext] at h
      have hr := ofDefinitions_of_step hnext hp
      rw [← List.singleton_append, Step.definitions_append, ← List.append_assoc]
      exact ih h hr
    · rw [hnext] at h
      cases h

theorem raises_of_emit (hsink : p.sink.TakesAll) {ready : Pending} {e : Error}
    (h : p.emit settings ready = (q, some e)) :
    ∃ what, expand p.table settings.expansionLimit ready.text = .error what ∧ what.OfCall ∧
      e = .fault ready.location what ∧ q = p := by
  rcases hexpand : expand p.table settings.expansionLimit ready.text with what | out
  · rw [emit_of_error hexpand] at h
    cases h
    exact ⟨what, rfl, ofCall_of_expand hexpand, rfl, rfl⟩
  · obtain ⟨sink, hemit, -⟩ := emit_of_ok hsink hexpand
    rw [hemit] at h
    cases h

/-- The error of a step that is refused, if the output takes everything. -/
theorem raises_of_step (hsink : p.sink.TakesAll) {next : Step} {e : Error}
    (h : p.step settings next = (q, some e)) : next.Raises e := by
  cases next with
  | splice named location => cases h
  | define d =>
    rw [step] at h
    split at h
    · cases h
    · next e' hdefine =>
      obtain ⟨previous, -, rfl⟩ := Table.of_define_error hdefine
      cases h
      exact .redefinition d previous.location
  | text line =>
    have h : p.addText settings line = (q, some e) := h
    rcases hend : (Directive.cutAtEnd? line.text).isSome with _ | _
    · rcases hopen : hasOpenCall p.table (Pending.add p.pending line).text with _ | _
      · rw [addText_of_closed hend hopen] at h
        have hsink' : Sink.TakesAll { p with pending := none }.sink := hsink
        obtain ⟨what, -, hcall, rfl, -⟩ := raises_of_emit hsink' h
        exact .expansion line _ hcall
      · rw [addText_of_open hend hopen] at h
        cases h
    · rw [addText_of_end hend] at h
      cases h
      exact .unmatchedEnd line

/-! ### The texts alone -/

/-- **The steps of a run, and its texts alone.** If the steps are taken in, then so are the texts
among them, each under the definitions before it; and what is written and what waits is the same.
The states on the two sides differ in their tables between the texts: the texts alone have the
definitions of the last text, and the steps have all of them so far. -/
theorem takeUnder_of_doSteps {steps : List Step} {r : Progress}
    (h : doSteps (step settings) steps p = (q, none))
    {ds : List Definition} (hp : Table.ofDefinitions settings.redefinition ds = .ok p.table)
    (hr : Moved Eq [] { r with table := p.table } p) :
    ∃ s, takeUnder settings (Step.textsAfter ds steps) r = (s, none) ∧
      Moved Eq [] { s with table := q.table } q := by
  induction steps generalizing p r ds with
  | nil =>
    obtain ⟨rfl, -⟩ := Prod.mk.inj h
    exact ⟨r, rfl, hr⟩
  | cons next steps ih =>
    rw [doSteps] at h
    rcases hnext : p.step settings next with ⟨p', _ | e⟩
    · rw [hnext] at h
      have hp' := ofDefinitions_of_step hnext hp
      cases next with
      | splice named location =>
        obtain ⟨rfl, -⟩ := Prod.mk.inj hnext
        exact ih h hp ⟨hr.takesAll, hr.takesAll', hr.bytes, hr.table, hr.pending⟩
      | define d =>
        have hmoved : Moved Eq [] { r with table := p'.table } p' := by
          rw [step] at hnext
          split at hnext
          · obtain ⟨rfl, -⟩ := Prod.mk.inj hnext
            exact ⟨hr.takesAll, hr.takesAll', hr.bytes, .refl (fun _ => rfl) _, hr.pending⟩
          · cases hnext
        exact ih h hp' hmoved
      | text line =>
        have htext : MovedOutcome Eq [] (addText settings { r with table := p.table } line)
            (p.addText settings line) := moved_addText hr rfl rfl
        rw [show p.addText settings line = (p', none) from hnext] at htext
        rcases hadd : addText settings { r with table := p.table } line with ⟨r', failure⟩
        rw [hadd] at htext
        obtain ⟨hmoved, hfailure⟩ := htext
        cases hfailure
        have htable : r'.table = p'.table := hmoved.table.eq
        rw [show Step.definitions [.text line] = [] from rfl, List.append_nil] at hp'
        obtain ⟨s, hs, hmoved'⟩ := ih h hp' (r := r') (by rw [← htable]; exact hmoved)
        refine ⟨s, ?_, hmoved'⟩
        simp only [Step.textsAfter, takeUnder, hp, hadd]
        exact hs
    · rw [hnext] at h
      cases h

/-! ### Where runs fail -/

theorem takesAll_of_doSteps {steps : List Step} {failure : Option Error}
    (h : doSteps (step settings) steps {} = (p, failure)) : p.sink.TakesAll := by
  have hempty : ({} : Progress).sink.TakesAll := ⟨rfl, rfl⟩
  have htakes : (doSteps (step settings) steps {}).1.sink.TakesAll :=
    takesAll_doSteps hempty steps
  rwa [h] at htakes

/-- The end of a run fails because of the text that waits, if the output takes everything. -/
theorem raises_of_finish (hsink : p.sink.TakesAll) {e : Error}
    (h : p.finish settings = (q, some e)) :
    ∃ ready what, p.pending = some ready ∧
      expand p.table settings.expansionLimit ready.text = .error what ∧ what.OfCall ∧
      e = .fault ready.location what ∧ q.table = p.table := by
  rcases hpending : p.pending with _ | ready
  · rw [finish, hpending, flush, hsink.flush] at h
    cases h
  · have hsink' : Sink.TakesAll { p with pending := none }.sink := hsink
    rw [finish_eq_goOn settings hpending] at h
    rcases hemit : emit settings { p with pending := none } ready with ⟨r, _ | e'⟩
    · rcases hexpand : expand p.table settings.expansionLimit ready.text with what | out
      · have hfail : emit settings { p with pending := none } ready = _ := emit_of_error hexpand
        rw [hfail] at hemit
        cases hemit
      · obtain ⟨sink, hwritten, htakes, -⟩ := emit_of_ok hsink' hexpand
        rw [hwritten, goOn, flush, htakes.flush] at h
        cases h
    · obtain ⟨what, hexpand, hcall, rfl, rfl⟩ := raises_of_emit hsink' hemit
      rw [hemit] at h
      cases h
      exact ⟨ready, what, rfl, hexpand, hcall, rfl, rfl⟩

end Progress

open Progress in
/-- **Where a run fails.** It takes in the steps before that place, and its table has exactly the
definitions of these. -/
theorem Course.failsAfter_of_goOn {settings : Settings} {c : Course} {q : Progress} {e : Error}
    (h : goOn (finish settings) (c.play (step settings) {}) = (q, some e)) :
    ∃ before, c.FailsAfter settings before e ∧
      Table.ofDefinitions settings.redefinition (Step.definitions before) = .ok q.table := by
  have hempty : Table.ofDefinitions settings.redefinition [] = .ok ({} : Progress).table := rfl
  rw [play] at h
  rcases hsteps : doSteps (step settings) c.steps {} with ⟨p, _ | e'⟩
  · have htable := ofDefinitions_of_doSteps hsteps hempty
    rw [hsteps] at h
    rcases hfailure : c.failure with _ | e'
    · have hfinish : p.finish settings = (q, some e) := by rwa [hfailure] at h
      obtain ⟨ready, what, hpending, hexpand, hcall, rfl, hq⟩ :=
        raises_of_finish (takesAll_of_doSteps hsteps) hfinish
      rw [hq]
      exact ⟨c.steps, .unclosed hsteps hfailure hpending hexpand hcall, htable⟩
    · rw [hfailure] at h
      cases h
      exact ⟨c.steps, .unread hsteps hfailure, htable⟩
  · rw [hsteps] at h
    cases h
    obtain ⟨before, next, after, r, hsplit, hbefore, hnext⟩ := doSteps_of_error hsteps
    have hraises : next.Raises e := raises_of_step (takesAll_of_doSteps hbefore) hnext
    rw [table_step_of_error hnext]
    exact ⟨before, .refused hsplit hbefore hnext hraises, ofDefinitions_of_doSteps hbefore hempty⟩

/-- If the course ends in an error, then a run of it ends in the same error, or one of its steps
raises another before that. -/
theorem Course.FailsAfter.of_failure {settings : Settings} {c : Course} {before : List Step}
    {e e' : Error} (h : c.FailsAfter settings before e') (hfailure : c.failure = some e) :
    e' = e ∨ ∃ next after, c.steps = before ++ next :: after ∧ next.Raises e' := by
  cases h with
  | refused hsplit _ _ hraises => exact .inr ⟨_, _, hsplit, hraises⟩
  | unread _ hunread => exact .inl (Option.some.inj (hunread.symm.trans hfailure))
  | unclosed _ hnone =>
    rw [hfailure] at hnone
    cases hnone

open Progress in
/-- **What a run that goes through has done**: it took in all definitions and all texts. -/
theorem Course.takes_of_goOn {settings : Settings} {c : Course} {q : Progress}
    (h : goOn (finish settings) (c.play (step settings) {}) = (q, none)) :
    c.failure = none ∧
      Table.ofDefinitions settings.redefinition (Step.definitions c.steps) = .ok q.table ∧
      ∃ p, takeUnder settings (Step.textsAfter [] c.steps) {} = (p, none) ∧ p.pending = none ∧
        p.sink.bytes = q.sink.bytes := by
  obtain ⟨p, hfailure, hsteps, htakes, hpending, rfl⟩ := of_goOn_finish h
  have hempty : Table.ofDefinitions settings.redefinition [] = .ok ({} : Progress).table := rfl
  have hstart : Progress.Moved Eq [] {} {} := .refl (fun _ => rfl) ⟨rfl, rfl⟩
  obtain ⟨r, hr, hmoved⟩ := takeUnder_of_doSteps (r := {}) hsteps hempty hstart
  refine ⟨hfailure, ofDefinitions_of_doSteps hsteps hempty, r, hr, ?_, hmoved.bytes.symm⟩
  have hwaits : Option.Rel (fun ready ready' : Pending => ready.text = ready'.text ∧
      ready.location = ready'.location) r.pending p.pending := hmoved.pending
  rw [hpending] at hwaits
  generalize r.pending = waits at hwaits ⊢
  cases hwaits
  rfl

/-- **A listing shows what a run does.** The listing of a document has the items of the steps of its
course, and ends in the error of the course. If a run of the document goes through, then so does the
listing; its final table has the listed definitions, taken in one after the other; and its output is
that of the listed texts, each taken in under the definitions listed before it, after which no text
waits. If the listing fails, then the run fails with the same error, or before that with an error
that one of the listed steps raises. And wherever a run fails, its table has the definitions listed
before. -/
theorem listings_show_what_runs_do (read : Reader) (settings : Settings) (table : Table)
    (name : Path) (source : Text) :
    let files := OpenFiles.ofLines name (Text.lines source)
    let listed := Cursor.course read settings.includeLimit { files }
    let listing := Listing.writeSteps (fun _ => read) settings.includeLimit files {}
    let session : Session := { read := fun _ => read, settings, table }
    let run := session.runSource name source {}
    (listing.1.bytes = Utf8.encode (listed.steps.flatMap Step.item).flatten ∧
      listing.2 = listed.failure) ∧
    (run.2.2 = none → listing.2 = none ∧
      Table.ofDefinitions settings.redefinition (Step.definitions listed.steps) =
        .ok run.1.table ∧
      ∃ p, Progress.takeUnder settings (Step.textsAfter [] listed.steps) {} = (p, none) ∧
        p.pending = none ∧ p.sink.bytes = run.2.1.bytes) ∧
    (∀ e, listing.2 = some e → ∃ e', run.2.2 = some e' ∧
      (e' = e ∨ ∃ before next after, listed.steps = before ++ next :: after ∧
        listed.FailsAfter settings before e' ∧ next.Raises e')) ∧
    (∀ e, run.2.2 = some e → ∃ before, listed.FailsAfter settings before e ∧
      Table.ofDefinitions settings.redefinition (Step.definitions before) = .ok run.1.table) := by
  intro files listed listing session run
  let result := runDocument settings (fun _ => read) files {}
  have hplay : result = goOn (Progress.finish settings)
      (listed.play (Progress.step settings) {}) := by
    rw [← Cursor.feed_eq_play]
    exact runDocument_eq_goOn ..
  have hresult : ∀ failure, run.2.2 = failure → goOn (Progress.finish settings)
      (listed.play (Progress.step settings) {}) = (result.1, failure) :=
    fun failure hfailure => hplay.symm.trans (Prod.ext rfl hfailure)
  have hlisting := Listing.bytes_writeSteps read settings.includeLimit files
  have hfails : ∀ e, run.2.2 = some e → ∃ before, listed.FailsAfter settings before e ∧
      Table.ofDefinitions settings.redefinition (Step.definitions before) = .ok run.1.table :=
    fun e he => Course.failsAfter_of_goOn (hresult _ he)
  refine ⟨hlisting, fun hok => ?_, fun e he => ?_, hfails⟩
  · obtain ⟨hfailure, htaken⟩ := Course.takes_of_goOn (hresult _ hok)
    exact ⟨hlisting.2.trans hfailure, htaken⟩
  · have hfailure : listed.failure = some e := hlisting.2.symm.trans he
    have hrun : run.2.2 ≠ none := by
      intro hok
      obtain ⟨hnone, -⟩ := Course.takes_of_goOn (hresult _ hok)
      rw [hfailure] at hnone
      cases hnone
    obtain ⟨e', he'⟩ := Option.ne_none_iff_exists'.mp hrun
    obtain ⟨before, hafter, -⟩ := hfails e' he'
    refine ⟨e', he', ?_⟩
    rcases hafter.of_failure hfailure with rfl | ⟨next, after, hsplit, hraises⟩
    · exact .inl rfl
    · exact .inr ⟨before, next, after, hsplit, hafter, hraises⟩

/-- A run that goes through, and a listing that fails at the third line where the run fails at the
second. -/
theorem listing_fails_later_than_its_run :
    let d : Path := ⟨['d']⟩
    let listing := fun source => Listing.writeSteps (fun _ _ => .error .absent) 10
      (OpenFiles.ofLines d (Text.lines source)) {}
    let listed := fun source => Cursor.course (fun _ => .error .absent) 10
      { files := OpenFiles.ofLines d (Text.lines source) }
    let run := fun source => Session.runSource { read := fun _ _ => .error .absent } d source {}
    let good := "define f() x endmacro\nf()".toList
    let bad := "define f() x endmacro\ndefine f() y endmacro\ninclude \"e\"".toList
    ((run good).2.2 = none ∧ (listing good).2 = none ∧
      Table.ofDefinitions .reject (Step.definitions (listed good).steps) =
        .ok (run good).1.table) ∧
    (listing bad).2 = some (.fault ⟨d, 3⟩ (.includeNotFound ⟨['e']⟩ .absent)) ∧
      (run bad).2.2 = some (.fault ⟨d, 2⟩ (.redefinition ['f'] ⟨d, 1⟩)) ∧
      (∃ before next after, (listed bad).steps = before ++ next :: after ∧
        next.Raises (.fault ⟨d, 2⟩ (.redefinition ['f'] ⟨d, 1⟩))) ∧
      ∃ before, Table.ofDefinitions .reject (Step.definitions before) =
        .ok (run bad).1.table := by
  intro d listing listed run good bad
  let reading : Progress → Reader := fun _ _ => .error .absent
  let f : Definition := ⟨['f'], [], ['x'], ⟨d, 1⟩⟩
  let g : Definition := ⟨['f'], [], ['y'], ⟨d, 2⟩⟩
  let table := Table.empty.put f
  let call : SourceLine := ⟨"f()".toList, ⟨d, 2⟩, 0⟩
  let header : SourceLine := ⟨"define f() y endmacro".toList, ⟨d, 2⟩, 0⟩
  let directive : SourceLine := ⟨"include \"e\"".toList, ⟨d, 3⟩, 0⟩
  let done : Progress := { table, sink := (Sink.write {} ["x".toList, ['\n']]).1 }
  have hgood : (run good).2.2 = none := by
    have hdefine : Cursor.next? (reading {}) 10 { files := OpenFiles.ofLines d (Text.lines good) } =
        .ok (some (.define f, { files := [[call]] })) := by decide +kernel
    have hcall : Cursor.next? (reading { table }) 10 { files := [[call]] } =
        .ok (some (.text call, { files := [[]] })) := by rfl
    have hstep : Progress.step {} { table } (.text call) = (done, none) := by
      have hexpand : expand table 10 "f()".toList = .ok "x".toList := by decide +kernel
      exact Progress.addText_of_written rfl (by decide +kernel) hexpand rfl
    have hfeed : Cursor.feed reading 10 (Progress.step {})
        { files := OpenFiles.ofLines d (Text.lines good) } {} = (done, none) := by
      rw [Cursor.feed_of_taken hdefine rfl, Cursor.feed_of_taken hcall hstep,
        Cursor.feed_of_end rfl]
    have hrun : runDocument {} (fun _ _ => .error .absent) (OpenFiles.ofLines d (Text.lines good))
        {} = done.finish {} := runDocument_of_feed_end hfeed rfl
    exact congrArg Prod.snd hrun
  have hdefine : Cursor.next? (reading {}) 10 { files := OpenFiles.ofLines d (Text.lines bad) } =
      .ok (some (.define f, { files := [[header, directive]] })) := by decide +kernel
  have hagain : Cursor.next? (reading { table }) 10 { files := [[header, directive]] } =
      .ok (some (.define g, { files := [[directive]] })) := by decide +kernel
  have hbad : (run bad).2.2 = some (.fault ⟨d, 2⟩ (.redefinition ['f'] ⟨d, 1⟩)) := by
    have hfeed : Cursor.feed reading 10 (Progress.step {})
        { files := OpenFiles.ofLines d (Text.lines bad) } {} =
          ({ table }, some (.fault ⟨d, 2⟩ (.redefinition ['f'] ⟨d, 1⟩))) := by
      rw [Cursor.feed_of_taken hdefine rfl, Cursor.feed_of_refused hagain rfl]
    exact congrArg Prod.snd (runDocument_of_feed_error hfeed)
  have hlisted : (listed bad).failure =
      some (.fault ⟨d, 3⟩ (.includeNotFound ⟨['e']⟩ .absent)) := by
    have hinclude : Cursor.next? (fun _ => .error .absent) 10 { files := [[directive]] } =
        .error (.fault ⟨d, 3⟩ (.includeNotFound ⟨['e']⟩ .absent)) := by decide +kernel
    simp only [listed]
    rw [Cursor.course_of_step hdefine, Cursor.course_of_step hagain,
      Cursor.course_of_error hinclude]
    rfl
  obtain ⟨-, htaken, -, -⟩ := listings_show_what_runs_do (fun _ => .error .absent) {} {} d good
  obtain ⟨⟨-, hlisting⟩, -, hearlier, hfails⟩ :=
    listings_show_what_runs_do (fun _ => .error .absent) {} {} d bad
  obtain ⟨hok, htable, -⟩ := htaken hgood
  obtain ⟨e', he', hcases⟩ := hearlier _ (hlisting.trans hlisted)
  obtain rfl := Option.some.inj (hbad.symm.trans he')
  refine ⟨⟨hgood, hok, htable⟩, hlisting.trans hlisted, hbad, ?_, ?_⟩
  · obtain heq | ⟨before, next, after, hsplit, -, hraises⟩ := hcases
    · cases heq
    · exact ⟨before, next, after, hsplit, hraises⟩
  · obtain ⟨before, -, hbefore⟩ := hfails _ hbad
    exact ⟨before, hbefore⟩

end TextExpander
