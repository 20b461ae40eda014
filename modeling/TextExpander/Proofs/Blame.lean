import TextExpander.Proofs.ClosedCalls
import TextExpander.Proofs.Registry

/-!
# What errors point at

An error of a document has the location of the line that it blames. Where this is depends on what is
wrong. A fault of an `include` line or of a header is found on the line itself; a definition without
an end is blamed on its header, though all lines after it had to be read; a directive in a body is
blamed on its own line, which has the number that the reader of the body counted up to; and a name
that is defined again is blamed on the later header, with the location of the earlier one.

The first four are faults of reading, and are traced back to the line that was read
(`Cursor.Reads.error`). The last one and the faults of expansion come from what is done with a step,
and from what the run has gathered before (`Progress.Accounted`).

## Main definitions

* `Definition.Heads`: a line is the header of a name.
* `Fault.Blames`: what a fault says about a line.
* `Fault.FoundAt`: what a fault says holds of the line at its location.

## Main results

* `Definition.of_enclose_error`: which line is blamed for a body that is not accepted.
* `Cursor.Reads.error`: errors of reading.
* `Progress.points_step`: errors of what is done with a step.
* `errors_point_at_the_line_they_blame`: errors of a run.
-/

namespace TextExpander

/-! ### What faults say -/

/-- The line is a header of `name`, and `rest` follows its parameter list. -/
def Definition.Heads (text name rest : Text) : Prop :=
  ∃ header list, Directive.header text = .ok header ∧ header.name = name ∧
    Parens.close? header.after = some (list, rest)

/-- The directive that a part of a body is said to be. -/
def Nested.Describes : Nested → Text → Prop
  | inclusion, part => (Directive.includePath? part).isSome
  | definition, part => Directive.startsDefinition part

namespace Fault

/-- What a fault says about the line `text` of a file, with the lines `before` and `after` it, and
about the definitions that were read before. -/
def Blames (loaded : Path → List Text → Prop) (table : Table) (file : Path) (before : List Text)
    (text : Text) (after : List Text) : Fault → Prop
  -- The line names the file.
  | includeNotFound path _ =>
    ∃ named, Directive.includePath? text = some named ∧ file.resolve named = path
  | includeTooDeep path _ =>
    ∃ named, Directive.includePath? text = some named ∧ file.resolve named = path
  -- The line starts a definition, or is the header up to a parameter list without an end.
  | malformedHeader _ => Directive.startsDefinition text
  | unbalanced (.parameters name) =>
    ∃ header, Directive.header text = .ok header ∧ header.name = name ∧
      Parens.close? header.after = none
  -- The line is the header, and nothing after its parameter list ends the definition.
  | unterminated name =>
    ∃ rest, Definition.Heads text name rest ∧
      ∀ t ∈ rest :: after, Directive.endKeyword ∉ Lexeme.identifiers t
  -- The line is the header, or follows it in the definition, which does not end before.
  | illegalNested construct name =>
    (∃ rest, Definition.Heads text name rest ∧ construct.Describes (Definition.beforeEnd rest)) ∨
      ∃ above top between rest, before = above ++ top :: between ∧
        Definition.Heads top name rest ∧
        (∀ t ∈ rest :: between, Directive.endKeyword ∉ Lexeme.identifiers t) ∧
        construct.Describes (Definition.beforeEnd text)
  -- Both lines are headers, and the name has the definition that was read from the earlier one.
  | redefinition name previous =>
    (∃ rest, Definition.Heads text name rest) ∧
      (∃ text' after' rest', previous.Shows loaded text' after' ∧
        Definition.Heads text' name rest') ∧
      ∃ d, table.get? name = some d ∧ d.location = previous
  -- These are about text.
  | unbalanced (.call _) => True
  | arityMismatch .. => True
  | expansionTooDeep .. => True
  | unmatchedEnd => True

/-- What a fault says holds of the line at a location. -/
def FoundAt (loaded : Path → List Text → Prop) (table : Table) (l : Location) (what : Fault) :
    Prop :=
  ∃ before text after, loaded l.file (before ++ text :: after) ∧ l.line = before.length + 1 ∧
    what.Blames loaded table l.file before text after

/-- A fault of the calls in a text. -/
def OfCall : Fault → Prop
  | unbalanced (.call _) => True
  | arityMismatch .. => True
  | expansionTooDeep .. => True
  | _ => False

theorem OfCall.foundAt {what : Fault} (h : what.OfCall) {loaded : Path → List Text → Prop}
    {l : Location} (hl : ∃ text after, l.Shows loaded text after) (table : Table) :
    what.FoundAt loaded table l := by
  obtain ⟨text, after, before, hloaded, hline⟩ := hl
  refine ⟨before, text, after, hloaded, hline, ?_⟩
  cases what with
  | unbalanced construct => cases construct <;> trivial
  | arityMismatch => trivial
  | expansionTooDeep => trivial
  | _ => cases h

end Fault

/-! ### Faults of definitions -/

namespace Definition

theorem heads_of_signature {text : Text} {s : Signature} (h : signature text = .ok s) :
    Heads text s.name s.rest := by
  obtain ⟨header, list, hheader, hname, -, hclose, -⟩ := of_signature h
  exact ⟨header, list, hheader, hname, hclose⟩

theorem describes_of_nested? {part : Text} {construct : Nested}
    (h : nested? part = some construct) : construct.Describes part := by
  rw [nested?] at h
  split_ifs at h with hinclude hstarts
  · obtain rfl := Option.some.inj h
    exact hinclude
  · obtain rfl := Option.some.inj h
    exact hstarts

theorem of_signature_error {text : Text} {what : Fault} (h : signature text = .error what) :
    (∃ reason, what = .malformedHeader reason) ∨ ∃ header, Directive.header text = .ok header ∧
      Parens.close? header.after = none ∧ what = .unbalanced (.parameters header.name) := by
  rw [signature] at h
  split at h
  · exact .inl ⟨_, (Except.error.inj h).symm⟩
  · next header hheader =>
    split at h
    · exact .inl ⟨_, (Except.error.inj h).symm⟩
    · split at h
      · next hclose => exact .inr ⟨header, hheader, hclose, (Except.error.inj h).symm⟩
      · split at h
        · exact .inl ⟨_, (Except.error.inj h).symm⟩
        · cases h

variable {name : Text} {home : Location} {file : Path} {depth passed : Nat} {e : Error}

theorem of_checkPart_error {here : Location} {part : Text}
    (h : checkPart name here part = .error e) :
    ∃ construct, nested? part = some construct ∧
      e = .fault here (.illegalNested construct name) := by
  rw [checkPart] at h
  split at h
  · next construct hnested => exact ⟨construct, hnested, (Except.error.inj h).symm⟩
  · cases h

/-- **Which line is blamed for a body.** The first one that is a directive, unless the body ends
before; or, if there is none and no end either, the line of the header. -/
theorem of_enclose_error {lines : List Text}
    (h : enclose name home file depth passed lines = .error e) :
    (∃ above segment below construct, lines = above ++ segment :: below ∧
      (∀ t ∈ above, Directive.endKeyword ∉ Lexeme.identifiers t) ∧
      construct.Describes (beforeEnd segment) ∧
      e = .fault ⟨file, passed + above.length + 1⟩ (.illegalNested construct name)) ∨
    (∀ t ∈ lines, Directive.endKeyword ∉ Lexeme.identifiers t) ∧
      e = .fault home (.unterminated name) := by
  induction lines generalizing passed with
  | nil => exact .inr ⟨by simp, (Except.error.inj h).symm⟩
  | cons segment below ih =>
    cases hcut : Directive.cutAtEnd? segment with
    | some cut =>
      obtain ⟨part, rest⟩ := cut
      rw [enclose_of_cut hcut] at h
      cases hpart : checkPart name ⟨file, passed + 1⟩ part with
      | ok _ =>
        rw [hpart] at h
        cases h
      | error e' =>
        rw [hpart] at h
        obtain rfl := Except.error.inj h
        obtain ⟨construct, hnested, rfl⟩ := of_checkPart_error hpart
        refine .inl ⟨[], segment, below, construct, rfl, by simp, ?_, rfl⟩
        rw [beforeEnd, hcut]
        exact describes_of_nested? hnested
    | none =>
      have hopen : Directive.endKeyword ∉ Lexeme.identifiers segment :=
        Lexeme.cutAt_eq_none_iff.mp hcut
      cases hpart : checkPart name ⟨file, passed + 1⟩ segment with
      | error e' =>
        rw [enclose_of_nested hcut hpart] at h
        obtain rfl := Except.error.inj h
        obtain ⟨construct, hnested, rfl⟩ := of_checkPart_error hpart
        refine .inl ⟨[], segment, below, construct, rfl, by simp, ?_, rfl⟩
        rw [beforeEnd, hcut]
        exact describes_of_nested? hnested
      | ok _ =>
        rw [enclose_cons hcut hpart] at h
        cases hbelow : enclose name home file depth (passed + 1) below with
        | ok _ =>
          rw [hbelow] at h
          cases h
        | error e' =>
          rw [hbelow] at h
          obtain rfl := Except.error.inj h
          rcases ih hbelow with ⟨above, segment', below', construct, rfl, habove, hdescribes, rfl⟩ |
            ⟨hlines, rfl⟩
          · refine .inl ⟨segment :: above, segment', below', construct, rfl,
              List.forall_mem_cons.mpr ⟨hopen, habove⟩, hdescribes, ?_⟩
            simp only [List.length_cons, Nat.add_right_comm, Nat.add_assoc]
          · exact .inr ⟨List.forall_mem_cons.mpr ⟨hopen, hlines⟩, rfl⟩

/-- A definition that is not accepted is blamed on its header or on a line of its body. -/
theorem foundAt_of_ofLines_error {loaded : Path → List Text → Prop} {before : List Text}
    {text : Text} {after : List Text} (hloaded : loaded file (before ++ text :: after))
    (hstarts : Directive.startsDefinition text = true)
    (h : ofLines file depth before.length text after = .error e) :
    ∃ location what, e = .fault location what ∧ ∀ table, what.FoundAt loaded table location := by
  rw [ofLines] at h
  cases hsignature : signature text with
  | error what =>
    rw [hsignature] at h
    obtain rfl := Except.error.inj h
    refine ⟨_, what, rfl, fun table => ⟨before, text, after, hloaded, rfl, ?_⟩⟩
    rcases of_signature_error hsignature with ⟨reason, rfl⟩ | ⟨header, hheader, hclose, rfl⟩
    · exact hstarts
    · exact ⟨header, hheader, rfl, hclose⟩
  | ok s =>
    have hheads := heads_of_signature hsignature
    simp only [hsignature] at h
    cases hencloses : enclose s.name ⟨file, before.length + 1⟩ file depth before.length
        (s.rest :: after) with
    | ok enclosed =>
      rw [hencloses] at h
      cases h
    | error e' =>
      rw [hencloses] at h
      obtain rfl := Except.error.inj h
      rcases of_enclose_error hencloses with
        ⟨above, segment, below, construct, hlines, habove, hdescribes, rfl⟩ | ⟨hopen, rfl⟩
      · refine ⟨_, _, rfl, fun table => ?_⟩
        cases above with
        | nil =>
          obtain ⟨rfl, rfl⟩ := List.cons.inj hlines
          exact ⟨before, text, after, hloaded, rfl, .inl ⟨s.rest, hheads, hdescribes⟩⟩
        | cons rest between =>
          obtain ⟨rfl, rfl⟩ := List.cons.inj hlines
          refine ⟨before ++ text :: between, segment, below, by simpa using hloaded, ?_,
            .inr ⟨before, text, between, s.rest, rfl, hheads, habove, hdescribes⟩⟩
          simp only [List.length_append, List.length_cons, Nat.add_assoc]
      · exact ⟨_, _, rfl, fun table =>
          ⟨before, text, after, hloaded, rfl, s.rest, hheads, hopen⟩⟩

end Definition

variable {loaded : Path → List Text → Prop}

/-- **Errors of reading.** A document that cannot be read on is blamed on a line for what is wrong
there. -/
theorem Cursor.Reads.error {c : Cursor} (h : c.Reads loaded) {read : Reader} {limit : Nat}
    {e : Error} (hnext : c.next? read limit = .error e) :
    ∃ location what, e = .fault location what ∧ ∀ table, what.FoundAt loaded table location := by
  obtain ⟨line, hqueued, -⟩ | hend | ⟨file, depth, before, text, after, outer, hloaded, -,
    hleads⟩ := h.cases read limit
  · rw [next?, hqueued] at hnext
    cases hnext
  · rw [hend] at hnext
    cases hnext
  · rw [hnext] at hleads
    cases hleads with
    | tooDeep hnamed _ =>
      exact ⟨_, _, rfl, fun table => ⟨before, text, after, hloaded, rfl, _, hnamed, rfl⟩⟩
    | notFound hnamed _ =>
      exact ⟨_, _, rfl, fun table => ⟨before, text, after, hloaded, rfl, _, hnamed, rfl⟩⟩
    | faulty _ hstarts hlines => exact Definition.foundAt_of_ofLines_error hloaded hstarts hlines

/-! ### Faults of expansion -/

namespace Expansion

theorem meets_ofCall_expandOutline {callValue : Callee → Fragment → Except Fault Fragment}
    (h : ∀ callee inside, Meets Fault.OfCall (fun _ => True) (callValue callee inside))
    (o : Outline Cell Callee) : Meets Fault.OfCall (fun _ => True) (expandOutline callValue o) := by
  induction o with
  | text rest => trivial
  | unclosed before callee after => trivial
  | call before callee inside next ih =>
    exact (h callee inside).bind fun value _ => ih.bind fun rest _ => trivial

/-- Only calls are at fault when a text is expanded. -/
theorem meets_ofCall_expandFragment (table : Table) (limit levels : Nat) (f : Fragment) :
    Meets Fault.OfCall (fun _ => True) (expandFragment table limit levels f) := by
  induction levels generalizing f with
  | zero =>
    rw [expandFragment]
    refine meets_ofCall_expandOutline (fun callee inside => ?_) _
    trivial
  | succ levels ih =>
    refine meets_ofCall_expandOutline (fun callee inside => ?_) _
    have hvalues : Meets Fault.OfCall (fun values => ∀ value ∈ values, True)
        ((Parens.arguments inside).mapM (expandFragment table limit levels)) :=
      Meets.mapM fun argument _ => ih argument
    cases callee with
    | glue => exact hvalues.bind fun values _ => trivial
    | user d =>
      simp only [expandCall]
      split_ifs
      · exact hvalues.bind fun values _ => ih _
      · trivial

end Expansion

theorem ofCall_of_expand {table : Table} {limit : Nat} {t : Text} {what : Fault}
    (h : expand table limit t = .error what) : what.OfCall := by
  have hmeets := Expansion.meets_ofCall_expandFragment table limit limit (Fragment.plain t)
  rw [expand] at h
  cases hexpand : Expansion.expandFragment table limit limit (Fragment.plain t) with
  | ok f =>
    rw [hexpand] at h
    cases h
  | error what' =>
    rw [hexpand] at h hmeets
    exact Except.error.inj h ▸ hmeets

/-! ### Outputs -/

namespace Sink

theorem settle_error {s : Sink} {e : Error} (h : s.settle.2 = some e) :
    ∃ reason, e = .output reason := by
  rw [settle] at h
  split at h
  · cases h
  · split at h
    · cases h
    · exact ⟨_, (Option.some.inj h).symm⟩

theorem flush_error {s : Sink} {e : Error} (h : s.flush.2 = some e) :
    ∃ reason, e = .output reason := by
  rw [flush] at h
  split at h
  · next hsettle =>
    obtain rfl := Option.some.inj h
    exact settle_error (congrArg Prod.snd hsettle)
  · split_ifs at h
    exact ⟨_, (Option.some.inj h).symm⟩

end Sink

/-! ### Faults of a run -/

theorem Table.of_define_error {policy : Redefinition} {t : Table} {d : Definition} {e : Error}
    (h : t.define policy d = .error e) : ∃ previous, t.get? d.name = some previous ∧
      e = .fault d.location (.redefinition d.name previous.location) := by
  unfold define at h
  split at h
  · next previous hprevious => exact ⟨previous, hprevious, (Except.error.inj h).symm⟩
  · cases h

namespace Progress

/-- If an outcome is a fault, then what it says holds of the line at its location. -/
def Points (loaded : Path → List Text → Prop) (x : Progress × Option Error) : Prop :=
  ∀ location what, x.2 = some (.fault location what) → what.FoundAt loaded x.1.table location

variable {settings : Settings} {p : Progress}

theorem points_emit {ready : Pending}
    (h : ∃ text after, ready.location.Shows loaded text after) :
    Points loaded (p.emit settings ready) := by
  intro location what hfail
  rw [emit] at hfail ⊢
  split at hfail
  · next what' hexpand =>
    obtain ⟨rfl, rfl⟩ := Error.fault.inj (Option.some.inj hfail)
    exact (ofCall_of_expand hexpand).foundAt h _
  · obtain ⟨reason, hreason⟩ := Sink.settle_error hfail
    cases hreason

theorem points_addText (h : p.Accounted loaded) {line : SourceLine}
    (hline : (Step.text line).Stands loaded) : Points loaded (p.addText settings line) := by
  cases hend : (Directive.cutAtEnd? line.text).isSome with
  | true =>
    rw [addText_of_end hend]
    intro location what hfail
    obtain ⟨rfl, rfl⟩ := Error.fault.inj (Option.some.inj hfail)
    obtain ⟨text, after, before, hloaded, hnumber⟩ := hline.shows_text
    exact ⟨before, text, after, hloaded, hnumber, trivial⟩
  | false =>
    cases hopen : hasOpenCall p.table (Pending.add p.pending line).text with
    | true =>
      rw [addText_of_open hend hopen]
      exact nofun
    | false =>
      rw [addText_of_closed hend hopen]
      exact points_emit (h.shows_add hline)

theorem points_define (h : p.Accounted loaded) {d : Definition}
    (hd : (Step.define d).Stands loaded) : Points loaded (p.step settings (.define d)) := by
  rw [step]
  cases hdefine : p.table.define settings.redefinition d with
  | ok table =>
    intro _ _ hfail
    cases hfail
  | error e =>
    intro location what hfail
    obtain ⟨previous, hprevious, rfl⟩ := Table.of_define_error hdefine
    obtain ⟨rfl, rfl⟩ := Error.fault.inj (Option.some.inj hfail)
    -- Both the refused definition and the one that is in the table stand where they start.
    obtain ⟨_, hstands⟩ := hd
    obtain ⟨text, after, s, ⟨before, hloaded, hline⟩, -, hsignature, hname, -⟩ := hstands.shows
    obtain ⟨_, hstands'⟩ := h.table d.name previous hprevious
    obtain ⟨text', after', s', hshows', -, hsignature', hname', -⟩ := hstands'.shows
    have hheads := Definition.heads_of_signature hsignature
    have hheads' := Definition.heads_of_signature hsignature'
    rw [hname] at hheads
    rw [hname', Table.name_of_get? hprevious] at hheads'
    exact ⟨before, text, after, hloaded, hline, ⟨_, hheads⟩, ⟨_, _, _, hshows', hheads'⟩,
      previous, hprevious, rfl⟩

/-- **One step** that stands in loaded files. -/
theorem points_step (h : p.Accounted loaded) {next : Step} (hnext : next.Stands loaded) :
    Points loaded (p.step settings next) := by
  cases next with
  | splice named location => exact nofun
  | define d => exact points_define h hnext
  | text line => exact points_addText h hnext

theorem points_flush (loaded : Path → List Text → Prop) (p : Progress) :
    Points loaded p.flush := by
  intro location what hfail
  obtain ⟨reason, hreason⟩ := Sink.flush_error hfail
  cases hreason

theorem Points.goOn {x : Progress × Option Error} (h : Points loaded x)
    {next : Progress → Progress × Option Error} (hnext : x.2 = none → Points loaded (next x.1)) :
    Points loaded (goOn next x) := by
  obtain ⟨p, failure⟩ := x
  cases failure with
  | some e => exact h
  | none => exact hnext rfl

theorem points_finish (h : p.Accounted loaded) (settings : Settings) :
    Points loaded (p.finish settings) := by
  cases hpending : p.pending with
  | none =>
    rw [finish, hpending]
    exact points_flush loaded p
  | some ready =>
    rw [finish_eq_goOn settings hpending]
    exact (points_emit (h.pending ready hpending)).goOn fun _ => points_flush loaded _

variable {read : Trail → Reader} {name : Path} {lines : List Text} {trail : Trail}

/-- The steps of a document, up to its end or to the first error. -/
theorem points_feed (settings : Settings) (read : Trail → Reader) (name : Path)
    (lines : List Text) (trail : Trail) :
    Points (Loaded settings read name lines trail)
      (Cursor.feed (fun p => read p.toTrail) settings.includeLimit (step settings)
        { files := OpenFiles.ofLines name lines } { toTrail := trail }) := by
  have hstops := Cursor.stops_feed (fun p => read p.toTrail) settings.includeLimit (step settings)
    { files := OpenFiles.ofLines name lines } { toTrail := trail }
  generalize Cursor.feed _ _ _ _ _ = x at hstops ⊢
  cases hstops with
  | ended hreached hend => exact nofun
  | @unread d p e hreached he =>
    intro location what hfail
    obtain rfl := Option.some.inj hfail
    obtain ⟨_, _, heq, hfound⟩ := hreached.reads.error he
    obtain ⟨rfl, rfl⟩ := Error.fault.inj heq
    exact hfound p.table
  | @refused d d' p q next e hreached hnext hrefused =>
    have hpoints : Points _ (p.step settings next) :=
      points_step (AtBoundary.accounted hreached) (hreached.stands hnext)
    rwa [hrefused] at hpoints

end Progress

/-- **What errors point at.** If a run ends with a fault, then its location is a line of the
document or of a file that was included in this run, and what the fault says holds of that line. -/
theorem errors_point_at_the_line_they_blame (settings : Settings) (read : Trail → Reader)
    (name : Path) (lines : List Text) (trail : Trail) {location : Location} {what : Fault}
    (h : (runDocument settings read (OpenFiles.ofLines name lines) trail).2 =
      some (.fault location what)) :
    ∃ before text after,
      Progress.Loaded settings read name lines trail location.file (before ++ text :: after) ∧
      location.line = before.length + 1 ∧
      what.Blames (Progress.Loaded settings read name lines trail)
        (runDocument settings read (OpenFiles.ofLines name lines) trail).1.table location.file
        before text after := by
  have hfeed := Progress.accounted_feed settings read name lines trail
  have hpoints : Progress.Points (Progress.Loaded settings read name lines trail)
      (runDocument settings read (OpenFiles.ofLines name lines) trail) := by
    rw [runDocument_eq_goOn]
    exact (Progress.points_feed settings read name lines trail).goOn fun _ =>
      Progress.points_finish hfeed settings
  exact hpoints location what h

/-- A name that is defined in the document, and again in a file that it includes. -/
theorem redefinition_in_an_included_file :
    let read : Trail → Reader := fun _ _ => .ok ["define f() y".toList, "endmacro".toList]
    let lines := ["define f() x endmacro".toList, "include \"e\"".toList]
    let run := runDocument {} read (OpenFiles.ofLines ⟨['d']⟩ lines) {}
    let what : Fault := .redefinition ['f'] ⟨⟨['d']⟩, 1⟩
    run.2 = some (.fault ⟨⟨['e']⟩, 1⟩ what) ∧
      ∃ before text after,
        Progress.Loaded {} read ⟨['d']⟩ lines {} ⟨['e']⟩ (before ++ text :: after) ∧
        1 = before.length + 1 ∧
        what.Blames (Progress.Loaded {} read ⟨['d']⟩ lines {}) run.1.table ⟨['e']⟩ before text
          after := by
  intro read lines run what
  let reading : Progress → Reader := fun p => read p.toTrail
  let rest : List SourceLine := [⟨"include \"e\"".toList, ⟨⟨['d']⟩, 2⟩, 0⟩]
  let included : List SourceLine :=
    SourceLine.number ⟨['e']⟩ 1 ["define f() y".toList, "endmacro".toList]
  let earlier : Definition := ⟨['f'], [], ['x'], ⟨⟨['d']⟩, 1⟩⟩
  let later : Definition := ⟨['f'], [], ['y'], ⟨⟨['e']⟩, 1⟩⟩
  let p : Progress := { table := Table.empty.put earlier }
  have hdefine : Cursor.next? (reading {}) 10 { files := OpenFiles.ofLines ⟨['d']⟩ lines } =
      .ok (some (.define earlier, { files := [rest] })) := by decide +kernel
  have hsplice : Cursor.next? (reading p) 10 { files := [rest] } =
      .ok (some (.splice ['e'] ⟨⟨['d']⟩, 2⟩, { files := [included, []] })) := by rfl
  have hagain : Cursor.next? (reading { p with opened := [⟨['e']⟩] }) 10
      { files := [included, []] } = .ok (some (.define later, { files := [[], []] })) := by
    decide +kernel
  have hdefined : Progress.step {} {} (.define earlier) = (p, none) := rfl
  have hopened : Progress.step {} p (.splice ['e'] ⟨⟨['d']⟩, 2⟩) =
      ({ p with opened := [⟨['e']⟩] }, none) := rfl
  have hrun : run.2 = some (.fault ⟨⟨['e']⟩, 1⟩ what) := by
    have hfeed : Cursor.feed reading 10 (Progress.step {})
        { files := OpenFiles.ofLines ⟨['d']⟩ lines } {} =
          ({ p with opened := [⟨['e']⟩] }, some (.fault ⟨⟨['e']⟩, 1⟩ what)) := by
      rw [Cursor.feed_of_taken hdefine hdefined, Cursor.feed_of_taken hsplice hopened,
        Cursor.feed_of_refused hagain rfl]
    exact congrArg Prod.snd (runDocument_of_feed_error hfeed)
  exact ⟨hrun, errors_point_at_the_line_they_blame {} read ⟨['d']⟩ lines {} hrun⟩

end TextExpander
