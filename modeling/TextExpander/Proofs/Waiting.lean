import TextExpander.Proofs.Boundaries
import TextExpander.Proofs.OpenCall
import TextExpander.Run

/-!
# Text that waits

A run keeps text back while it ends inside a call. Between two steps the text that waits always
ends inside a call, under the definitions known at that moment. A line of text keeps this by its own
test. Including a file does not touch it. A definition may come while text waits; it can only add
names, and more names never close a call. So at the end of a document text that still waits has no
expansion, and a run that succeeds has left nothing behind.

## Main definitions

* `Progress.AtBoundary`: what a run has done between two steps.
* `Progress.WaitsOpen`: the text that waits ends inside a call.

## Main results

* `waiting_text_ends_inside_a_call`: the invariant over whole runs, and what it means for their end.
-/

namespace TextExpander

namespace Table

theorem eq_put_of_define {policy : Redefinition} {table table' : Table} {d : Definition}
    (h : table.define policy d = .ok table') : table' = table.put d := by
  unfold define at h
  split at h
  · cases h
  · exact (Except.ok.inj h).symm

/-- A definition that is taken in adds a name at most, and takes none away. -/
theorem isSome_callee?_of_define {policy : Redefinition} {table table' : Table} {d : Definition}
    (h : table.define policy d = .ok table') (name : Text)
    (hname : (table.callee? name).isSome) : (table'.callee? name).isSome := by
  rw [eq_put_of_define h, callee?, get?_put]
  rw [callee?] at hname
  split_ifs at hname ⊢
  · rfl
  · rfl
  · exact hname

end Table

namespace Progress

/-- What a run of a document has done between two steps, and the place where it is then. -/
def AtBoundary (settings : Settings) (read : Trail → Reader) (files : OpenFiles) (trail : Trail) :
    Cursor → Progress → Prop :=
  Cursor.Reached (fun p => read p.toTrail) settings.includeLimit (step settings) { files }
    { toTrail := trail }

/-- The text that waits, if there is any, ends inside a call. -/
def WaitsOpen (p : Progress) : Prop :=
  ∀ ready, p.pending = some ready → hasOpenCall p.table ready.text = true

variable {settings : Settings}

theorem WaitsOpen.of_pending_none {p : Progress} (h : p.pending = none) : p.WaitsOpen := by
  intro ready hready
  rw [h] at hready
  cases hready

theorem pending_emit (p : Progress) (ready : Pending) :
    (p.emit settings ready).1.pending = p.pending := by
  rw [emit]
  split <;> rfl

/-! ### One step

A line of text is refused, kept waiting, or written with what waited before it. -/

theorem addText_of_end {p : Progress} {line : SourceLine}
    (h : (Directive.cutAtEnd? line.text).isSome) :
    p.addText settings line = (p, some (.fault line.location .unmatchedEnd)) := by
  rw [addText, if_pos h]

theorem addText_of_open {p : Progress} {line : SourceLine}
    (hend : (Directive.cutAtEnd? line.text).isSome = false)
    (hopen : hasOpenCall p.table (Pending.add p.pending line).text = true) :
    p.addText settings line = ({ p with pending := some (Pending.add p.pending line) }, none) := by
  simp only [addText, hend, hopen, Bool.false_eq_true, if_false, if_true]

theorem addText_of_closed {p : Progress} {line : SourceLine}
    (hend : (Directive.cutAtEnd? line.text).isSome = false)
    (hopen : hasOpenCall p.table (Pending.add p.pending line).text = false) :
    p.addText settings line =
      emit settings { p with pending := none } (Pending.add p.pending line) := by
  simp only [addText, hend, hopen, Bool.false_eq_true, if_false]

/-- A line after which no call is open is written, with what waited before it, if the text has an
expansion and the output takes it. -/
theorem addText_of_written {p : Progress} {line : SourceLine} {out : Text} {sink : Sink}
    (hend : (Directive.cutAtEnd? line.text).isSome = false)
    (hopen : hasOpenCall p.table (Pending.add p.pending line).text = false)
    (hexpand : expand p.table settings.expansionLimit (Pending.add p.pending line).text = .ok out)
    (hwrite : p.sink.write [out, ['\n']] = (sink, none)) :
    p.addText settings line = ({ p with pending := none, sink }, none) := by
  rw [addText_of_closed hend hopen, emit, hexpand]
  simp only [hwrite]

theorem step_splice_of_resolve {p : Progress} {named : Text} {location : Location} {path : Path}
    (h : location.file.resolve named = path) :
    p.step settings (.splice named location) = ({ p with opened := path :: p.opened }, none) := by
  rw [step, Step.opened, h]
  rfl

theorem WaitsOpen.addText {p : Progress} (h : p.WaitsOpen) (line : SourceLine) :
    (p.addText settings line).1.WaitsOpen := by
  cases hend : (Directive.cutAtEnd? line.text).isSome with
  | true =>
    rw [addText_of_end hend]
    exact h
  | false =>
    cases hopen : hasOpenCall p.table (Pending.add p.pending line).text with
    | true =>
      rw [addText_of_open hend hopen]
      intro ready hready
      obtain rfl := Option.some.inj hready
      exact hopen
    | false =>
      rw [addText_of_closed hend hopen]
      exact .of_pending_none (pending_emit _ _)

theorem WaitsOpen.define {p : Progress} (h : p.WaitsOpen) (d : Definition) :
    (p.step settings (.define d)).1.WaitsOpen := by
  rw [step]
  split
  · next table htable =>
    intro ready hready
    exact hasOpenCall_mono (Table.isSome_callee?_of_define htable) (h ready hready)
  · exact h

/-- Whatever the step, and whether or not it fails. -/
theorem WaitsOpen.step {p : Progress} (h : p.WaitsOpen) (next : Step) :
    (p.step settings next).1.WaitsOpen := by
  cases next with
  | splice named location => exact h
  | define d => exact h.define d
  | text line => exact h.addText line

/-! ### Whole runs -/

theorem AtBoundary.waitsOpen {read : Trail → Reader} {files : OpenFiles} {trail : Trail}
    {c : Cursor} {p : Progress} (h : AtBoundary settings read files trail c p) : p.WaitsOpen :=
  h.invariant (fun _ next ht => ht.step next) (.of_pending_none rfl)

/-- The end of a run fails if text still waits. -/
theorem WaitsOpen.finish_fails {p : Progress} (h : p.WaitsOpen) (settings : Settings)
    {ready : Pending} (hready : p.pending = some ready) :
    ∃ q e, p.finish settings = (q, some e) := by
  obtain ⟨what, hwhat⟩ := expand_of_hasOpenCall settings.expansionLimit (h ready hready)
  have hemit : emit settings { p with pending := none } ready =
      ({ p with pending := none }, some (.fault ready.location what)) := by
    rw [emit, hwhat]
  rw [finish, hready]
  simp only [hemit]
  exact ⟨_, _, rfl⟩

end Progress

open Progress in
/-- **No text is left over, and none is taken for complete before it is.** Between any two steps of
a run, the text that waits ends inside a call under the definitions of that moment. So its final
expansion fails, and a run that succeeds reached the end of its document with no text waiting. The
invariant rests on the last part: more names never close a call. -/
theorem waiting_text_ends_inside_a_call (settings : Settings) (read : Trail → Reader)
    (files : OpenFiles) (trail : Trail) :
    (∀ c p, AtBoundary settings read files trail c p →
      ∀ ready, p.pending = some ready → hasOpenCall p.table ready.text = true) ∧
    (∀ c p, AtBoundary settings read files trail c p →
      ∀ ready, p.pending = some ready → ∃ q e, p.finish settings = (q, some e)) ∧
    (∀ q, runDocument settings read files trail = (q, none) →
      ∃ c p, AtBoundary settings read files trail c p ∧
        c.next? (read p.toTrail) settings.includeLimit = .ok none ∧
        p.pending = none ∧ p.finish settings = (q, none)) ∧
    (∀ table table' : Table,
      (∀ name, (table.callee? name).isSome → (table'.callee? name).isSome) →
      ∀ t, hasOpenCall table t = true → hasOpenCall table' t = true) := by
  refine ⟨fun c p h => h.waitsOpen, fun c p h ready => h.waitsOpen.finish_fails settings,
    fun q hq => ?_, fun table table' hle t => hasOpenCall_mono hle⟩
  rw [runDocument] at hq
  split at hq
  · cases hq
  · next p hfeed =>
    obtain ⟨c, hreached, hend⟩ := Cursor.reached_of_feed hfeed
    have hboundary : AtBoundary settings read files trail c p := hreached
    refine ⟨c, p, hboundary, hend, ?_, hq⟩
    cases hpending : p.pending with
    | none => rfl
    | some ready =>
      obtain ⟨q', e, hfail⟩ := hboundary.waitsOpen.finish_fails settings hpending
      rw [hfail] at hq
      cases hq

open Progress in
/-- A definition that comes between the lines of a call. -/
theorem waiting_text_across_a_definition :
    ∃ c p ready, AtBoundary {} (fun _ _ => .error .absent)
        (OpenFiles.ofLines ⟨['d']⟩ ["glue(a".toList, "define f() x endmacro".toList]) {} c p ∧
      p.table.size = 1 ∧ p.pending = some ready ∧ hasOpenCall p.table ready.text = true := by
  let d : Definition := ⟨['f'], [], ['x'], ⟨⟨['d']⟩, 2⟩⟩
  let ready : Pending := ⟨"glue(a".toList, ⟨⟨['d']⟩, 1⟩⟩
  have hfirst : step {} {} (.text ⟨"glue(a".toList, ⟨⟨['d']⟩, 1⟩, 0⟩) =
      ({ pending := some ready }, none) :=
    addText_of_open rfl (by decide +kernel)
  have hnext : Cursor.next? (fun _ => .error .absent) 10
      ⟨[[⟨"define f() x endmacro".toList, ⟨⟨['d']⟩, 2⟩, 0⟩]], none⟩ =
        .ok (some (.define d, ⟨[[]], none⟩)) := by rfl
  have hboundary : AtBoundary {} (fun _ _ => .error .absent)
      (OpenFiles.ofLines ⟨['d']⟩ ["glue(a".toList, "define f() x endmacro".toList]) {}
      ⟨[[]], none⟩ { pending := some ready, table := Table.put {} d } :=
    (Cursor.Reached.start.step rfl hfirst).step hnext rfl
  exact ⟨_, _, _, hboundary, rfl, rfl,
    (waiting_text_ends_inside_a_call _ _ _ _).1 _ _ hboundary ready rfl⟩

end TextExpander
