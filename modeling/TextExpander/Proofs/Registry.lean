import TextExpander.Proofs.Limits
import TextExpander.Proofs.Origins

/-!
# What a run has gathered

A run gathers two things from the lines of its document: the definitions in its table, and the text
that waits for the end of a call. Both can be accounted for at every moment. Each definition was
read from the lines at its location, and the text that waits has the location of a line, in files
that were loaded in this run. A step brings in at most what it stands for itself, and an error takes
nothing away that was there before. So the account also holds of a run that failed.

## Main definitions

* `Progress.Loaded`: the files that a run loads.
* `Progress.Accounted`: what a run has gathered stands in loaded files.

## Main results

* `Progress.Accounted.step`: a step that stands in loaded files keeps the account.
* `Progress.accounted_runDocument`: the account holds when a run stops.
* `tables_hold_definitions_of_loaded_lines`: what the entries of a table are like after a run.
-/

namespace TextExpander

/-! ### Tables -/

namespace Table

/-- Names are distinct, so each entry is the one that is found under its name. -/
theorem get?_of_mem {t : Table} {d : Definition} (h : d ∈ t.entries) : t.get? d.name = some d := by
  have hsome : (t.get? d.name).isSome :=
    List.find?_isSome.mpr ⟨d, h, beq_self_eq_true d.name⟩
  obtain ⟨e, he⟩ := Option.isSome_iff_exists.mp hsome
  have hmem : e ∈ t.entries := List.mem_of_find?_eq_some he
  rw [he, List.inj_on_of_nodup_map t.distinct hmem h (name_of_get? he)]

end Table

/-! ### The account -/

namespace Progress

/-- The files that are loaded in a run of the lines of a document. -/
abbrev Loaded (settings : Settings) (read : Trail → Reader) (name : Path) (lines : List Text)
    (trail : Trail) : Path → List Text → Prop :=
  Cursor.Loaded (fun p => read p.toTrail) settings.includeLimit (step settings) name lines
    { toTrail := trail }

/-- What a run has gathered stands in loaded files. -/
structure Accounted (loaded : Path → List Text → Prop) (p : Progress) : Prop where
  /-- The definitions were read from lines at their locations. -/
  table : ∀ name d, p.table.get? name = some d → ∃ e, d.Stands loaded e
  /-- The text that waits has the location of a line. -/
  pending : ∀ ready, p.pending = some ready →
    ∃ text after, ready.location.Shows loaded text after

variable {loaded : Path → List Text → Prop} {settings : Settings} {p : Progress}

theorem table_emit (p : Progress) (ready : Pending) :
    (p.emit settings ready).1.table = p.table := by
  rw [emit]
  split <;> rfl

/-- The account is about the table and the waiting text alone. -/
theorem Accounted.of_eq (h : p.Accounted loaded) {q : Progress} (htable : q.table = p.table)
    (hpending : ∀ ready, q.pending = some ready → p.pending = some ready) :
    q.Accounted loaded :=
  ⟨htable ▸ h.table, fun ready hready => h.pending ready (hpending ready hready)⟩

theorem Accounted.emit (h : p.Accounted loaded) (ready : Pending) :
    (emit settings { p with pending := none } ready).1.Accounted loaded := by
  refine h.of_eq (table_emit _ ready) fun ready' hready' => ?_
  rw [pending_emit] at hready'
  cases hready'

/-- The text that waits, with a line added to it, has the location of a line. -/
theorem Accounted.shows_add (h : p.Accounted loaded) {line : SourceLine}
    (hline : (Step.text line).Stands loaded) :
    ∃ text after, (Pending.add p.pending line).location.Shows loaded text after := by
  cases hpending : p.pending with
  | none => exact hline.shows_text
  | some ready => exact h.pending ready hpending

theorem Accounted.addText (h : p.Accounted loaded) {line : SourceLine}
    (hline : (Step.text line).Stands loaded) : (p.addText settings line).1.Accounted loaded := by
  cases hend : (Directive.cutAtEnd? line.text).isSome with
  | true =>
    rw [addText_of_end hend]
    exact h
  | false =>
    cases hopen : hasOpenCall p.table (Pending.add p.pending line).text with
    | true =>
      rw [addText_of_open hend hopen]
      refine ⟨h.table, fun ready hready => ?_⟩
      obtain rfl := Option.some.inj hready
      exact h.shows_add hline
    | false =>
      rw [addText_of_closed hend hopen]
      exact h.emit _

theorem Accounted.define (h : p.Accounted loaded) {d : Definition}
    (hd : (Step.define d).Stands loaded) : (p.step settings (.define d)).1.Accounted loaded := by
  rw [Progress.step]
  split
  · next table htable =>
    refine ⟨fun name d' hd' => ?_, h.pending⟩
    rw [show table = p.table.put d from Table.eq_put_of_define htable, Table.get?_put] at hd'
    split_ifs at hd' with hname
    · obtain rfl := Option.some.inj hd'
      exact hd
    · exact h.table name d' hd'
  · exact h

/-- **One step** that stands in loaded files keeps the account, whether or not it fails. -/
theorem Accounted.step (h : p.Accounted loaded) {next : Step} (hnext : next.Stands loaded) :
    (p.step settings next).1.Accounted loaded := by
  cases next with
  | splice named location => exact h.of_eq rfl fun _ => id
  | define d => exact h.define hnext
  | text line => exact h.addText hnext

theorem Accounted.flush (h : p.Accounted loaded) : p.flush.1.Accounted loaded :=
  h.of_eq rfl fun _ => id

theorem Accounted.finish (h : p.Accounted loaded) (settings : Settings) :
    (p.finish settings).1.Accounted loaded := by
  cases hpending : p.pending with
  | none =>
    rw [Progress.finish, hpending]
    exact h.flush
  | some ready =>
    rw [finish_eq_goOn settings hpending]
    exact goOn_invariant (h.emit ready) fun _ hq => hq.flush

variable {read : Trail → Reader} {name : Path} {lines : List Text} {trail : Trail}

theorem accounted_start (loaded : Path → List Text → Prop) (trail : Trail) :
    Accounted loaded { toTrail := trail } := by
  refine ⟨fun _ d hd => ?_, by simp⟩
  cases hd

/-- The account holds between any two steps. -/
theorem AtBoundary.accounted {c : Cursor}
    (h : AtBoundary settings read (OpenFiles.ofLines name lines) trail c p) :
    p.Accounted (Loaded settings read name lines trail) :=
  h.invariant_of_next (fun hreached hnext ht => ht.step (hreached.stands hnext))
    (accounted_start _ trail)

theorem accounted_feed (settings : Settings) (read : Trail → Reader) (name : Path)
    (lines : List Text) (trail : Trail) :
    (Cursor.feed (fun p => read p.toTrail) settings.includeLimit (Progress.step settings)
      { files := OpenFiles.ofLines name lines } { toTrail := trail }).1.Accounted
        (Loaded settings read name lines trail) :=
  Cursor.feed_invariant_of_next (fun hreached hnext ht => ht.step (hreached.stands hnext))
    (accounted_start _ trail)

/-- **The account holds when a run stops**, for whatever reason it does. -/
theorem accounted_runDocument (settings : Settings) (read : Trail → Reader) (name : Path)
    (lines : List Text) (trail : Trail) :
    (runDocument settings read (OpenFiles.ofLines name lines) trail).1.Accounted
      (Loaded settings read name lines trail) := by
  rw [runDocument_eq_goOn]
  exact goOn_invariant (P := Accounted _) (accounted_feed settings read name lines trail)
    fun q hq => hq.finish settings

end Progress

/-! ### The table after a run -/

/-- **The table after a run.** Whatever the files, the settings, the document and the output are,
and however the run ends: each entry is found under its own name and under no other; a call of that
name refers to it; it is well formed; and it was read from a line that starts with `define`, of the
document or of a file that was included in this run. -/
theorem tables_hold_definitions_of_loaded_lines (settings : Settings) (read : Trail → Reader)
    (name : Path) (lines : List Text) (trail : Trail) :
    let table := (runDocument settings read (OpenFiles.ofLines name lines) trail).1.table
    (∀ d ∈ table.entries, table.get? d.name = some d) ∧
    ∀ key d, table.get? key = some d →
      d.name = key ∧ table.callee? key = some (.user d) ∧ d.WellFormed ∧
      ∃ text after,
        d.location.Shows (Progress.Loaded settings read name lines trail) text after ∧
        Directive.startsDefinition text = true := by
  intro table
  refine ⟨fun d hd => Table.get?_of_mem hd, fun key d hd => ?_⟩
  obtain ⟨e, hstands⟩ :=
    (Progress.accounted_runDocument settings read name lines trail).table key d hd
  obtain ⟨text, after, -, hshows, hstarts, -⟩ := hstands.shows
  have hname := Table.name_of_get? hd
  have hwellFormed := hstands.wellFormed
  refine ⟨hname, ?_, hwellFormed, text, after, hshows, hstarts⟩
  have hglue : key ≠ glueName := by
    rintro rfl
    exact hwellFormed.name_free (hname ▸ by decide)
  rw [Table.callee?, if_neg hglue, hd]
  rfl

/-- A run that includes a definition of three lines and then fails. -/
theorem included_definition_is_kept_by_a_failed_run :
    let read : Trail → Reader := fun _ _ =>
      .ok ["define f(a, b)".toList, "  b".toList, "a endmacro".toList]
    let lines := ["include \"e\"".toList, "endmacro".toList]
    let run := runDocument {} read (OpenFiles.ofLines ⟨['d']⟩ lines) {}
    let d : Definition := ⟨['f'], [['a'], ['b']], "b\na".toList, ⟨⟨['e']⟩, 1⟩⟩
    run.2 = some (.fault ⟨⟨['d']⟩, 2⟩ .unmatchedEnd) ∧ run.1.table.get? ['f'] = some d ∧
      run.1.table.callee? ['f'] = some (.user d) ∧ d.WellFormed ∧
      ∃ text after, d.location.Shows (Progress.Loaded {} read ⟨['d']⟩ lines {}) text after ∧
        Directive.startsDefinition text = true := by
  intro read lines run d
  let reading : Progress → Reader := fun p => read p.toTrail
  let last : SourceLine := ⟨"endmacro".toList, ⟨⟨['d']⟩, 2⟩, 0⟩
  let included : OpenFiles := [SourceLine.number ⟨['e']⟩ 1
    ["define f(a, b)".toList, "  b".toList, "a endmacro".toList], [last]]
  let p : Progress := { opened := [⟨['e']⟩], table := Table.empty.put d }
  have hsplice : Cursor.next? (reading {}) 10 { files := OpenFiles.ofLines ⟨['d']⟩ lines } =
      .ok (some (.splice ['e'] ⟨⟨['d']⟩, 1⟩, { files := included })) := by rfl
  have hdefine : Cursor.next? (reading { opened := [⟨['e']⟩] }) 10 { files := included } =
      .ok (some (.define d, { files := [[], [last]] })) := by decide +kernel
  have htext : Cursor.next? (reading p) 10 { files := [[], [last]] } =
      .ok (some (.text last, { files := [[]] })) := by rfl
  have hopened : Progress.step {} {} (.splice ['e'] ⟨⟨['d']⟩, 1⟩) =
      ({ opened := [⟨['e']⟩] }, none) := rfl
  have hdefined : Progress.step {} { opened := [⟨['e']⟩] } (.define d) = (p, none) := rfl
  have hrun : run = (p, some (.fault ⟨⟨['d']⟩, 2⟩ .unmatchedEnd)) := by
    have hfeed : Cursor.feed reading 10 (Progress.step {})
        { files := OpenFiles.ofLines ⟨['d']⟩ lines } {} =
          (p, some (.fault ⟨⟨['d']⟩, 2⟩ .unmatchedEnd)) := by
      rw [Cursor.feed_of_taken hsplice hopened, Cursor.feed_of_taken hdefine hdefined,
        Cursor.feed_of_refused htext rfl]
    exact runDocument_of_feed_error hfeed
  have hget : run.1.table.get? ['f'] = some d := by rw [hrun]; rfl
  obtain ⟨-, hcallee, hwellFormed, hshows⟩ :=
    (tables_hold_definitions_of_loaded_lines {} read ⟨['d']⟩ lines {}).2 ['f'] d hget
  exact ⟨by rw [hrun], hget, hcallee, hwellFormed, hshows⟩

end TextExpander
