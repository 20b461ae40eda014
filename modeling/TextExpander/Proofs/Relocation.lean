import TextExpander.Proofs.Agree
import TextExpander.Proofs.Blame
import TextExpander.Proofs.Replay
import TextExpander.Proofs.Streaming

/-!
# Runs that differ in locations

Locations are carried through a run and decide nothing. Two runs whose steps say the same, at
locations that correspond, write the same; they fail at the same step or not at all, with errors
that differ in locations only; and they end with tables that differ in locations only. A relation
says which locations correspond. It may be equality, and then the two runs are the same, or it may
let the lines of one file have other numbers.

Each part of a run is compared together with its locations. Of the outputs it is enough to know that
they refuse the same writes and go on to correspond. They may be equal, or they may take everything,
where the second took something before.

## Main definitions

* `Definition.Moved`, `Fault.Moved`, `Error.Moved`, `Step.Moved`, `Course.Moved`: parts of a run,
  the same but for locations that correspond.
* `Sink.Simulation`: outputs that correspond go on to correspond.
* `Progress.Related`: two runs have done the same.
* `Progress.Moved`: what two runs have done, where the second has written something before.
* `resume`: a run that goes on from what was done before.

## Main results

* `Progress.related_step`: one step at corresponding locations.
* `Progress.related_goOn_play`: a whole run.
* `Progress.of_goOn_finish`: what a run that goes through leaves.
* `moved_goOn_play`: whole runs, after something was written.
-/

namespace TextExpander

variable {R : Location → Location → Prop}

/-! ### Parts of a run -/

/-- The definitions say the same, at corresponding locations. -/
structure Definition.Moved (R : Location → Location → Prop) (d d' : Definition) : Prop where
  /-- They say the same. -/
  content : d.content = d'.content
  /-- Their locations correspond. -/
  location : R d.location d'.location

/-- The faults are the same, but for the location of an earlier definition. -/
inductive Fault.Moved (R : Location → Location → Prop) : Fault → Fault → Prop
  /-- A name is defined twice. -/
  | redefinition (name : Text) {previous previous' : Location} : R previous previous' →
      Moved R (.redefinition name previous) (.redefinition name previous')
  /-- Any other fault. -/
  | other {what : Fault} : (∀ name previous, what ≠ .redefinition name previous) →
      Moved R what what

/-- The errors are the same, but for corresponding locations. -/
inductive Error.Moved (R : Location → Location → Prop) : Error → Error → Prop
  /-- The document is faulty. -/
  | fault {location location' : Location} {what what' : Fault} : R location location' →
      what.Moved R what' → Moved R (.fault location what) (.fault location' what')
  /-- The document cannot be read. -/
  | unreadable (path : Path) (reason : FileFault) :
      Moved R (.unreadable path reason) (.unreadable path reason)
  /-- The output cannot be written. -/
  | output (reason : WriteFault) : Moved R (.output reason) (.output reason)

/-- The steps say the same, at corresponding locations. -/
inductive Step.Moved (R : Location → Location → Prop) : Step → Step → Prop
  /-- A file is included under the same name. -/
  | splice (named : Text) {location location' : Location} : R location location' →
      Moved R (.splice named location) (.splice named location')
  /-- The definitions say the same. -/
  | define {d d' : Definition} : d.Moved R d' → Moved R (.define d) (.define d')
  /-- The texts are the same. -/
  | text {line line' : SourceLine} : line.text = line'.text → R line.location line'.location →
      Moved R (.text line) (.text line')

/-- The courses have corresponding steps, and end in corresponding errors or not at all. -/
structure Course.Moved (R : Location → Location → Prop) (c c' : Course) : Prop where
  /-- The steps correspond. -/
  steps : List.Forall₂ (Step.Moved R) c.steps c'.steps
  /-- The errors at the end correspond. -/
  failure : Option.Rel (Error.Moved R) c.failure c'.failure

/-- The tables have corresponding definitions in the same order. -/
def Table.Moved (R : Location → Location → Prop) (t t' : Table) : Prop :=
  List.Forall₂ (Definition.Moved R) t.entries t'.entries

/-! ### What corresponds to itself -/

section Reflexive

theorem Fault.Moved.refl (hR : ∀ l, R l l) (what : Fault) : what.Moved R what := by
  by_cases h : ∃ name previous, what = .redefinition name previous
  · obtain ⟨name, previous, rfl⟩ := h
    exact .redefinition name (hR previous)
  · exact .other fun name previous heq => h ⟨name, previous, heq⟩

theorem Error.Moved.refl (hR : ∀ l, R l l) (e : Error) : e.Moved R e := by
  cases e with
  | fault location what => exact .fault (hR location) (.refl hR what)
  | unreadable path reason => exact .unreadable path reason
  | output reason => exact .output reason

theorem Step.Moved.refl (hR : ∀ l, R l l) (step : Step) : step.Moved R step := by
  cases step with
  | splice named location => exact .splice named (hR location)
  | define d => exact .define ⟨rfl, hR d.location⟩
  | text line => exact .text rfl (hR line.location)

theorem Course.Moved.refl (hR : ∀ l, R l l) (c : Course) : c.Moved R c := by
  refine ⟨List.forall₂_same.mpr fun step _ => .refl hR step, ?_⟩
  rcases c.failure with _ | e
  · exact .none
  · exact .some (.refl hR e)

theorem Table.Moved.refl (hR : ∀ l, R l l) (t : Table) : t.Moved R t :=
  List.forall₂_same.mpr fun d _ => ⟨rfl, hR d.location⟩

end Reflexive

/-! ### If only equal locations correspond -/

theorem Definition.Moved.eq {d d' : Definition} (h : d.Moved Eq d') : d = d' := by
  obtain ⟨hcontent, hlocation⟩ := h
  rw [eq_of_content_eq hcontent, hlocation]

theorem Table.Moved.eq {t t' : Table} (h : t.Moved Eq t') : t = t' := by
  have hentries : List.Forall₂ Eq t.entries t'.entries := h.imp fun _ _ hd => hd.eq
  rw [List.forall₂_eq_eq_eq] at hentries
  obtain ⟨entries, distinct⟩ := t
  obtain rfl : entries = _ := hentries
  rfl

theorem Error.Moved.eq {e e' : Error} (h : e.Moved Eq e') : e = e' := by
  cases h with
  | fault hlocation hwhat =>
    obtain rfl := hlocation
    cases hwhat with
    | redefinition name hprevious => rw [hprevious]
    | other _ => rfl
  | unreadable path reason => rfl
  | output reason => rfl

/-! ### Tables -/

namespace Table

variable {t t' : Table} {d d' : Definition}

theorem Moved.contents (h : t.Moved R t') : t.contents = t'.contents := by
  rw [Table.contents, Table.contents, ← List.forall₂_eq_eq_eq, List.forall₂_map_left_iff,
    List.forall₂_map_right_iff]
  exact h.imp fun _ _ hd => hd.content

theorem Moved.get? (h : t.Moved R t') (name : Text) :
    Option.Rel (Definition.Moved R) (t.get? name) (t'.get? name) := by
  rw [Table.get?, Table.get?]
  rw [Moved] at h
  generalize t.entries = entries, t'.entries = entries' at h ⊢
  induction h with
  | nil => exact .none
  | @cons e e' _ _ he _ ih =>
    have hname : e.name = e'.name := congrArg Prod.fst he.content
    rw [List.find?_cons, List.find?_cons, hname]
    split
    · exact .some he
    · exact ih

/-- A call does not depend on where the definitions stand. -/
theorem Moved.alike (h : t.Moved R t') : t.Alike t' := by
  intro name
  rw [callee?, callee?]
  split_ifs
  · exact .some .glue
  · have hget := h.get? name
    generalize t.get? name = found, t'.get? name = found' at hget ⊢
    cases hget with
    | none => exact .none
    | some hd => exact .some (Callee.alike_of_content_eq hd.content)

theorem Moved.put (h : t.Moved R t') (hd : d.Moved R d') : (t.put d).Moved R (t'.put d') := by
  have hname : d.name = d'.name := congrArg Prod.fst hd.content
  rw [Moved] at h
  show List.Forall₂ (Definition.Moved R) (putDefinition d t.entries) (putDefinition d' t'.entries)
  generalize t.entries = entries, t'.entries = entries' at h ⊢
  induction h with
  | nil => exact .cons hd .nil
  | @cons e e' _ _ he hrest ih =>
    have hename : e.name = e'.name := congrArg Prod.fst he.content
    simp only [putDefinition, hname, hename]
    split_ifs
    · exact .cons hd hrest
    · exact .cons he ih

/-- A definition is taken in, or refused because of a definition that corresponds. -/
theorem Moved.define (h : t.Moved R t') (hd : d.Moved R d') (policy : Redefinition) :
    Agree (Error.Moved R) (Moved R) (t.define policy d) (t'.define policy d') := by
  have hname : d.name = d'.name := congrArg Prod.fst hd.content
  have hget := h.get? d'.name
  cases policy with
  | replace =>
    simp only [Table.define]
    exact .ok (h.put hd)
  | reject =>
    simp only [Table.define, hname]
    generalize t.get? d'.name = found, t'.get? d'.name = found' at hget ⊢
    cases hget with
    | none => exact .ok (h.put hd)
    | some hprevious => exact .error (.fault hd.location (.redefinition _ hprevious.location))

end Table

/-! ### Outputs that correspond -/

namespace Sink

/-- Outputs that correspond refuse the same writes, and go on to correspond. -/
structure Simulation (S : Sink → Sink → Prop) : Prop where
  /-- Writing the same fails in the same way or not at all. -/
  write : ∀ {s s' : Sink} (pieces : List Text), S s s' →
    S (s.write pieces).1 (s'.write pieces).1 ∧ (s.write pieces).2 = (s'.write pieces).2
  /-- So does handing on what was written. -/
  flush : ∀ {s s' : Sink}, S s s' → S s.flush.1 s'.flush.1 ∧ s.flush.2 = s'.flush.2

/-- Both outputs take everything, and they took the same, but for what the second took before. -/
structure Behind (before : List UInt8) (s s' : Sink) : Prop where
  /-- The first takes everything. -/
  takesAll : s.TakesAll
  /-- So does the second. -/
  takesAll' : s'.TakesAll
  /-- What they took. -/
  bytes : s'.bytes = before ++ s.bytes

theorem Simulation.eq : Simulation Eq where
  write := by
    rintro s _ pieces rfl
    exact ⟨rfl, rfl⟩
  flush := by
    rintro s _ rfl
    exact ⟨rfl, rfl⟩

theorem Simulation.behind (before : List UInt8) : Simulation (Behind before) where
  write := by
    intro s s' pieces h
    obtain ⟨t, hwrite, htakes, hbytes⟩ := h.takesAll.write pieces
    obtain ⟨t', hwrite', htakes', hbytes'⟩ := h.takesAll'.write pieces
    rw [hwrite, hwrite']
    exact ⟨⟨htakes, htakes', by rw [hbytes', hbytes, h.bytes, List.append_assoc]⟩, rfl⟩
  flush := by
    intro s s' h
    rw [h.takesAll.flush, h.takesAll'.flush]
    exact ⟨⟨⟨h.takesAll.unlimited, h.takesAll.flushes⟩,
      ⟨h.takesAll'.unlimited, h.takesAll'.flushes⟩, h.bytes⟩, rfl⟩

end Sink

/-! ### Runs -/

namespace Progress

/-- Two runs have done the same at corresponding locations, into outputs that correspond. -/
structure Related (S : Sink → Sink → Prop) (R : Location → Location → Prop) (p q : Progress) :
    Prop where
  /-- The outputs correspond. -/
  sink : S p.sink q.sink
  /-- Their definitions correspond. -/
  table : p.table.Moved R q.table
  /-- The same text waits, from corresponding locations on. -/
  pending : Option.Rel (fun ready ready' => ready.text = ready'.text ∧
    R ready.location ready'.location) p.pending q.pending

/-- Outcomes of two runs, of which the errors correspond by `E`. -/
def RelatedOutcome (S : Sink → Sink → Prop) (R : Location → Location → Prop)
    (E : Error → Error → Prop) (x y : Progress × Option Error) : Prop :=
  x.1.Related S R y.1 ∧ Option.Rel E x.2 y.2

/-- What an output refuses with has no location. -/
theorem rel_failure_of_output {x y : Option Error} (h : x = y)
    (houtput : ∀ e, x = some e → ∃ reason, e = .output reason) :
    Option.Rel (Error.Moved R) x y := by
  subst h
  rcases x with _ | e
  · exact .none
  · obtain ⟨reason, rfl⟩ := houtput e rfl
    exact .some (.output reason)

section Related

variable {settings : Settings} {S : Sink → Sink → Prop} {E : Error → Error → Prop} {p q : Progress}

theorem RelatedOutcome.goOn {x y : Progress × Option Error} (h : RelatedOutcome S R E x y)
    {next next' : Progress → Progress × Option Error}
    (hnext : ∀ p q, p.Related S R q → RelatedOutcome S R E (next p) (next' q)) :
    RelatedOutcome S R E (goOn next x) (goOn next' y) := by
  obtain ⟨p, failure⟩ := x
  obtain ⟨q, failure'⟩ := y
  obtain ⟨hpq, hfailure⟩ := h
  cases hfailure with
  | none => exact hnext p q hpq
  | some he => exact ⟨hpq, .some he⟩

theorem RelatedOutcome.imp {x y : Progress × Option Error}
    (h : RelatedOutcome S R (Error.Moved R) x y) (hE : ∀ e e', e.Moved R e' → E e e') :
    RelatedOutcome S R E x y := by
  obtain ⟨p, failure⟩ := x
  obtain ⟨q, failure'⟩ := y
  obtain ⟨hpq, hfailure⟩ := h
  cases hfailure with
  | none => exact ⟨hpq, .none⟩
  | some he => exact ⟨hpq, .some (hE _ _ he)⟩

theorem Related.clear (h : p.Related S R q) :
    Related S R { p with pending := none } { q with pending := none } :=
  ⟨h.sink, h.table, .none⟩

/-- The text that waits, with a line added to it. -/
theorem Related.add (h : p.Related S R q) {line line' : SourceLine}
    (htext : line.text = line'.text) (hlocation : R line.location line'.location) :
    (Pending.add p.pending line).text = (Pending.add q.pending line').text ∧
      R (Pending.add p.pending line).location (Pending.add q.pending line').location := by
  have hpending := h.pending
  generalize p.pending = waits, q.pending = waits' at hpending ⊢
  cases hpending with
  | none => exact ⟨htext, hlocation⟩
  | some hready => exact ⟨by rw [Pending.add, Pending.add, hready.1, htext], hready.2⟩

theorem related_emit (hS : Sink.Simulation S) (h : p.Related S R q) {ready ready' : Pending}
    (htext : ready.text = ready'.text) (hlocation : R ready.location ready'.location) :
    RelatedOutcome S R (Error.Moved R) (emit settings p ready) (emit settings q ready') := by
  have hexpand : expand p.table settings.expansionLimit ready.text =
      expand q.table settings.expansionLimit ready'.text := by
    rw [htext]
    exact h.table.alike.expand_eq _ _
  rcases hout : expand q.table settings.expansionLimit ready'.text with what | out
  · rw [emit_of_error (hexpand.trans hout), emit_of_error hout]
    refine ⟨h, .some (.fault hlocation (.other ?_))⟩
    rintro name previous rfl
    exact ofCall_of_expand hout
  · obtain ⟨hsink, hfailure⟩ := hS.write [out, ['\n']] h.sink
    rw [emit, emit, hexpand, hout]
    exact ⟨⟨hsink, h.table, h.pending⟩,
      rel_failure_of_output hfailure fun _ he => Sink.settle_error he⟩

theorem related_addText (hS : Sink.Simulation S) (h : p.Related S R q) {line line' : SourceLine}
    (htext : line.text = line'.text) (hlocation : R line.location line'.location) :
    RelatedOutcome S R (Error.Moved R) (addText settings p line) (addText settings q line') := by
  obtain ⟨hready, hlocation'⟩ := h.add htext hlocation
  have hopen := h.table.alike.hasOpenCall_eq
    (Pending.add q.pending line').text
  rw [addText, addText, htext]
  simp only [hready, hopen]
  split_ifs
  · exact ⟨h, .some (.fault hlocation (.other (by rintro _ _ ⟨⟩)))⟩
  · exact ⟨⟨h.sink, h.table, .some ⟨hready, hlocation'⟩⟩, .none⟩
  · exact related_emit hS h.clear hready hlocation'

/-- **One step** at corresponding locations. -/
theorem related_step (hS : Sink.Simulation S) (h : p.Related S R q) {next next' : Step}
    (hnext : next.Moved R next') :
    RelatedOutcome S R (Error.Moved R) (step settings p next) (step settings q next') := by
  cases hnext with
  | splice named _ => exact ⟨⟨h.sink, h.table, h.pending⟩, .none⟩
  | @define d d' hd =>
    have hagree := h.table.define hd settings.redefinition
    rw [step, step]
    generalize p.table.define settings.redefinition d = x,
      q.table.define settings.redefinition d' = y at hagree ⊢
    cases hagree with
    | error he => exact ⟨h, .some he⟩
    | ok htable => exact ⟨⟨h.sink, htable, h.pending⟩, .none⟩
  | text htext hlocation => exact related_addText hS h htext hlocation

theorem related_doSteps (hS : Sink.Simulation S) (h : p.Related S R q) {steps steps' : List Step}
    (hsteps : List.Forall₂ (Step.Moved R) steps steps') :
    RelatedOutcome S R (Error.Moved R) (doSteps (step settings) steps p)
      (doSteps (step settings) steps' q) := by
  induction hsteps generalizing p q with
  | nil => exact ⟨h, .none⟩
  | cons hstep _ ih => exact (related_step hS h hstep).goOn fun _ _ => ih

theorem related_flush (hS : Sink.Simulation S) (h : p.Related S R q) :
    RelatedOutcome S R (Error.Moved R) p.flush q.flush := by
  obtain ⟨hsink, hfailure⟩ := hS.flush h.sink
  exact ⟨⟨hsink, h.table, h.pending⟩,
    rel_failure_of_output hfailure fun _ he => Sink.flush_error he⟩

theorem related_finish (hS : Sink.Simulation S) (h : p.Related S R q) :
    RelatedOutcome S R (Error.Moved R) (p.finish settings) (q.finish settings) := by
  have hpending := h.pending
  rcases hp : p.pending with _ | ready <;> rcases hq : q.pending with _ | ready' <;>
    rw [hp, hq] at hpending <;> cases hpending
  · rw [finish, finish, hp, hq]
    exact related_flush hS h
  · next hready =>
    rw [finish_eq_goOn settings hp, finish_eq_goOn settings hq]
    exact (related_emit hS h.clear hready.1 hready.2).goOn fun _ _ => related_flush hS

/-- **Runs of courses at corresponding locations**, up to their ends. The courses may end in errors
that differ in more than locations. -/
theorem related_goOn_play (hS : Sink.Simulation S) (hE : ∀ e e', e.Moved R e' → E e e')
    (h : p.Related S R q) {c c' : Course} (hsteps : List.Forall₂ (Step.Moved R) c.steps c'.steps)
    (hfailure : Option.Rel E c.failure c'.failure) :
    RelatedOutcome S R E (goOn (finish settings) (c.play (step settings) p))
      (goOn (finish settings) (c'.play (step settings) q)) := by
  have hplay : RelatedOutcome S R E (c.play (step settings) p) (c'.play (step settings) q) :=
    ((related_doSteps hS h hsteps).imp hE).goOn fun _ _ hpq => ⟨hpq, hfailure⟩
  exact hplay.goOn fun _ _ hpq => (related_finish hS hpq).imp hE

end Related

/-! ### Runs after something was written -/

variable {settings : Settings} {before : List UInt8} {p q : Progress}

/-- Two runs have done the same at corresponding locations, where the second has written `before` in
addition, ahead of everything else. -/
structure Moved (R : Location → Location → Prop) (before : List UInt8) (p q : Progress) : Prop where
  /-- The output of the first takes everything. -/
  takesAll : p.sink.TakesAll
  /-- So does that of the second. -/
  takesAll' : q.sink.TakesAll
  /-- They wrote the same, but for what the second wrote before. -/
  bytes : q.sink.bytes = before ++ p.sink.bytes
  /-- Their definitions correspond. -/
  table : p.table.Moved R q.table
  /-- The same text waits, from corresponding locations on. -/
  pending : Option.Rel (fun ready ready' => ready.text = ready'.text ∧
    R ready.location ready'.location) p.pending q.pending

theorem moved_iff : p.Moved R before q ↔ p.Related (Sink.Behind before) R q :=
  ⟨fun h => ⟨⟨h.takesAll, h.takesAll', h.bytes⟩, h.table, h.pending⟩,
    fun h => ⟨h.sink.takesAll, h.sink.takesAll', h.sink.bytes, h.table, h.pending⟩⟩

/-- A run that has done what it has done, if its output takes everything. -/
theorem Moved.refl (hR : ∀ l, R l l) (h : p.sink.TakesAll) : p.Moved R [] p := by
  refine ⟨h, h, rfl, .refl hR p.table, ?_⟩
  rcases p.pending with _ | ready
  · exact .none
  · exact .some ⟨rfl, hR ready.location⟩

/-- Outcomes of two runs. -/
def MovedOutcome (R : Location → Location → Prop) (before : List UInt8)
    (x y : Progress × Option Error) : Prop :=
  x.1.Moved R before y.1 ∧ Option.Rel (Error.Moved R) x.2 y.2

theorem movedOutcome_iff {x y : Progress × Option Error} : MovedOutcome R before x y ↔
    RelatedOutcome (Sink.Behind before) R (Error.Moved R) x y :=
  and_congr_left' moved_iff

theorem moved_addText (h : p.Moved R before q) {line line' : SourceLine}
    (htext : line.text = line'.text) (hlocation : R line.location line'.location) :
    MovedOutcome R before (addText settings p line) (addText settings q line') :=
  movedOutcome_iff.mpr (related_addText (.behind before) (moved_iff.mp h) htext hlocation)

theorem takesAll_doSteps (h : p.sink.TakesAll) (steps : List Step) :
    (doSteps (step settings) steps p).1.sink.TakesAll := by
  have hself : p.Related (Sink.Behind []) Eq p := moved_iff.mp (.refl (fun _ => rfl) h)
  have hsteps : List.Forall₂ (Step.Moved Eq) steps steps :=
    List.forall₂_same.mpr fun next _ => .refl (fun _ => rfl) next
  exact (related_doSteps (.behind []) hself hsteps).1.sink.takesAll

end Progress

/-! ### Runs that go through -/

/-- What a run that goes through has done before its end: it took in all the steps of its document,
and no text waits. The end only hands the output on. -/
theorem Progress.of_goOn_finish {settings : Settings} {c : Course} {q : Progress}
    (h : goOn (finish settings) (c.play (step settings) {}) = (q, none)) :
    ∃ p, c.failure = none ∧ doSteps (step settings) c.steps {} = (p, none) ∧ p.sink.TakesAll ∧
      p.pending = none ∧ q = { p with sink := { p.sink with held := 0 } } := by
  have hplay : (c.play (step settings) {}).2 = none := snd_of_goOn (congrArg Prod.snd h)
  have hfailure : c.failure = none := Course.failure_of_play hplay
  rw [Course.play_of_ok _ hfailure] at h hplay
  have htakes : (doSteps (step settings) c.steps {}).1.sink.TakesAll :=
    takesAll_doSteps ⟨rfl, rfl⟩ c.steps
  have hwaits : (doSteps (step settings) c.steps {}).1.WaitsOpen :=
    doSteps_invariant (fun _ next hp => hp.step next) c.steps (.of_pending_none rfl)
  rcases hsteps : doSteps (step settings) c.steps {} with ⟨p, _ | e⟩
  · rw [hsteps] at h htakes hwaits
    have hfinish : p.finish settings = (q, none) := h
    rcases hpending : p.pending with _ | ready
    · refine ⟨p, hfailure, rfl, htakes, hpending, ?_⟩
      rw [finish, hpending, flush, htakes.flush] at hfinish
      exact (congrArg Prod.fst hfinish).symm
    · obtain ⟨q', e, hfail⟩ := hwaits.finish_fails settings hpending
      rw [hfail] at hfinish
      cases hfinish
  · rw [hsteps] at hplay
    cases hplay

/-! ### Runs that go on -/

/-- Runs a document, going on from what was done before: with the definitions that are known, and
with the text that waits. -/
def resume (settings : Settings) (read : Trail → Reader) (files : OpenFiles) (p : Progress) :
    Progress × Option Error :=
  goOn (Progress.finish settings)
    (Cursor.feed (fun p => read p.toTrail) settings.includeLimit (Progress.step settings) { files }
      p)

/-- The course of a document is that of the lines of its file. -/
theorem Cursor.course_numberFrom (read : Reader) (limit : Nat) (file : Path) (depth passed : Nat)
    (lines : List Text) :
    course read limit { files := [SourceLine.numberFrom file depth passed lines] } =
      splice read limit file depth passed lines := by
  have hend : course read limit ⟨[], none⟩ = {} := course_of_end rfl
  rw [course_cons, hend, Course.andThen_empty]

theorem resume_eq_play (settings : Settings) (read : Reader) (file : Path) (depth passed : Nat)
    (lines : List Text) (p : Progress) :
    resume settings (fun _ => read) [SourceLine.numberFrom file depth passed lines] p =
      goOn (Progress.finish settings) ((splice read settings.includeLimit file depth passed
        lines).play (Progress.step settings) p) := by
  rw [resume, Cursor.feed_eq_play, Cursor.course_numberFrom]

/-- **Runs of courses at corresponding locations**, after something was written. -/
theorem moved_goOn_play {R : Location → Location → Prop} {before : List UInt8}
    {settings : Settings} {p q : Progress} (h : p.Moved R before q) {c c' : Course}
    (hc : c.Moved R c') :
    Progress.MovedOutcome R before
      (goOn (Progress.finish settings) (c.play (Progress.step settings) p))
      (goOn (Progress.finish settings) (c'.play (Progress.step settings) q)) :=
  Progress.movedOutcome_iff.mpr (Progress.related_goOn_play (.behind before) (fun _ _ he => he)
    (Progress.moved_iff.mp h) hc.steps hc.failure)

end TextExpander
