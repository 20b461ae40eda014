import Mathlib.Data.List.Infix
import TextExpander.Proofs.Waiting

/-!
# Limits cut runs short and do nothing else

Three faults depend on the settings of a run: a file that is included too deep, a call that nests
too deep, and a name that is defined again. A run under narrower settings does what a run under
wider ones does, up to the place where such a fault stops it. So the settings decide how far a run
gets, never what it makes on the way.

Each function that reads a setting is compared with itself under the wider setting: it has the same
outcome, or it is cut short. This passes through everything that is done one after another, because
both computations go on from the same place as long as neither is cut short. For whole runs there is
also the output to compare. What is written after the cut only adds to it.

## Main definitions

* `Error.isRestriction`: an error that the settings cause.
* `UpTo`: one computation has the outcome of another, or is cut short.
* `Sink.Precedes`, `CutShort`: the same for runs, with what was written until then.

## Main results

* `Expansion.upTo_expandFragment`: expansion under two limits.
* `Cursor.cutShort_feed`: the steps of one document, handed on under two limits.
* `settings_only_cut_runs_short`: runs under two settings.
-/

namespace TextExpander

/-- A fault that depends on the limits and policies of the run, not on the document alone. -/
def Fault.isRestriction : Fault → Bool
  | includeTooDeep .. => true
  | expansionTooDeep .. => true
  | redefinition .. => true
  | _ => false

/-- An error that the limits and policies of the run cause. -/
def Error.isRestriction : Error → Bool
  | .fault _ what => what.isRestriction
  | _ => false

/-! ### Computations that are cut short -/

section Computations

variable {ε α β : Type}

/-- The first computation has the outcome of the second, or an error for which `kind` holds ends
it before. -/
inductive UpTo (kind : ε → Bool) : Except ε α → Except ε α → Prop
  /-- The outcomes are the same. -/
  | same (x : Except ε α) : UpTo kind x x
  /-- The first one is cut short. -/
  | cut {e : ε} {y : Except ε α} : kind e = true → UpTo kind (.error e) y

namespace UpTo

variable {kind : ε → Bool} {x y : Except ε α}

theorem eq_or_cut (h : UpTo kind x y) : y = x ∨ ∃ e, x = .error e ∧ kind e = true := by
  cases h with
  | same => exact .inl rfl
  | cut he => exact .inr ⟨_, rfl, he⟩

theorem bind {f g : α → Except ε β} (h : UpTo kind x y) (hfg : ∀ a, UpTo kind (f a) (g a)) :
    UpTo kind (x >>= f) (y >>= g) := by
  cases h with
  | same =>
    cases x with
    | error e => exact same _
    | ok a => exact hfg a
  | cut he => exact .cut he

theorem map (f : α → β) (h : UpTo kind x y) : UpTo kind (x.map f) (y.map f) := by
  cases h with
  | same => exact same _
  | cut he => exact .cut he

theorem mapM {f g : α → Except ε β} (h : ∀ a, UpTo kind (f a) (g a)) (xs : List α) :
    UpTo kind (xs.mapM f) (xs.mapM g) := by
  induction xs with
  | nil => exact same _
  | cons a xs ih =>
    rw [List.mapM_cons, List.mapM_cons]
    exact (h a).bind fun b => ih.bind fun bs => same _

end UpTo

end Computations

/-! ### Expansion -/

namespace Expansion

theorem upTo_expandOutline {callValue callValue' : Callee → Fragment → Except Fault Fragment}
    (h : ∀ callee inside,
      UpTo Fault.isRestriction (callValue callee inside) (callValue' callee inside))
    (o : Outline Cell Callee) :
    UpTo Fault.isRestriction (expandOutline callValue o) (expandOutline callValue' o) := by
  induction o with
  | text rest => exact .same _
  | unclosed before callee after => exact .same _
  | call before callee inside next ih =>
    exact (h callee inside).bind fun value => ih.bind fun rest => .same _

theorem upTo_expandCall {inner inner' : Fragment → Except Fault Fragment}
    (h : ∀ f, UpTo Fault.isRestriction (inner f) (inner' f)) (callee : Callee)
    (inside : Fragment) :
    UpTo Fault.isRestriction (expandCall inner callee inside)
      (expandCall inner' callee inside) := by
  have hvalues := UpTo.mapM h (Parens.arguments inside)
  cases callee with
  | glue => exact hvalues.bind fun values => .same _
  | user d =>
    simp only [expandCall]
    split
    · exact hvalues.bind fun values => h _
    · exact .same _

/-- **Expansion under two limits.** With fewer levels left, the outcome is the same or a call nests
too deep. -/
theorem upTo_expandFragment (table : Table) (limit limit' : Nat) {levels levels' : Nat}
    (h : levels ≤ levels') (f : Fragment) :
    UpTo Fault.isRestriction (expandFragment table limit levels f)
      (expandFragment table limit' levels' f) := by
  induction levels generalizing levels' f with
  | zero =>
    -- The other expansion may have any number of levels left, but it finds the same first call.
    obtain ⟨callValue, heq⟩ := exists_expandFragment_eq table limit' levels'
    rw [heq]
    exact upTo_expandOutline (fun callee inside => .cut rfl) _
  | succ levels ih =>
    obtain ⟨levels', rfl⟩ : ∃ n, levels' = n + 1 := ⟨levels' - 1, by omega⟩
    exact upTo_expandOutline (upTo_expandCall (ih (by omega))) _

end Expansion

theorem upTo_expand (table : Table) {limit limit' : Nat} (h : limit ≤ limit') (t : Text) :
    UpTo Fault.isRestriction (expand table limit t) (expand table limit' t) :=
  (Expansion.upTo_expandFragment table limit limit' h (Fragment.plain t)).map Fragment.text

/-! ### Definitions and included files -/

theorem Table.upTo_define {policy policy' : Redefinition}
    (h : policy = policy' ∨ policy = .reject ∧ policy' = .replace) (t : Table) (d : Definition) :
    UpTo Error.isRestriction (t.define policy d) (t.define policy' d) := by
  obtain rfl | ⟨rfl, rfl⟩ := h
  · exact .same _
  · cases hprevious : t.get? d.name with
    | none =>
      simp only [define, hprevious]
      exact .same _
    | some previous =>
      simp only [define, hprevious]
      exact .cut rfl

theorem OpenFiles.upTo_splice (read : Reader) {limit limit' : Nat} (h : limit ≤ limit')
    (directive : SourceLine) (named : Text) (files : OpenFiles) :
    UpTo Error.isRestriction (files.splice read limit directive named)
      (files.splice read limit' directive named) := by
  rw [splice, splice]
  by_cases hdeep : limit < directive.depth + 1
  · rw [if_pos hdeep]
    exact .cut rfl
  · rw [if_neg hdeep, if_neg (by omega)]
    exact .same _

theorem Cursor.upTo_next? (read : Reader) {limit limit' : Nat} (h : limit ≤ limit') (c : Cursor) :
    UpTo Error.isRestriction (c.next? read limit) (c.next? read limit') := by
  simp only [next?]
  split
  · exact .same _
  · split
    · exact .same _
    · next line files _ =>
      split
      · next named _ =>
        obtain heq | ⟨e, he, hcut⟩ := (OpenFiles.upTo_splice read h line named files).eq_or_cut
        · rw [heq]
          exact .same _
        · rw [he]
          exact .cut hcut
      · exact .same _

/-! ### One thing after another -/

/-- What a run goes on with, unless it has failed. -/
def goOn {σ : Type} (next : σ → σ × Option Error) : σ × Option Error → σ × Option Error
  | (s, some e) => (s, some e)
  | (s, none) => next s

theorem goOn_invariant {σ : Type} {P : σ → Prop} {next : σ → σ × Option Error}
    {x : σ × Option Error} (hx : P x.1) (hnext : ∀ s, P s → P (next s).1) :
    P (goOn next x).1 := by
  obtain ⟨s, failure⟩ := x
  cases failure with
  | some e => exact hx
  | none => exact hnext s hx

theorem Progress.finish_eq_goOn (settings : Settings) {p : Progress} {ready : Pending}
    (h : p.pending = some ready) :
    p.finish settings = goOn flush (emit settings { p with pending := none } ready) := by
  simp only [finish, h]
  generalize emit settings { p with pending := none } ready = x
  obtain ⟨q, _ | e⟩ := x <;> rfl

theorem runDocument_eq_goOn (settings : Settings) (read : Trail → Reader) (files : OpenFiles)
    (trail : Trail) :
    runDocument settings read files trail = goOn (Progress.finish settings)
      (Cursor.feed (fun p => read p.toTrail) settings.includeLimit (Progress.step settings)
        { files } { toTrail := trail }) := by
  rw [runDocument]
  generalize Cursor.feed (fun p : Progress => read p.toTrail) settings.includeLimit
    (Progress.step settings) { files } { toTrail := trail } = x
  obtain ⟨q, _ | e⟩ := x <;> rfl

section KnownSteps

variable {settings : Settings} {read : Trail → Reader} {files : OpenFiles} {trail : Trail}
  {p : Progress}

/-- A run of which all steps are known. -/
theorem runDocument_of_feed_end {x : Progress × Option Error}
    (h : Cursor.feed (fun p => read p.toTrail) settings.includeLimit (Progress.step settings)
      { files } { toTrail := trail } = (p, none))
    (hfinish : p.finish settings = x) : runDocument settings read files trail = x := by
  rw [runDocument_eq_goOn, h, goOn, hfinish]

/-- A run of which all steps up to an error are known. -/
theorem runDocument_of_feed_error {e : Error}
    (h : Cursor.feed (fun p => read p.toTrail) settings.includeLimit (Progress.step settings)
      { files } { toTrail := trail } = (p, some e)) :
    runDocument settings read files trail = (p, some e) := by
  rw [runDocument_eq_goOn, h, goOn]

end KnownSteps

/-! ### Output that only grows -/

/-- If nothing limits the first sink, then nothing limits the second, and it took the bytes that
the first took, and maybe more after them. -/
def Sink.Precedes (s t : Sink) : Prop :=
  s.limit = none → t.limit = none ∧ s.bytes <+: t.bytes

namespace Sink

theorem Precedes.refl (s : Sink) : s.Precedes s :=
  fun h => ⟨h, List.prefix_rfl⟩

theorem Precedes.trans {s t u : Sink} (hst : s.Precedes t) (htu : t.Precedes u) :
    s.Precedes u := by
  intro h
  obtain ⟨ht, hbytes⟩ := hst h
  obtain ⟨hu, hbytes'⟩ := htu ht
  exact ⟨hu, hbytes.trans hbytes'⟩

theorem precedes_write (s : Sink) (pieces : List Text) : s.Precedes (s.write pieces).1 := by
  intro h
  refine ⟨by simp [write, settle, h], ?_⟩
  rw [bytes_write_of_unlimited h]
  exact List.prefix_append _ _

theorem precedes_flush (s : Sink) : s.Precedes s.flush.1 := by
  intro h
  simp [flush, settle, h, bytes]

end Sink

namespace Progress

variable (settings : Settings)

/-- The output of one run is the beginning of that of another, as for sinks. -/
def Precedes (p q : Progress) : Prop :=
  p.sink.Precedes q.sink

theorem Precedes.refl (p : Progress) : p.Precedes p :=
  Sink.Precedes.refl p.sink

theorem Precedes.trans (p q r : Progress) (hpq : p.Precedes q) (hqr : q.Precedes r) :
    p.Precedes r :=
  Sink.Precedes.trans hpq hqr

theorem precedes_emit (p : Progress) (ready : Pending) :
    p.Precedes (p.emit settings ready).1 := by
  rw [emit]
  split
  · exact .refl p
  · exact p.sink.precedes_write _

theorem precedes_addText (p : Progress) (line : SourceLine) :
    p.Precedes (p.addText settings line).1 := by
  simp only [addText]
  split
  · exact .refl p
  · split
    · exact Sink.Precedes.refl p.sink
    · exact precedes_emit settings { p with pending := none } _

theorem precedes_step (p : Progress) (next : Step) : p.Precedes (p.step settings next).1 := by
  cases next with
  | splice named location => exact Sink.Precedes.refl p.sink
  | define d =>
    rw [step]
    split <;> exact Sink.Precedes.refl p.sink
  | text line => exact p.precedes_addText settings line

theorem precedes_flush (p : Progress) : p.Precedes p.flush.1 :=
  p.sink.precedes_flush

theorem precedes_finish (p : Progress) : p.Precedes (p.finish settings).1 := by
  cases hpending : p.pending with
  | none =>
    rw [finish, hpending]
    exact p.precedes_flush
  | some ready =>
    rw [finish_eq_goOn settings hpending]
    exact goOn_invariant (precedes_emit settings { p with pending := none } ready)
      fun q hq => Precedes.trans _ q _ hq q.precedes_flush

end Progress

open Progress in
theorem precedes_runDocument (settings : Settings) (read : Trail → Reader) (files : OpenFiles)
    (trail : Trail) :
    Precedes { toTrail := trail } (runDocument settings read files trail).1 := by
  rw [runDocument_eq_goOn]
  refine goOn_invariant (P := Precedes { toTrail := trail }) ?_
    fun q hq => Precedes.trans _ q _ hq (q.precedes_finish settings)
  exact Cursor.feed_invariant
    (fun q next hq => Precedes.trans _ q _ hq (q.precedes_step settings next)) (.refl _)

/-! ### Runs that are cut short -/

/-- The first run did what the second did and ended as it did, or an error that the settings cause
ended it before. The relation `R` is between what the two did in that case. -/
inductive CutShort {σ : Type} (R : σ → σ → Prop) : σ × Option Error → σ × Option Error → Prop
  /-- The runs are the same. -/
  | same (x : σ × Option Error) : CutShort R x x
  /-- The first one is cut short. -/
  | cut {s t : σ} {e : Error} {failure : Option Error} : e.isRestriction = true → R s t →
      CutShort R (s, some e) (t, failure)

/-- Two runs go on. What the second does after the first is cut short is to be compared too. -/
theorem CutShort.goOn {σ : Type} {R : σ → σ → Prop} (htrans : ∀ s t u, R s t → R t u → R s u)
    {x y : σ × Option Error} (h : CutShort R x y) {next next' : σ → σ × Option Error}
    (hnext : ∀ s, CutShort R (next s) (next' s)) (hgrows : ∀ s, R s (next' s).1) :
    CutShort R (goOn next x) (goOn next' y) := by
  cases h with
  | same =>
    obtain ⟨s, failure⟩ := x
    cases failure with
    | some e => exact same _
    | none => exact hnext s
  | @cut s t e failure he hst =>
    cases failure with
    | some e' => exact cut he hst
    | none => exact cut he (htrans s t _ hst (hgrows t))

/-- **The steps of one document under two limits.** What is done with a step may depend on the
settings too, and adds to what was done before. -/
theorem Cursor.cutShort_feed {σ : Type} {R : σ → σ → Prop} (hrefl : ∀ s, R s s)
    (htrans : ∀ s t u, R s t → R t u → R s u) (read : σ → Reader) {limit limit' : Nat}
    (hlimit : limit ≤ limit') {act act' : σ → Step → σ × Option Error}
    (hact : ∀ s next, CutShort R (act s next) (act' s next))
    (hgrows : ∀ s next, R s (act' s next).1) (c : Cursor) (s : σ) :
    CutShort R (feed read limit act c s) (feed read limit' act' c s) := by
  have hfeed : ∀ d t, R t (feed read limit' act' d t).1 := fun d t =>
    feed_invariant (P := R t) (fun u next hu => htrans t u _ hu (hgrows u next)) (hrefl t)
  induction c using (follows_wellFounded limit).induction generalizing s with
  | _ c ih =>
    obtain heq | ⟨e, he, hcut⟩ := (upTo_next? (read s) hlimit c).eq_or_cut
    · cases hnext : c.next? (read s) limit with
      | error e =>
        rw [feed_of_error hnext, feed_of_error (heq.trans hnext)]
        exact .same _
      | ok next =>
        cases next with
        | none =>
          rw [feed_of_end hnext, feed_of_end (heq.trans hnext)]
          exact .same _
        | some next =>
          obtain ⟨next, d⟩ := next
          rw [feed_of_step hnext, feed_of_step (heq.trans hnext)]
          exact (hact s next).goOn htrans (ih d ⟨read s, next, hnext⟩) (hfeed d)
    · rw [feed_of_error he]
      exact .cut hcut (hfeed c s)

/-! ### Runs under two settings -/

/-- The limits of some settings are no greater than those of others, and what they do about a name
that is defined again is no more lenient. -/
structure Settings.Within (settings settings' : Settings) : Prop where
  /-- Files are included no deeper. -/
  includeLimit : settings.includeLimit ≤ settings'.includeLimit
  /-- Calls nest no deeper. -/
  expansionLimit : settings.expansionLimit ≤ settings'.expansionLimit
  /-- The policies are the same, or names are defined again only under the second. -/
  redefinition : settings.redefinition = settings'.redefinition ∨
    settings.redefinition = .reject ∧ settings'.redefinition = .replace

namespace Progress

variable {settings settings' : Settings}

theorem cutShort_emit (h : settings.Within settings') (p : Progress) (ready : Pending) :
    CutShort Precedes (p.emit settings ready) (p.emit settings' ready) := by
  obtain heq | ⟨what, hwhat, hcut⟩ :=
    (upTo_expand p.table h.expansionLimit ready.text).eq_or_cut
  · rw [emit, emit, heq]
    exact .same _
  · have hemit : p.emit settings ready = (p, some (.fault ready.location what)) := by
      rw [emit, hwhat]
    rw [hemit]
    exact .cut hcut (p.precedes_emit settings' ready)

theorem cutShort_addText (h : settings.Within settings') (p : Progress) (line : SourceLine) :
    CutShort Precedes (p.addText settings line) (p.addText settings' line) := by
  simp only [addText]
  split
  · exact .same _
  · split
    · exact .same _
    · exact cutShort_emit h { p with pending := none } _

/-- **One step under two settings.** -/
theorem cutShort_step (h : settings.Within settings') (p : Progress) (next : Step) :
    CutShort Precedes (p.step settings next) (p.step settings' next) := by
  cases next with
  | splice named location => exact .same _
  | define d =>
    obtain heq | ⟨e, he, hcut⟩ := (Table.upTo_define h.redefinition p.table d).eq_or_cut
    · rw [step, step, heq]
      exact .same _
    · have hstep : p.step settings (.define d) = (p, some e) := by rw [step, he]
      rw [hstep]
      exact .cut hcut (p.precedes_step settings' (.define d))
  | text line => exact p.cutShort_addText h line

theorem cutShort_finish (h : settings.Within settings') (p : Progress) :
    CutShort Precedes (p.finish settings) (p.finish settings') := by
  cases hpending : p.pending with
  | none =>
    rw [finish, finish, hpending]
    exact .same _
  | some ready =>
    rw [finish_eq_goOn settings hpending, finish_eq_goOn settings' hpending]
    exact (cutShort_emit h { p with pending := none } ready).goOn Precedes.trans
      (fun q => .same q.flush) precedes_flush

end Progress

open Progress in
/-- **A run under two settings.** -/
theorem cutShort_runDocument {settings settings' : Settings} (h : settings.Within settings')
    (read : Trail → Reader) (files : OpenFiles) (trail : Trail) :
    CutShort Precedes (runDocument settings read files trail)
      (runDocument settings' read files trail) := by
  have hfeed := Cursor.cutShort_feed Precedes.refl Precedes.trans (fun p => read p.toTrail)
    h.includeLimit (cutShort_step h) (precedes_step settings') { files } { toTrail := trail }
  rw [runDocument_eq_goOn, runDocument_eq_goOn]
  exact hfeed.goOn Precedes.trans (cutShort_finish h) (precedes_finish settings')

/-- **The settings only decide whether a run is cut short.** A run that succeeds, or fails with an
error that the settings do not cause, is the same under all wider settings: what it wrote, the
definitions it ends with, and its result. However a run ends, into an output without a limit it has
written the beginning of what the run under wider settings writes. -/
theorem settings_only_cut_runs_short {settings settings' : Settings}
    (h : settings.Within settings') (read : Trail → Reader) (files : OpenFiles) (trail : Trail) :
    let run := runDocument settings read files trail
    let run' := runDocument settings' read files trail
    ((∀ e, run.2 = some e → e.isRestriction = false) → run' = run) ∧
      (trail.sink.limit = none → run.1.sink.bytes <+: run'.1.sink.bytes) := by
  intro run run'
  have hcut : CutShort Progress.Precedes run run' := cutShort_runDocument h read files trail
  have hgrows : Progress.Precedes { toTrail := trail } run.1 :=
    precedes_runDocument settings read files trail
  generalize run = x, run' = y at hcut hgrows ⊢
  cases hcut with
  | same => exact ⟨fun _ => rfl, fun _ => List.prefix_rfl⟩
  | cut he hprecedes =>
    refine ⟨fun hother => ?_, fun hlimit => ?_⟩
    · rw [hother _ rfl] at he
      cases he
    · exact (hprecedes (hgrows hlimit).1).2

/-- A line of text alone, and with a file included after it. -/
theorem included_file_cut_off :
    let read : Trail → Reader := fun _ _ => .ok ["y".toList]
    let narrow : Settings := { includeLimit := 0, expansionLimit := 0 }
    let wide : Settings := { redefinition := .replace }
    let line := OpenFiles.ofLines ⟨['d']⟩ ["x".toList]
    let lines := OpenFiles.ofLines ⟨['d']⟩ ["x".toList, "include \"e\"".toList]
    runDocument wide read line {} = runDocument narrow read line {} ∧
      (runDocument narrow read line {}).1.sink.bytes = Utf8.encode "x\n".toList ∧
      (runDocument narrow read lines {}).1.sink.bytes = Utf8.encode "x\n".toList ∧
      Utf8.encode "x\n".toList <+: (runDocument wide read lines {}).1.sink.bytes := by
  intro read narrow wide line lines
  have hwithin : narrow.Within wide := ⟨by decide, by decide, .inr ⟨rfl, rfl⟩⟩
  let first : SourceLine := ⟨"x".toList, ⟨⟨['d']⟩, 1⟩, 0⟩
  let second : SourceLine := ⟨"include \"e\"".toList, ⟨⟨['d']⟩, 2⟩, 0⟩
  let tooDeep : Error := .fault ⟨⟨['d']⟩, 2⟩ (.includeTooDeep ⟨['e']⟩ 0)
  let reading : Progress → Reader := fun p => read p.toTrail
  let p : Progress := { sink := (Sink.write {} ["x".toList, ['\n']]).1 }
  have hstep : Progress.step narrow {} (.text first) = (p, none) := by
    have hexpand : expand Table.empty 0 "x".toList = .ok "x".toList := by decide +kernel
    exact Progress.addText_of_written rfl (by decide +kernel) hexpand rfl
  have hline : runDocument narrow read line {} = (p, none) := by
    have hfirst : Cursor.next? (reading {}) 0 ⟨line, none⟩ =
        .ok (some (.text first, ⟨[[]], none⟩)) := by rfl
    have hfeed : Cursor.feed reading 0 (Progress.step narrow) ⟨line, none⟩ {} = (p, none) := by
      rw [Cursor.feed_of_taken hfirst hstep, Cursor.feed_of_end rfl]
    exact runDocument_of_feed_end hfeed rfl
  have hlines : runDocument narrow read lines {} = (p, some tooDeep) := by
    have hfirst : Cursor.next? (reading {}) 0 ⟨lines, none⟩ =
        .ok (some (.text first, ⟨[[second]], none⟩)) := by rfl
    have hsecond : Cursor.next? (reading p) 0 ⟨[[second]], none⟩ = .error tooDeep := by rfl
    have hfeed : Cursor.feed reading 0 (Progress.step narrow) ⟨lines, none⟩ {} =
        (p, some tooDeep) := by
      rw [Cursor.feed_of_taken hfirst hstep, Cursor.feed_of_error hsecond]
    exact runDocument_of_feed_error hfeed
  have hbytes : p.sink.bytes = Utf8.encode "x\n".toList := Sink.bytes_write_of_unlimited rfl _
  refine ⟨(settings_only_cut_runs_short hwithin read line {}).1 ?_, ?_, ?_, ?_⟩
  · intro e he
    rw [hline] at he
    cases he
  · rw [hline, hbytes]
  · rw [hlines, hbytes]
  · have hprefix := (settings_only_cut_runs_short hwithin read lines {}).2 rfl
    rwa [hlines, hbytes] at hprefix

end TextExpander
