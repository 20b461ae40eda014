import TextExpander.Listing
import TextExpander.Proofs.Limits

/-!
# A full output only truncates

An output that takes only so many bytes ends a run early, in the middle of whatever piece is being
written at that moment. It changes nothing else. Up to that moment the run does what it does into an
output without a limit, and what the output holds then is the beginning of what would be written.
Whether the run would have failed later, for some other reason, makes no difference.

Two runs are compared, one into an output without a limit and one into the same output with a limit.
As long as everything fits, the states of the two differ in the limit alone (`narrow`), so the next
thing that both do is compared from such a pair. From the first byte that does not fit, the second
run is over and the first one can only add bytes, which lie beyond the limit. What files hold must
not depend on the output, or else the limit could be seen through them.

## Main definitions

* `Sink.Roomy`: an output without a limit that holds no more than a given number of bytes.
* `Truncated`: how a run into a limited output compares with the run into an unlimited one.
* `OnlyTruncates`: the law for something that writes into an output.
* `Sink.InLines`: what was written consists of whole lines.

## Main results

* `Truncated.goOn`, `Cursor.truncated_feed`: the comparison passes through everything that is done.
* `full_outputs_only_truncate`: the law for runs and for listings, and that runs write whole lines.
-/

namespace TextExpander

/-! ### Outputs with and without a limit -/

namespace Sink

/-- The output with a limit. -/
def limitedTo (limit : Nat) (s : Sink) : Sink :=
  { s with limit := some limit }

/-- The output has no limit and holds nothing back, and with a limit it would not be full yet. -/
structure Roomy (limit : Nat) (s : Sink) : Prop where
  /-- It has no limit. -/
  unlimited : s.limit = none
  /-- With a limit it would say that it is full. -/
  reason : s.reason = .full
  /-- It may hold nothing back. -/
  capacity : s.capacity = 0
  /-- It holds nothing back. -/
  held : s.held = 0
  /-- What it holds is within the limit. -/
  length_le : s.bytes.length ≤ limit

end Sink

/-! ### Two runs -/

section Truncated

variable {σ : Type} {sink : σ → Sink} {narrow : σ → σ} {limit : Nat}

/-- What was done into an output without a limit, and what was done into the output with the limit.
`sink` is the output of a state, and `narrow` gives it the limit. -/
inductive Truncated (sink : σ → Sink) (narrow : σ → σ) (limit : Nat) :
    σ × Option Error → σ × Option Error → Prop
  /-- Everything fits, and the same was done. -/
  | whole {s : σ} (failure : Option Error) : (sink s).Roomy limit →
      Truncated sink narrow limit (s, failure) (narrow s, failure)
  /-- Not everything fits, and the second output is full. -/
  | cut {s t : σ} {failure : Option Error} : (sink s).limit = none →
      limit < (sink s).bytes.length → (sink t).bytes = (sink s).bytes.take limit →
      Truncated sink narrow limit (s, failure) (t, some (.output .full))

/-- Two runs go on with the same. The first may go on alone, and then it only adds to its output. -/
theorem Truncated.goOn {x y : σ × Option Error} (h : Truncated sink narrow limit x y)
    {next : σ → σ × Option Error}
    (hnext : ∀ s, (sink s).Roomy limit →
      Truncated sink narrow limit (next s) (next (narrow s)))
    (hgrows : ∀ s, (sink s).Precedes (sink (next s).1)) :
    Truncated sink narrow limit (TextExpander.goOn next x) (TextExpander.goOn next y) := by
  cases h with
  | @whole s failure hs =>
    cases failure with
    | some e => exact whole _ hs
    | none => exact hnext s hs
  | @cut s t failure hunlimited hlt hbytes =>
    cases failure with
    | some e => exact cut hunlimited hlt hbytes
    | none =>
      obtain ⟨hlimit, added, hadded⟩ := hgrows s hunlimited
      refine cut hlimit ?_ ?_
      · rw [← hadded, List.length_append]
        omega
      · rw [hbytes, ← hadded, List.take_append_of_le_length (by omega)]

/-- **The steps of one document**, handed on into an output without a limit and with a limit. -/
theorem Cursor.truncated_feed (sink : σ → Sink) (narrow : σ → σ) (read : σ → Reader)
    (hread : ∀ s, read (narrow s) = read s) (includeLimit : Nat)
    (act : σ → Step → σ × Option Error)
    (hact : ∀ s next, (sink s).Roomy limit →
      Truncated sink narrow limit (act s next) (act (narrow s) next))
    (hgrows : ∀ s next, (sink s).Precedes (sink (act s next).1)) (c : Cursor) {s : σ}
    (hs : (sink s).Roomy limit) :
    Truncated sink narrow limit (feed read includeLimit act c s)
      (feed read includeLimit act c (narrow s)) := by
  have hfeed : ∀ d t, (sink t).Precedes (sink (feed read includeLimit act d t).1) := fun d t =>
    feed_invariant (P := fun u => (sink t).Precedes (sink u))
      (fun u next hu => hu.trans (hgrows u next)) (.refl _)
  induction c using (follows_wellFounded includeLimit).induction generalizing s with
  | _ c ih =>
    rcases hnext : c.next? (read s) includeLimit with e | (_ | ⟨next, d⟩)
    · rw [feed_of_error hnext, feed_of_error (by rw [hread, hnext])]
      exact .whole _ hs
    · rw [feed_of_end hnext, feed_of_end (by rw [hread, hnext])]
      exact .whole _ hs
    · rw [feed_of_step hnext, feed_of_step (s := narrow s) (by rw [hread, hnext])]
      exact (hact s next hs).goOn (fun t ht => ih d ⟨read s, next, hnext⟩ ht) (hfeed d)

end Truncated

/-! ### Writing -/

namespace Sink

variable {limit : Nat} {s : Sink}

theorem settle_of_unlimited (h : s.limit = none) : s.settle = (s, none) := by
  simp only [settle, h]

theorem settle_limitedTo (hheld : s.held = 0) :
    (s.limitedTo limit).settle =
      if s.bytes.length ≤ limit then (s.limitedTo limit, none)
      else ({ s.limitedTo limit with accepted := s.accepted.extract 0 limit, held := 0 },
        some (.output s.reason)) := by
  have hreach : (s.limitedTo limit).reach = s.bytes.length := by
    rw [reach, limitedTo, hheld, bytes, Array.length_toList, Nat.sub_zero]
  rw [← hreach]
  rfl

theorem flush_of_settled (hheld : s.held = 0) (hsettle : s.settle = (s, none)) :
    s.flush = (s, if s.failsFlush then some (.output .flushFailed) else none) := by
  have hself : { s with held := 0 } = s := by rw [← hheld]
  rw [flush, hself, hsettle]

/-- **One write**, of any number of pieces. -/
theorem Roomy.truncated_write (h : s.Roomy limit) (pieces : List Text) :
    Truncated id (limitedTo limit) limit (s.write pieces) ((s.limitedTo limit).write pieces) := by
  let after : Sink := { s with accepted := s.accepted ++ Utf8.encode pieces.flatten, held := 0 }
  have hheld : (pieces.map Text.byteLength).foldl (holdBack s.capacity) s.held = 0 := by
    rw [h.capacity, h.held, foldl_holdBack_zero]
  have hwrite : s.write pieces = after.settle := by
    rw [write]
    simp only [hheld, after]
  have hlimited : (s.limitedTo limit).write pieces = (after.limitedTo limit).settle := by
    rw [write]
    simp only [limitedTo, hheld, after]
  have hunlimited : after.limit = none := h.unlimited
  have hreason : after.reason = .full := h.reason
  rw [hwrite, hlimited, settle_of_unlimited hunlimited, settle_limitedTo rfl, hreason]
  split_ifs with hfits
  · exact .whole none ⟨hunlimited, hreason, h.capacity, rfl, hfits⟩
  · refine .cut hunlimited (Nat.not_le.mp hfits) ?_
    simp [bytes]

/-- Handing on at the end. Whether that fails has nothing to do with the limit. -/
theorem Roomy.truncated_flush (h : s.Roomy limit) :
    Truncated id (limitedTo limit) limit s.flush (s.limitedTo limit).flush := by
  have hlimited : (s.limitedTo limit).settle = (s.limitedTo limit, none) := by
    rw [settle_limitedTo h.held, if_pos h.length_le]
  rw [flush_of_settled h.held (settle_of_unlimited h.unlimited),
    flush_of_settled (s := s.limitedTo limit) h.held hlimited]
  exact .whole _ h

end Sink

/-- What is written into the output of a state is compared as what is written into the output. -/
theorem Truncated.put {σ : Type} {sink : σ → Sink} {narrow : σ → σ} {limit : Nat}
    {x y : Sink × Option Error} (h : Truncated id (Sink.limitedTo limit) limit x y)
    (put : Sink → σ) (hsink : ∀ s, sink (put s) = s)
    (hnarrow : ∀ s, narrow (put s) = put (s.limitedTo limit)) :
    Truncated sink narrow limit (put x.1, x.2) (put y.1, y.2) := by
  cases h with
  | @whole s failure hs =>
    rw [id_eq, ← hsink s] at hs
    rw [← hnarrow]
    exact whole failure hs
  | @cut s t failure hunlimited hlt hbytes =>
    refine cut ?_ ?_ ?_
    · rwa [hsink]
    · rwa [hsink]
    · rwa [hsink, hsink]

/-! ### Runs -/

namespace Progress

variable {settings : Settings} {limit : Nat} {p : Progress}

/-- What a run has done, with a limit to its output. -/
def limitedTo (limit : Nat) (p : Progress) : Progress :=
  { p with sink := p.sink.limitedTo limit }

/-- The comparison of runs. -/
abbrev Truncated (limit : Nat) : Progress × Option Error → Progress × Option Error → Prop :=
  TextExpander.Truncated (fun p => p.sink) (limitedTo limit) limit

theorem truncated_whole (p : Progress) (h : p.sink.Roomy limit) (failure : Option Error) :
    Truncated limit (p, failure) (p.limitedTo limit, failure) :=
  .whole failure h

theorem truncated_put (p : Progress) {x y : Sink × Option Error}
    (h : TextExpander.Truncated id (Sink.limitedTo limit) limit x y) :
    Truncated limit ({ p with sink := x.1 }, x.2) ({ p with sink := y.1 }, y.2) :=
  h.put (fun s => { p with sink := s }) (fun _ => rfl) (fun _ => rfl)

theorem truncated_emit (h : p.sink.Roomy limit) (ready : Pending) :
    Truncated limit (p.emit settings ready) ((p.limitedTo limit).emit settings ready) := by
  have htable : (p.limitedTo limit).table = p.table := rfl
  rw [emit, emit, htable]
  split
  · exact truncated_whole p h _
  · exact truncated_put p (h.truncated_write _)

theorem truncated_addText (h : p.sink.Roomy limit) (line : SourceLine) :
    Truncated limit (p.addText settings line) ((p.limitedTo limit).addText settings line) := by
  have hpending : (p.limitedTo limit).pending = p.pending := rfl
  have htable : (p.limitedTo limit).table = p.table := rfl
  simp only [addText, hpending, htable]
  split_ifs
  · exact truncated_whole p h _
  · exact truncated_whole { p with pending := some (Pending.add p.pending line) } h none
  · exact truncated_emit (p := { p with pending := none }) h _

/-- **One step** of a run. -/
theorem truncated_step (h : p.sink.Roomy limit) (next : Step) :
    Truncated limit (p.step settings next) ((p.limitedTo limit).step settings next) := by
  cases next with
  | splice named location =>
    exact truncated_whole
      { p with opened := Step.opened (.splice named location) ++ p.opened } h none
  | define d =>
    have htable : (p.limitedTo limit).table = p.table := rfl
    rw [step, step, htable]
    split
    · next table _ => exact truncated_whole { p with table } h none
    · exact truncated_whole p h _
  | text line => exact truncated_addText h line

theorem truncated_flush (h : p.sink.Roomy limit) :
    Truncated limit p.flush (p.limitedTo limit).flush :=
  truncated_put p h.truncated_flush

theorem truncated_finish (h : p.sink.Roomy limit) :
    Truncated limit (p.finish settings) ((p.limitedTo limit).finish settings) := by
  rcases hpending : p.pending with _ | ready
  · rw [finish, finish, hpending, show (p.limitedTo limit).pending = none from hpending]
    exact truncated_flush h
  · rw [finish_eq_goOn settings hpending,
      finish_eq_goOn settings (p := p.limitedTo limit) hpending]
    exact (truncated_emit (p := { p with pending := none }) h ready).goOn
      (fun q hq => truncated_flush hq) (fun q => q.precedes_flush)

end Progress

/-- **A run**, of files that do not depend on its output. -/
theorem truncated_runDocument (settings : Settings) (read : List Path → Reader)
    (files : OpenFiles) {trail : Trail} {limit : Nat} (h : trail.sink.Roomy limit) :
    Progress.Truncated limit (runDocument settings (fun t => read t.opened) files trail)
      (runDocument settings (fun t => read t.opened) files
        { trail with sink := trail.sink.limitedTo limit }) := by
  have hfeed := Cursor.truncated_feed (fun p : Progress => p.sink) (Progress.limitedTo limit)
    (fun p => read p.opened) (fun _ => rfl) settings.includeLimit (Progress.step settings)
    (fun p next hp => Progress.truncated_step hp next)
    (fun p next => p.precedes_step settings next) { files } (s := { toTrail := trail }) h
  rw [runDocument_eq_goOn, runDocument_eq_goOn]
  exact hfeed.goOn (fun p hp => Progress.truncated_finish hp)
    (fun p => p.precedes_finish settings)

/-! ### Listings -/

namespace Listing

variable {limit : Nat}

/-- The output of a listing, with a limit. -/
def limitedTo (limit : Nat) (trail : Trail) : Trail :=
  { trail with sink := trail.sink.limitedTo limit }

/-- Hands on what was listed. -/
def flush (trail : Trail) : Trail × Option Error :=
  ({ trail with sink := trail.sink.flush.1 }, trail.sink.flush.2)

theorem truncated_put (trail : Trail) {x y : Sink × Option Error}
    (h : Truncated id (Sink.limitedTo limit) limit x y) :
    Truncated Trail.sink (limitedTo limit) limit ({ trail with sink := x.1 }, x.2)
      ({ trail with sink := y.1 }, y.2) :=
  h.put (fun s => { trail with sink := s }) (fun _ => rfl) (fun _ => rfl)

theorem writeSteps_eq_goOn (read : Trail → Reader) (includeLimit : Nat) (files : OpenFiles)
    (trail : Trail) :
    writeSteps read includeLimit files trail =
      (goOn flush (Cursor.feed read includeLimit writeStep { files } trail)).map Trail.sink id := by
  rw [writeSteps]
  rcases Cursor.feed read includeLimit writeStep { files } trail with ⟨t, _ | e⟩ <;> rfl

/-- **The listing of the steps of a document**, from files that do not depend on the output. -/
theorem truncated_writeSteps (read : List Path → Reader) (includeLimit : Nat) (files : OpenFiles)
    {sink : Sink} (h : sink.Roomy limit) :
    Truncated Trail.sink (limitedTo limit) limit
      (goOn flush (Cursor.feed (fun t => read t.opened) includeLimit writeStep { files } { sink }))
      (goOn flush (Cursor.feed (fun t => read t.opened) includeLimit writeStep { files }
        { sink := sink.limitedTo limit })) := by
  have hfeed := Cursor.truncated_feed Trail.sink (limitedTo limit) (fun t => read t.opened)
    (fun _ => rfl) includeLimit writeStep
    (fun trail next ht => truncated_put { trail with opened := next.opened ++ trail.opened }
      (Sink.Roomy.truncated_write ht next.item))
    (fun trail next => trail.sink.precedes_write next.item) { files } (s := { sink }) h
  exact hfeed.goOn (fun trail ht => truncated_put trail (Sink.Roomy.truncated_flush ht))
    (fun trail => trail.sink.precedes_flush)

/-- **The listing of the lexemes of a source.** -/
theorem truncated_writeLexemes {sink : Sink} (h : sink.Roomy limit) (name : Path)
    (source : Text) :
    Truncated id (Sink.limitedTo limit) limit (writeLexemes name source sink)
      (writeLexemes name source (sink.limitedTo limit)) := by
  have hgoOn : ∀ s : Sink, writeLexemes name source s =
      goOn Sink.flush (s.write (lexemes name source)) := by
    intro s
    rw [writeLexemes]
    rcases s.write (lexemes name source) with ⟨t, _ | e⟩ <;> rfl
  rw [hgoOn, hgoOn]
  exact (h.truncated_write _).goOn (fun s hs => hs.truncated_flush) Sink.precedes_flush

end Listing

/-! ### Whole lines -/

/-- The output has no limit, and what was written into it consists of whole lines. -/
structure Sink.InLines (s : Sink) : Prop where
  /-- It has no limit. -/
  unlimited : s.limit = none
  /-- Nothing was written, or the last thing that was written is the end of a line. -/
  ends : s.bytes = [] ∨ Utf8.encode ['\n'] <:+ s.bytes

namespace Progress

variable {settings : Settings} {p : Progress}

theorem inLines_emit (h : p.sink.InLines) (ready : Pending) :
    (p.emit settings ready).1.sink.InLines := by
  rw [emit]
  split
  · exact h
  · next out _ =>
    refine ⟨(p.sink.precedes_write [out, ['\n']] h.unlimited).1, .inr ?_⟩
    rw [Sink.bytes_write_of_unlimited h.unlimited]
    exact ⟨p.sink.bytes ++ Utf8.encode out, by simp [Utf8.encode]⟩

theorem inLines_step (h : p.sink.InLines) (next : Step) :
    (p.step settings next).1.sink.InLines := by
  cases next with
  | splice named location => exact h
  | define d =>
    rw [step]
    split
    · exact h
    · exact h
  | text line =>
    simp only [step, addText]
    split_ifs
    · exact h
    · exact h
    · exact inLines_emit (p := { p with pending := none }) h _

theorem inLines_flush (h : p.sink.InLines) : p.flush.1.sink.InLines := by
  simp only [flush, Sink.flush, Sink.settle, h.unlimited]
  exact ⟨rfl, h.ends⟩

theorem inLines_finish (h : p.sink.InLines) : (p.finish settings).1.sink.InLines := by
  rcases hpending : p.pending with _ | ready
  · rw [finish, hpending]
    exact inLines_flush h
  · rw [finish_eq_goOn settings hpending]
    exact goOn_invariant (P := fun q : Progress => q.sink.InLines)
      (inLines_emit (p := { p with pending := none }) h ready) fun q hq => inLines_flush hq

end Progress

/-- **A run writes whole lines**, also if it fails. -/
theorem inLines_runDocument (settings : Settings) (read : Trail → Reader) (files : OpenFiles)
    {trail : Trail} (h : trail.sink.InLines) :
    (runDocument settings read files trail).1.sink.InLines := by
  rw [runDocument_eq_goOn]
  exact goOn_invariant (P := fun p : Progress => p.sink.InLines)
    (Cursor.feed_invariant (P := fun p : Progress => p.sink.InLines)
      (fun p next hp => Progress.inLines_step hp next) h)
    fun p hp => Progress.inLines_finish hp

/-! ### The law -/

/-- Into an output with a limit the same is written and with the same result, if it fits. If it does
not, the output holds what fits of it and the result is that it is full. Whether handing on fails at
the end makes no difference. -/
def OnlyTruncates (work : Sink → Sink × Option Error) : Prop :=
  ∀ (failsFlush : Bool) (limit : Nat),
    let whole := work { failsFlush }
    let limited := work { limit := some limit, failsFlush }
    (whole.1.bytes.length ≤ limit → limited.2 = whole.2 ∧ limited.1.bytes = whole.1.bytes) ∧
      (limit < whole.1.bytes.length →
        limited.2 = some (.output .full) ∧ limited.1.bytes = whole.1.bytes.take limit)

/-- What is compared as it is done obeys the law. -/
theorem onlyTruncates_of_truncated {σ : Type} (sink : σ → Sink) (narrow : Nat → σ → σ)
    {work : Sink → Sink × Option Error} (act : Sink → σ × Option Error)
    (hwork : ∀ s, work s = (act s).map sink id)
    (hnarrow : ∀ limit s, (sink (narrow limit s)).bytes = (sink s).bytes)
    (h : ∀ limit s, s.Roomy limit →
      Truncated sink (narrow limit) limit (act s) (act (s.limitedTo limit))) :
    OnlyTruncates work := by
  intro failsFlush limit whole limited
  have hroomy : Sink.Roomy limit { failsFlush } := ⟨rfl, rfl, rfl, rfl, Nat.zero_le limit⟩
  have htruncated := h limit _ hroomy
  have hwhole : whole = _ := hwork { failsFlush }
  have hlimited : limited = _ := hwork (Sink.limitedTo limit { failsFlush })
  rw [hwhole, hlimited]
  generalize act { failsFlush } = x, act (Sink.limitedTo limit { failsFlush }) = y at htruncated ⊢
  cases htruncated with
  | whole failure hs =>
    exact ⟨fun _ => ⟨rfl, hnarrow limit _⟩, fun hlt => absurd hs.length_le (Nat.not_le.mpr hlt)⟩
  | cut _ hlt hbytes =>
    exact ⟨fun hle => absurd hle (Nat.not_le.mpr hlt), fun _ => ⟨rfl, hbytes⟩⟩

theorem onlyTruncates_runFiles (session : Session) {read : List Path → Reader}
    (hread : session.read = fun trail => read trail.opened) (files : OpenFiles)
    (opened : List Path) :
    OnlyTruncates fun sink => (session.runFiles files { sink, opened }).2 := by
  refine onlyTruncates_of_truncated (fun p : Progress => p.sink) Progress.limitedTo
    (fun sink => runDocument session.settings session.read files { sink, opened })
    (fun _ => rfl) (fun _ _ => rfl) (fun limit sink h => ?_)
  have hroomy : Trail.sink { sink, opened } |>.Roomy limit := h
  rw [hread]
  exact truncated_runDocument session.settings read files hroomy

/-- Whether the document in a file can be read does not depend on the output. -/
theorem Session.runFile_cases (session : Session) {read : List Path → Reader}
    (hread : session.read = fun trail => read trail.opened) (path : Path) :
    (∃ e, ∀ sink, session.runFile path sink = (session, sink, some e)) ∨
      ∃ files, ∀ sink, session.runFile path sink =
        session.runFiles files { sink, opened := [path] } := by
  rcases hfile : OpenFiles.ofFile (read []) path with e | files
  · exact .inl ⟨e, fun sink => by simp only [runFile, hread, hfile]⟩
  · exact .inr ⟨files, fun sink => by simp only [runFile, hread, hfile]⟩

/-- **A full output only truncates.** What files hold may depend on which files were opened before,
but not on the output. Then runs of a file, runs of a source, listings of steps and listings of
lexemes all obey the law: into an output with a limit they write the beginning of what they write
into one without, as much as fits, and if not everything fits they fail because it is full, whatever
else they would have met later. Without a limit, what a run writes is empty or ends with the end of
a line, also if the run fails. -/
theorem full_outputs_only_truncate (read : List Path → Reader) (settings : Settings)
    (table : Table) :
    let session : Session := { read := fun trail => read trail.opened, settings, table }
    (∀ path, OnlyTruncates fun sink => (session.runFile path sink).2) ∧
    (∀ name source, OnlyTruncates fun sink => (session.runSource name source sink).2) ∧
    (∀ name source, OnlyTruncates fun sink => Listing.writeSteps session.read
      settings.includeLimit (OpenFiles.ofLines name (Text.lines source)) { sink }) ∧
    (∀ name source, OnlyTruncates (Listing.writeLexemes name source)) ∧
    (∀ path failsFlush, let written := (session.runFile path { failsFlush }).2.1.bytes
      written = [] ∨ Utf8.encode ['\n'] <:+ written) ∧
    (∀ name source failsFlush,
      let written := (session.runSource name source { failsFlush }).2.1.bytes
      written = [] ∨ Utf8.encode ['\n'] <:+ written) := by
  intro session
  have hlines : ∀ files trail, trail.sink.InLines →
      (session.runFiles files trail).2.1.InLines := fun files trail h =>
    inLines_runDocument session.settings session.read files h
  have hempty : ∀ failsFlush, Sink.InLines { failsFlush } := fun _ => ⟨rfl, .inl rfl⟩
  refine ⟨fun path => ?_, fun name source => ?_, fun name source => ?_, fun name source => ?_,
    fun path failsFlush => ?_, fun name source failsFlush => ?_⟩
  · obtain ⟨e, he⟩ | ⟨files, hfiles⟩ := session.runFile_cases rfl path
    · simp only [he]
      exact fun failsFlush limit =>
        ⟨fun _ => ⟨rfl, rfl⟩, fun hlt => absurd hlt (Nat.not_lt_zero limit)⟩
    · simp only [hfiles]
      exact onlyTruncates_runFiles session rfl files [path]
  · exact onlyTruncates_runFiles session rfl _ []
  · exact onlyTruncates_of_truncated Trail.sink Listing.limitedTo _
      (fun sink => Listing.writeSteps_eq_goOn _ _ _ _) (fun _ _ => rfl)
      (fun limit sink h => Listing.truncated_writeSteps read settings.includeLimit _ h)
  · exact onlyTruncates_of_truncated id Sink.limitedTo (Listing.writeLexemes name source)
      (fun _ => rfl) (fun _ _ => rfl)
      (fun limit sink h => Listing.truncated_writeLexemes h name source)
  · obtain ⟨e, he⟩ | ⟨files, hfiles⟩ := session.runFile_cases rfl path
    · rw [he]
      exact .inl rfl
    · rw [hfiles]
      exact (hlines files _ (hempty failsFlush)).ends
  · exact (hlines _ _ (hempty failsFlush)).ends

/-- An output that is full hides an `endmacro` that stands alone on a later line, and one with room
for the first line does not. -/
theorem full_output_hides_a_later_error :
    let session : Session := { read := fun _ _ => .error .absent }
    let run := fun sink => (session.runSource ⟨['d']⟩ "ab\nendmacro".toList sink).2
    (run { limit := some 2 }).2 = some (.output .full) ∧
      (run { limit := some 2 }).1.bytes = Utf8.encode "ab".toList ∧
      (run { limit := some 3 }).2 = some (.fault ⟨⟨['d']⟩, 2⟩ .unmatchedEnd) ∧
      (run { limit := some 3 }).1.bytes = Utf8.encode "ab\n".toList := by
  intro session run
  let lines := ["ab".toList, "endmacro".toList]
  let first : SourceLine := ⟨"ab".toList, ⟨⟨['d']⟩, 1⟩, 0⟩
  let last : SourceLine := ⟨"endmacro".toList, ⟨⟨['d']⟩, 2⟩, 0⟩
  let p : Progress := { sink := (Sink.write {} ["ab".toList, ['\n']]).1 }
  let unmatched : Error := .fault ⟨⟨['d']⟩, 2⟩ .unmatchedEnd
  have hlines : Text.lines "ab\nendmacro".toList = lines := by decide +kernel
  have hstep : Progress.step {} {} (.text first) = (p, none) := by
    have hexpand : expand Table.empty 10 "ab".toList = .ok "ab".toList := by decide +kernel
    exact Progress.addText_of_written rfl (by decide +kernel) hexpand rfl
  have hfirst : Cursor.next? (fun _ => .error .absent) 10
      { files := OpenFiles.ofLines ⟨['d']⟩ lines } =
        .ok (some (.text first, { files := [[last]] })) := by rfl
  have hlast : Cursor.next? (fun _ => .error .absent) 10 { files := [[last]] } =
      .ok (some (.text last, { files := [[]] })) := by rfl
  have hfeed : Cursor.feed (fun _ : Progress => fun _ => .error .absent) 10 (Progress.step {})
      { files := OpenFiles.ofLines ⟨['d']⟩ lines } {} = (p, some unmatched) := by
    rw [Cursor.feed_of_taken hfirst hstep, Cursor.feed_of_refused hlast rfl]
  have hrun : run {} = (p.sink, some unmatched) := by
    simp only [run, Session.runSource, Session.runFiles, hlines, session]
    rw [runDocument_of_feed_error hfeed]
  have hbytes : p.sink.bytes = Utf8.encode "ab\n".toList := Sink.bytes_write_of_unlimited rfl _
  have hlaw : OnlyTruncates run :=
    (full_outputs_only_truncate (fun _ _ => .error .absent) {} .empty).2.1 _ _
  have hcut := (hlaw false 2).2
  have hwhole := (hlaw false 3).1
  rw [show run { failsFlush := false } = (p.sink, some unmatched) from hrun, hbytes] at hcut hwhole
  obtain ⟨hfull, hheld⟩ := hcut (by decide +kernel)
  obtain ⟨hfault, hwritten⟩ := hwhole (by decide +kernel)
  exact ⟨hfull, hheld.trans (by decide +kernel), hfault, hwritten⟩

end TextExpander
