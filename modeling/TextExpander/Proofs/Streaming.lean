import Mathlib.Control.Monad.Basic
import TextExpander.Proofs.Compose
import TextExpander.Proofs.Waiting

/-!
# Line by line or all at once

A run expands its lines in groups: a line that does not end inside a call is expanded alone, and
lines that a call goes on over are expanded together. What is written is the same as if all the
lines had been put together first and expanded as one text.

The induction is on the lines that are still to come, with the text that waits in front of them. A
group is complete when it does not end inside a call, and a line feed is no part of a word and opens
no call; so the expansion of the whole text comes apart at the end of the group, by `expand_append`.

## Main definitions

* `Progress.takeLines`: lines of text taken in one by one, and the end of the run.
* `Progress.Delivers`: a run did what an expansion says.

## Main results

* `streamed_lines_expand_as_one_text`: the two ways agree, on what is written and on every fault.
-/

namespace TextExpander

/-! ### Sinks that take everything -/

namespace Sink

/-- A sink that takes everything, and hands it on at the end. -/
structure TakesAll (s : Sink) : Prop where
  /-- It hands on any number of bytes. -/
  unlimited : s.limit = none
  /-- Handing on at the end does not fail. -/
  flushes : s.failsFlush = false

theorem TakesAll.write {s : Sink} (h : s.TakesAll) (pieces : List Text) :
    ∃ s', s.write pieces = (s', none) ∧ s'.TakesAll ∧
      s'.bytes = s.bytes ++ Utf8.encode pieces.flatten := by
  refine ⟨(s.write pieces).1, ?_, ⟨?_, ?_⟩, bytes_write_of_unlimited h.unlimited pieces⟩
  · simp [Sink.write, settle, h.unlimited]
  · simp [Sink.write, settle, h.unlimited]
  · simp [Sink.write, settle, h.unlimited, h.flushes]

theorem TakesAll.flush {s : Sink} (h : s.TakesAll) : s.flush = ({ s with held := 0 }, none) := by
  simp [Sink.flush, settle, h.unlimited, h.flushes]

end Sink

/-! ### Lines put together -/

/-- Text that does not end inside a call is expanded apart from the lines after it. -/
theorem expand_joinLines_cons {table : Table} (limit : Nat) {t : Text} {lines : List Text}
    (hopen : hasOpenCall table t = false) (hlines : lines ≠ []) :
    expand table limit (Text.joinLines (t :: lines)) = (do
      let a ← expand table limit t
      let b ← expand table limit (Text.joinLines lines)
      return a ++ '\n' :: b) := by
  have hfeed : Outline.Apart table.callee? t ('\n' :: Text.joinLines lines) := by
    refine Or.inr fun a ha => ?_
    obtain rfl : '\n' = a := by simpa using ha
    exact ⟨by decide, fun h => absurd h (by decide)⟩
  have hline : hasOpenCall table ['\n'] = false := by
    rw [hasOpenCall, Outline.isOpen_scan]
    rfl
  have hnewline : expand table limit ['\n'] = .ok ['\n'] := by
    have hnone : Outline.findCall table.callee? [] [] (Fragment.plain ['\n']) = none := rfl
    obtain ⟨callValue, heq⟩ := Expansion.exists_expandFragment_eq table limit limit
    rw [expand, heq, Outline.scan_of_none hnone]
    rfl
  have hrest : expand table limit ('\n' :: Text.joinLines lines) = (do
      let b ← expand table limit (Text.joinLines lines)
      return '\n' :: b) := by
    have happend := expand_append limit hline
      (show Outline.Apart table.callee? ['\n'] (Text.joinLines lines) from Or.inl rfl)
    rw [hnewline] at happend
    exact happend
  rw [Text.joinLines_cons hlines, expand_append limit hopen hfeed, hrest]
  cases expand table limit t with
  | error what => rfl
  | ok a => cases expand table limit (Text.joinLines lines) <;> rfl

theorem expand_joinLines_of_error {table : Table} {limit : Nat} {t : Text} {what : Fault}
    (hopen : hasOpenCall table t = false) (h : expand table limit t = .error what)
    (lines : List Text) : expand table limit (Text.joinLines (t :: lines)) = .error what := by
  by_cases hlines : lines = []
  · rw [hlines, Text.joinLines_singleton, h]
  · rw [expand_joinLines_cons limit hopen hlines, h]
    rfl

/-! ### Taking lines in -/

namespace Progress

/-- Takes in lines of text one by one, up to the first error, and then ends the run. -/
def takeLines (settings : Settings) (p : Progress) : List SourceLine → Progress × Option Error
  | [] => p.finish settings
  | line :: rest =>
    match p.addText settings line with
    | (q, some e) => (q, some e)
    | (q, none) => takeLines settings q rest

/-- A run that started with some bytes written did what an expansion says: it wrote the expanded
text as a line, or it failed with the fault of the expansion. -/
def Delivers (written : List UInt8) (expanded : Except Fault Text)
    (run : Progress × Option Error) : Prop :=
  match expanded with
  | .ok w => run.2 = none ∧ run.1.sink.bytes = written ++ Utf8.encode (w ++ ['\n'])
  | .error what => ∃ location, run.2 = some (.fault location what)

variable {settings : Settings}

/-- A line that was written before belongs to what is written. -/
theorem Delivers.after {written : List UInt8} {w : Text} {expanded : Except Fault Text}
    {run : Progress × Option Error}
    (h : Delivers (written ++ Utf8.encode (w ++ ['\n'])) expanded run) :
    Delivers written (do let b ← expanded; return w ++ '\n' :: b) run := by
  cases expanded with
  | error what => exact h
  | ok b =>
    obtain ⟨hok, hbytes⟩ := h
    refine ⟨hok, ?_⟩
    rw [hbytes]
    simp [Utf8.encode]

theorem emit_of_error {p : Progress} {ready : Pending} {what : Fault}
    (h : expand p.table settings.expansionLimit ready.text = .error what) :
    p.emit settings ready = (p, some (.fault ready.location what)) := by
  rw [emit, h]

theorem emit_of_ok {p : Progress} (hsink : p.sink.TakesAll) {ready : Pending} {w : Text}
    (h : expand p.table settings.expansionLimit ready.text = .ok w) :
    ∃ sink, p.emit settings ready = ({ p with sink }, none) ∧ sink.TakesAll ∧
      sink.bytes = p.sink.bytes ++ Utf8.encode (w ++ ['\n']) := by
  obtain ⟨sink, hwrite, htakes, hbytes⟩ := hsink.write [w, ['\n']]
  rw [emit, h]
  simp only [hwrite]
  exact ⟨sink, rfl, htakes, by simpa using hbytes⟩

theorem finish_of_pending_none (settings : Settings) {p : Progress} (hsink : p.sink.TakesAll)
    (h : p.pending = none) :
    ∃ q, p.finish settings = (q, none) ∧ q.sink.bytes = p.sink.bytes := by
  rw [finish, h]
  simp only [flush, hsink.flush]
  exact ⟨_, rfl, rfl⟩

theorem delivers_finish {p : Progress} (hsink : p.sink.TakesAll) {ready : Pending}
    (h : p.pending = some ready) :
    Delivers p.sink.bytes (expand p.table settings.expansionLimit ready.text)
      (p.finish settings) := by
  rw [finish, h]
  cases hexpand : expand p.table settings.expansionLimit ready.text with
  | error what =>
    have hemit : emit settings { p with pending := none } ready = _ := emit_of_error hexpand
    simp only [hemit]
    exact ⟨ready.location, rfl⟩
  | ok w =>
    obtain ⟨sink, hemit, htakes, hbytes⟩ :=
      emit_of_ok (p := { p with pending := none }) hsink hexpand
    simp only [hemit, flush, htakes.flush]
    exact ⟨rfl, hbytes⟩

/-- The text that waits, as the lines in front of those to come. -/
def waiting (p : Progress) : List Text :=
  p.pending.toList.map Pending.text

theorem joinLines_waiting (p : Progress) (line : SourceLine) (rest : List Text) :
    Text.joinLines (p.waiting ++ line.text :: rest) =
      Text.joinLines ((Pending.add p.pending line).text :: rest) := by
  rw [waiting]
  cases p.pending with
  | none => rfl
  | some ready =>
    rw [Option.toList_some, List.map_singleton, List.singleton_append,
      Text.joinLines_cons (List.cons_ne_nil _ _), Pending.add]
    cases rest with
    | nil => simp
    | cons u rest =>
      rw [Text.joinLines_cons (List.cons_ne_nil _ _), Text.joinLines_cons (List.cons_ne_nil _ _)]
      simp

/-- **One group after another.** What is written for the text that waits and the lines to come is
what the expansion of all of it says. -/
theorem delivers_takeLines (settings : Settings) {p : Progress} (hsink : p.sink.TakesAll)
    {lines : List SourceLine} (hend : ∀ line ∈ lines, Directive.cutAtEnd? line.text = none)
    (hne : p.waiting ++ lines.map SourceLine.text ≠ []) :
    Delivers p.sink.bytes
      (expand p.table settings.expansionLimit
        (Text.joinLines (p.waiting ++ lines.map SourceLine.text)))
      (p.takeLines settings lines) := by
  induction lines generalizing p with
  | nil =>
    cases hpending : p.pending with
    | none => simp [waiting, hpending] at hne
    | some ready =>
      have htext : Text.joinLines (p.waiting ++ [].map SourceLine.text) = ready.text := by
        simp [waiting, hpending]
      rw [htext]
      exact delivers_finish hsink hpending
  | cons line rest ih =>
    have hline : (Directive.cutAtEnd? line.text).isSome = false := by
      rw [hend line List.mem_cons_self, Option.isSome_none]
    have hrest : ∀ line ∈ rest, Directive.cutAtEnd? line.text = none :=
      fun l hl => hend l (List.mem_cons_of_mem _ hl)
    rw [List.map_cons, joinLines_waiting, takeLines]
    cases hopen : hasOpenCall p.table (Pending.add p.pending line).text with
    | true =>
      -- The group goes on: its text waits in front of the lines to come.
      rw [addText_of_open hline hopen]
      exact ih (p := { p with pending := some (Pending.add p.pending line) }) hsink hrest
        (by simp [waiting])
    | false =>
      rw [addText_of_closed hline hopen]
      cases hexpand : expand p.table settings.expansionLimit (Pending.add p.pending line).text with
      | error what =>
        have hemit : emit settings { p with pending := none } (Pending.add p.pending line) = _ :=
          emit_of_error hexpand
        rw [hemit, expand_joinLines_of_error hopen hexpand]
        exact ⟨_, rfl⟩
      | ok w =>
        obtain ⟨sink, hemit, htakes, hbytes⟩ :=
          emit_of_ok (p := { p with pending := none }) hsink hexpand
        rw [hemit]
        by_cases hnil : rest = []
        · obtain ⟨q, hfinish, hq⟩ := finish_of_pending_none settings
            (p := { p with pending := none, sink }) htakes rfl
          rw [hnil, List.map_nil, Text.joinLines_singleton, hexpand]
          simp only [takeLines, hfinish]
          exact ⟨rfl, hq.trans hbytes⟩
        · have hnext := ih (p := { p with pending := none, sink }) htakes hrest (by simpa [waiting])
          rw [expand_joinLines_cons _ hopen (by simpa using hnil), hexpand]
          rw [hbytes] at hnext
          exact hnext.after

end Progress

/-- **Streaming agrees with expanding everything at once.** Lines of text without an `endmacro` are
taken in one by one, with no text waiting at first and into an output that takes everything. The run
succeeds exactly if the lines put together have an expansion, and has then written the expansion as
one line; otherwise it fails with the fault of the expansion, at some location. -/
theorem streamed_lines_expand_as_one_text (settings : Settings) (p : Progress)
    (lines : List SourceLine) (hlines : lines ≠ [])
    (hend : ∀ line ∈ lines, Directive.cutAtEnd? line.text = none) (hpending : p.pending = none)
    (hlimit : p.sink.limit = none) (hflush : p.sink.failsFlush = false) :
    let run := p.takeLines settings lines
    let whole := expand p.table settings.expansionLimit
      (Text.joinLines (lines.map SourceLine.text))
    (run.2 = none ↔ ∃ w, whole = .ok w) ∧
      (∀ w, whole = .ok w → run.1.sink.bytes = p.sink.bytes ++ Utf8.encode (w ++ ['\n'])) ∧
      (∀ what, whole = .error what → ∃ location, run.2 = some (.fault location what)) := by
  intro run whole
  have hwaiting : p.waiting = [] := by simp [Progress.waiting, hpending]
  have hdelivers : Progress.Delivers p.sink.bytes whole run := by
    have h := Progress.delivers_takeLines settings ⟨hlimit, hflush⟩ hend
      (by simpa [hwaiting] using hlines)
    rwa [hwaiting] at h
  cases hwhole : whole with
  | ok w =>
    rw [hwhole] at hdelivers
    refine ⟨⟨fun _ => ⟨w, rfl⟩, fun _ => hdelivers.1⟩, fun w' hw' => ?_, nofun⟩
    obtain rfl := Except.ok.inj hw'
    exact hdelivers.2
  | error what =>
    rw [hwhole] at hdelivers
    obtain ⟨location, hfail⟩ := hdelivers
    refine ⟨⟨fun h => ?_, fun ⟨_, h⟩ => nomatch h⟩, nofun, fun what' h => ?_⟩
    · rw [hfail] at h
      cases h
    · obtain rfl := Except.error.inj h
      exact ⟨location, hfail⟩

/-- A call over two lines with a line after it. -/
theorem streamed_call_over_two_lines :
    let lines : List SourceLine := [⟨"x glue(a,".toList, ⟨⟨['d']⟩, 1⟩, 0⟩,
      ⟨"b) y".toList, ⟨⟨['d']⟩, 2⟩, 0⟩, ⟨"f(z".toList, ⟨⟨['d']⟩, 3⟩, 0⟩]
    (Progress.takeLines {} {} lines).2 = none ∧
      (Progress.takeLines {} {} lines).1.sink.bytes = Utf8.encode "x ab y\nf(z\n".toList := by
  intro lines
  have hexpand : expand {} 10 (Text.joinLines (lines.map SourceLine.text)) =
      .ok "x ab y\nf(z".toList := by decide +kernel
  have h := streamed_lines_expand_as_one_text {} {} lines (List.cons_ne_nil _ _) (by decide) rfl
    rfl rfl
  exact ⟨h.1.mpr ⟨_, hexpand⟩, h.2.1 _ hexpand⟩

end TextExpander
