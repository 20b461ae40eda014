import TextExpander.Document.Termination

/-!
# Open files with their depths

`OpenFiles` keeps of each open file only the lines that are not read yet. That is enough to read a
document, but a file whose last line was read has nothing left that tells how deep it is. Here each
open file also keeps its path, its depth and how many of its lines were read, and the document is
read from these. Nothing else is known about a place than before, so forgetting what is added gives
the same steps (`Position.next?_cursor`).

The depth of an open file is the number of files below it. An `include` line comes from the
innermost file and the new file goes on top of it, which keeps this; and since no file is deeper
than the limit, the limit bounds how many files are open at once.

## Main definitions

* `Frame`: an open file.
* `Position`, `Position.next?`: a place in a document, and the next step.
* `Walk`: a sequence of steps from one place to another.
* `Frame.Stacked`: the depth of each file is the number of files below it.

## Main results

* `Position.next?_cursor`: the steps are those of the cursor without the depths.
* `documents_end_within_the_include_limit`: every document ends, and files nest no deeper than the
  limit on the way.
-/

namespace TextExpander

/-! ### Lines of a file from some line on -/

namespace SourceLine

/-- The lines of a file that is read at an include depth, numbered from the one after the first
`passed` lines. -/
def numberFrom (file : Path) (depth : Nat) : (passed : Nat) → List Text → List SourceLine
  | _, [] => []
  | passed, text :: rest =>
    ⟨text, ⟨file, passed + 1⟩, depth⟩ :: numberFrom file depth (passed + 1) rest

theorem mapIdx_eq_numberFrom (file : Path) (depth passed : Nat) (lines : List Text) :
    (lines.mapIdx fun i text => (⟨text, ⟨file, passed + i + 1⟩, depth⟩ : SourceLine)) =
      numberFrom file depth passed lines := by
  induction lines generalizing passed with
  | nil => rfl
  | cons text rest ih =>
    rw [List.mapIdx_cons, numberFrom, ← ih (passed + 1)]
    simp only [Nat.add_right_comm, Nat.add_assoc, Nat.add_zero]

theorem number_eq_numberFrom (file : Path) (depth : Nat) (lines : List Text) :
    number file depth lines = numberFrom file depth 0 lines := by
  rw [← mapIdx_eq_numberFrom, number]
  simp only [Nat.zero_add]

theorem drop_numberFrom (file : Path) (depth passed n : Nat) (lines : List Text) :
    (numberFrom file depth passed lines).drop n =
      numberFrom file depth (passed + n) (lines.drop n) := by
  induction n generalizing passed lines with
  | zero => rfl
  | succ n ih =>
    cases lines with
    | nil => rfl
    | cons text rest =>
      rw [numberFrom, List.drop_succ_cons, List.drop_succ_cons, ih]
      simp only [Nat.add_right_comm, Nat.add_assoc]

theorem depth_of_mem_numberFrom {file : Path} {depth passed : Nat} {lines : List Text}
    {l : SourceLine} (h : l ∈ numberFrom file depth passed lines) : l.depth = depth := by
  induction lines generalizing passed with
  | nil => cases h
  | cons text rest ih =>
    rcases List.mem_cons.mp h with rfl | h
    · rfl
    · exact ih h

end SourceLine

/-! ### Frames -/

/-- An open file. -/
structure Frame where
  /-- Its path. -/
  file : Path
  /-- How many `include` lines led to it. -/
  depth : Nat
  /-- The number of its lines that were read. -/
  passed : Nat := 0
  /-- The lines that are not read yet. -/
  unread : List Text
  deriving DecidableEq, Repr

namespace Frame

/-- The lines that are not read yet, with where they stand. -/
def lines (f : Frame) : List SourceLine :=
  SourceLine.numberFrom f.file f.depth f.passed f.unread

/-- The file after its next `n` lines. -/
def advance (n : Nat) (f : Frame) : Frame :=
  { f with passed := f.passed + n, unread := f.unread.drop n }

theorem lines_advance (n : Nat) (f : Frame) : (f.advance n).lines = f.lines.drop n :=
  (SourceLine.drop_numberFrom ..).symm

theorem lines_of_unread_nil {f : Frame} (h : f.unread = []) : f.lines = [] := by
  rw [lines, h]
  rfl

theorem lines_of_unread_cons {f : Frame} {text : Text} {rest : List Text}
    (h : f.unread = text :: rest) :
    f.lines = ⟨text, ⟨f.file, f.passed + 1⟩, f.depth⟩ :: (f.advance 1).lines := by
  rw [lines, lines, advance, h]
  rfl

theorem depth_of_mem_lines {f : Frame} {l : SourceLine} (h : l ∈ f.lines) : l.depth = f.depth :=
  SourceLine.depth_of_mem_numberFrom h

/-! ### Reading from frames -/

/-- The open files without their depths. -/
def openFiles (frames : List Frame) : OpenFiles :=
  frames.map lines

/-- The next line of the document, and the open files after it. Files that are read to their end are
left. -/
def next? : List Frame → Option (SourceLine × List Frame)
  | [] => none
  | f :: outer =>
    match f.unread with
    | [] => next? outer
    | text :: _ => some (⟨text, ⟨f.file, f.passed + 1⟩, f.depth⟩, f.advance 1 :: outer)

/-- The open files after the next `n` lines of the innermost one. -/
def skip (n : Nat) : List Frame → List Frame
  | [] => []
  | f :: outer => f.advance n :: outer

/-- The open files with the file on top that the line `directive` names. -/
def splice (read : Reader) (limit : Nat) (directive : SourceLine) (named : Text)
    (frames : List Frame) : Except Error (List Frame) :=
  let path := directive.location.file.resolve named
  let depth := directive.depth + 1
  if limit < depth then .error (.fault directive.location (.includeTooDeep path limit))
  else
    match read path with
    | .ok lines => .ok ({ file := path, depth, unread := lines } :: frames)
    | .error reason => .error (.fault directive.location (.includeNotFound path reason))

theorem next?_openFiles (frames : List Frame) :
    (openFiles frames).next? = (next? frames).map (Prod.map id openFiles) := by
  induction frames with
  | nil => rfl
  | cons f outer ih =>
    rw [openFiles, List.map_cons, next?]
    cases h : f.unread with
    | nil =>
      rw [lines_of_unread_nil h]
      exact ih
    | cons text rest =>
      rw [lines_of_unread_cons h]
      rfl

theorem skip_openFiles (n : Nat) (frames : List Frame) :
    (openFiles frames).skip n = openFiles (skip n frames) := by
  cases frames with
  | nil => rfl
  | cons f outer =>
    rw [skip, openFiles, openFiles, List.map_cons, List.map_cons, lines_advance]
    rfl

theorem splice_openFiles (read : Reader) (limit : Nat) (directive : SourceLine) (named : Text)
    (frames : List Frame) :
    (openFiles frames).splice read limit directive named =
      (splice read limit directive named frames).map openFiles := by
  simp only [OpenFiles.splice, splice]
  split
  · rfl
  · cases read (directive.location.file.resolve named) with
    | error reason => rfl
    | ok lines =>
      simp only [SourceLine.number_eq_numberFrom]
      rfl

/-- What a line is read from: the first file with a line left, after files that are at their end. -/
theorem next?_eq_some {frames frames' : List Frame} {line : SourceLine}
    (h : next? frames = some (line, frames')) :
    ∃ ended f outer, frames = ended ++ f :: outer ∧ frames' = f.advance 1 :: outer ∧
      line ∈ f.lines := by
  induction frames with
  | nil => cases h
  | cons f outer ih =>
    rw [next?] at h
    cases hunread : f.unread with
    | nil =>
      rw [hunread] at h
      obtain ⟨ended, g, outer', rfl, hframes', hline⟩ := ih h
      exact ⟨f :: ended, g, outer', rfl, hframes', hline⟩
    | cons text rest =>
      rw [hunread] at h
      obtain ⟨rfl, rfl⟩ := by simpa using h
      exact ⟨[], f, outer, rfl, rfl, by simp [lines_of_unread_cons hunread]⟩

end Frame

/-! ### Places -/

/-- A place in a document, with the depth of each open file. -/
structure Position where
  /-- The open files, the innermost first. -/
  frames : List Frame
  /-- The text after a definition, which comes before the next line. -/
  queued : Option SourceLine := none
  deriving DecidableEq, Repr

namespace Position

/-- The beginning of a document of the given lines. -/
def ofLines (name : Path) (lines : List Text) : Position where
  frames := [{ file := name, depth := 0, unread := lines }]

/-- The place without the depths of the open files. -/
def cursor (p : Position) : Cursor :=
  ⟨Frame.openFiles p.frames, p.queued⟩

theorem cursor_ofLines (name : Path) (lines : List Text) :
    (ofLines name lines).cursor = { files := OpenFiles.ofLines name lines } := by
  rw [OpenFiles.ofLines, SourceLine.number_eq_numberFrom]
  rfl

/-- The next step of a document, and the place after it; `none` at the end. -/
def next? (read : Reader) (limit : Nat) (p : Position) : Except Error (Option (Step × Position)) :=
  match p.queued with
  | some line => .ok (some (.text line, { frames := p.frames }))
  | none =>
    match Frame.next? p.frames with
    | none => .ok none
    | some (line, frames) =>
      match Directive.includePath? line.text with
      | some named =>
        match Frame.splice read limit line named frames with
        | .error e => .error e
        | .ok spliced => .ok (some (.splice named line.location, { frames := spliced }))
      | none =>
        if Directive.startsDefinition line.text then
          match Definition.parse line (Frame.openFiles frames).innermost with
          | (.error e, _) => .error e
          | (.ok parsed, used) =>
            .ok (some (.define parsed.definition,
              ⟨Frame.skip used frames, parsed.trailing.map fun t => { line with text := t }⟩))
        else .ok (some (.text line, { frames }))

variable {read : Reader} {limit : Nat} {p q : Position} {step : Step}

/-- **The depths change nothing.** A step from a place, with the depths forgotten afterwards, is the
step from the place with the depths forgotten before. -/
theorem next?_cursor (read : Reader) (limit : Nat) (p : Position) :
    p.cursor.next? read limit =
      (p.next? read limit).map (Option.map fun next => (next.1, next.2.cursor)) := by
  obtain ⟨frames, queued⟩ := p
  cases queued with
  | some line => rfl
  | none =>
    simp only [Cursor.next?, next?, cursor, Frame.next?_openFiles]
    cases Frame.next? frames with
    | none => rfl
    | some next =>
      obtain ⟨line, frames⟩ := next
      simp only [Option.map_some, Prod.map_apply, id_eq, Frame.splice_openFiles,
        Frame.skip_openFiles]
      cases Directive.includePath? line.text with
      | some named =>
        cases hspliced : Frame.splice read limit line named frames with
        | error e => simp only [hspliced]; rfl
        | ok spliced => simp only [hspliced]; rfl
      | none =>
        cases Directive.startsDefinition line.text with
        | false => rfl
        | true =>
          obtain ⟨result, used⟩ := Definition.parse line (Frame.openFiles frames).innermost
          cases result <;> rfl

/-- **What a step does.** The text after a definition is handed out; or a line is read, and then a
file is put on top that is one deeper than the line, or lines of the same file are passed. -/
theorem next?_eq_some (h : p.next? read limit = .ok (some (step, q))) :
    (∃ line, p.queued = some line ∧ step = .text line ∧ q = { frames := p.frames }) ∨
      ∃ line frames, Frame.next? p.frames = some (line, frames) ∧
        ((∃ file texts, line.depth + 1 ≤ limit ∧ (∀ l, step ≠ .text l) ∧
            q = { frames := { file, depth := line.depth + 1, unread := texts } :: frames }) ∨
          (∃ n queued, (∀ l, step = .text l → l = line) ∧
            (∀ l, queued = some l → l.depth = line.depth) ∧
            q = ⟨Frame.skip n frames, queued⟩)) := by
  obtain ⟨frames, queued⟩ := p
  cases queued with
  | some line =>
    obtain ⟨rfl, rfl⟩ := by simpa [next?] using h
    exact Or.inl ⟨line, rfl, rfl, rfl⟩
  | none =>
    right
    simp only [next?] at h
    cases hnext : Frame.next? frames with
    | none =>
      rw [hnext] at h
      cases h
    | some next =>
      obtain ⟨line, frames'⟩ := next
      refine ⟨line, frames', rfl, ?_⟩
      simp only [hnext] at h
      split at h
      · next named _ =>
        left
        simp only [Frame.splice] at h
        split at h
        · cases h
        · next spliced hspliced =>
          obtain ⟨rfl, rfl⟩ := by simpa using h
          split at hspliced
          · cases hspliced
          · next hdepth =>
            split at hspliced
            · next texts _ =>
              obtain rfl := by simpa using hspliced
              exact ⟨_, texts, by omega, by simp, rfl⟩
            · cases hspliced
      · right
        split at h
        · split at h
          · cases h
          · next parsed used _ =>
            obtain ⟨rfl, rfl⟩ := by simpa using h
            refine ⟨used, _, by simp, ?_, rfl⟩
            intro l hl
            obtain ⟨t, -, rfl⟩ := Option.map_eq_some_iff.mp hl
            rfl
        · obtain ⟨rfl, rfl⟩ := by simpa using h
          refine ⟨0, none, by simp, by simp, ?_⟩
          cases frames' <;> rfl

end Position

/-! ### Depths -/

namespace Frame

/-- The depth of each open file is the number of files below it. -/
def Stacked : List Frame → Prop
  | [] => True
  | f :: outer => f.depth = outer.length ∧ Stacked outer

theorem Stacked.of_append {ended frames : List Frame} (h : Stacked (ended ++ frames)) :
    Stacked frames := by
  induction ended with
  | nil => exact h
  | cons f ended ih => exact ih h.2

theorem Stacked.skip {frames : List Frame} (h : Stacked frames) (n : Nat) :
    Stacked (skip n frames) := by
  cases frames with
  | nil => exact h
  | cons f outer => exact h

/-- Counted from the outermost file, which is the last of the list, a file is as deep as its
number says. -/
theorem Stacked.depth_getElem? {frames : List Frame} (h : Stacked frames) {i : Nat} {f : Frame}
    (hf : frames.reverse[i]? = some f) : f.depth = i := by
  induction frames with
  | nil => simp at hf
  | cons g outer ih =>
    rw [List.reverse_cons] at hf
    by_cases hi : i < outer.reverse.length
    · rw [List.getElem?_append_left hi] at hf
      exact ih h.2 hf
    · rw [List.getElem?_append_right (Nat.le_of_not_lt hi)] at hf
      obtain ⟨hlast, rfl⟩ : i - outer.reverse.length = 0 ∧ g = f := by
        simpa [List.getElem?_singleton, and_comm] using hf
      have hdepth := h.1
      rw [List.length_reverse] at hi hlast
      omega

theorem Stacked.depth_lt_length {frames : List Frame} (h : Stacked frames) {f : Frame}
    (hf : f ∈ frames) : f.depth < frames.length := by
  induction frames with
  | nil => cases hf
  | cons g outer ih =>
    rcases List.mem_cons.mp hf with rfl | hf
    · exact Nat.lt_succ_of_le (Nat.le_of_eq h.1)
    · exact Nat.lt_succ_of_lt (ih h.2 hf)

end Frame

namespace Position

variable {read : Reader} {limit : Nat} {p q : Position}

/-- What holds at every place of a document: the files are as deep as they are nested, there are no
more of them than the limit allows, and the text that comes next is no deeper either. -/
structure Within (limit : Nat) (p : Position) : Prop where
  /-- The depth of each open file is the number of files below it. -/
  stacked : Frame.Stacked p.frames
  /-- One file more than the limit, since the document itself has depth zero. -/
  length_le : p.frames.length ≤ limit + 1
  /-- The text after a definition is no deeper than the limit. -/
  queued_le : ∀ line, p.queued = some line → line.depth ≤ limit

theorem Within.ofLines (limit : Nat) (name : Path) (lines : List Text) :
    (ofLines name lines).Within limit where
  stacked := ⟨rfl, trivial⟩
  length_le := Nat.succ_le_succ (Nat.zero_le limit)
  queued_le := by simp [Position.ofLines]

theorem Within.depth_le (h : p.Within limit) {f : Frame} (hf : f ∈ p.frames) {line : SourceLine}
    (hline : line ∈ f.lines) : line.depth ≤ limit := by
  have hlt := h.stacked.depth_lt_length hf
  have hle := h.length_le
  rw [Frame.depth_of_mem_lines hline]
  omega

/-- A step keeps the depths as they should be, and hands out no text deeper than the limit. -/
theorem Within.step (h : p.Within limit) {next : Step}
    (hnext : p.next? read limit = .ok (some (next, q))) :
    q.Within limit ∧ ∀ line, next = .text line → line.depth ≤ limit := by
  rcases next?_eq_some hnext with ⟨line, hqueued, rfl, rfl⟩ | ⟨line, frames, hline, hcases⟩
  · refine ⟨⟨h.stacked, h.length_le, by simp⟩, ?_⟩
    rintro l hl
    obtain rfl := Step.text.inj hl
    exact h.queued_le line hqueued
  · obtain ⟨ended, f, outer, hframes, rfl, hmem⟩ := Frame.next?_eq_some hline
    have hstacked := h.stacked
    have hlength := h.length_le
    rw [hframes] at hstacked hlength
    have hinner : Frame.Stacked (f.advance 1 :: outer) := hstacked.of_append
    have houter : outer.length + 1 ≤ limit + 1 := by
      simp only [List.length_append, List.length_cons] at hlength
      omega
    have hdepth : line.depth = outer.length := (Frame.depth_of_mem_lines hmem).trans hinner.1
    rcases hcases with ⟨file, texts, hle, htext, rfl⟩ | ⟨n, queued, htext, hqueued, rfl⟩
    · refine ⟨⟨⟨?_, hinner⟩, ?_, by simp⟩, fun l hl => absurd hl (htext l)⟩
      · rw [hdepth]
        rfl
      · simp only [List.length_cons]
        omega
    · refine ⟨⟨hinner.skip n, houter, fun l hl => ?_⟩, fun l hl => ?_⟩
      · rw [hqueued l hl]
        omega
      · rw [htext l hl]
        omega

end Position

/-! ### Sequences of steps -/

/-- The steps that lead from one state to another, where `next` gives the step from each state. -/
inductive Walk {σ : Type} (next : σ → Except Error (Option (Step × σ))) (start : σ) :
    List Step → σ → Prop
  /-- No step leads from a state to itself. -/
  | start : Walk next start [] start
  /-- One step more. -/
  | step {steps : List Step} {s t : σ} {step : Step} : Walk next start steps s →
      next s = .ok (some (step, t)) → Walk next start (steps ++ [step]) t

namespace Walk

variable {σ : Type} {next : σ → Except Error (Option (Step × σ))} {s t u : σ} {steps : List Step}

theorem after_step {step : Step} (hnext : next s = .ok (some (step, t)))
    (h : Walk next t steps u) : Walk next s (step :: steps) u := by
  induction h with
  | start => exact Walk.start.step hnext
  | step _ hnext' ih => exact ih.step hnext'

end Walk

namespace Position

variable {read : Reader} {limit : Nat} {p q : Position} {steps : List Step}

/-- Every walk without the depths is one with them. -/
theorem exists_walk_of_cursor {c : Cursor}
    (h : Walk (Cursor.next? read limit) p.cursor steps c) :
    ∃ q, Walk (next? read limit) p steps q ∧ q.cursor = c := by
  induction h with
  | start => exact ⟨p, .start, rfl⟩
  | step _ hnext ih =>
    obtain ⟨q, hwalk, rfl⟩ := ih
    rw [next?_cursor] at hnext
    cases hq : q.next? read limit with
    | error e =>
      rw [hq] at hnext
      cases hnext
    | ok next =>
      rw [hq] at hnext
      cases next with
      | none => cases hnext
      | some next =>
        obtain ⟨step, r⟩ := next
        obtain ⟨rfl, rfl⟩ := by simpa [Except.map] using hnext
        exact ⟨r, hwalk.step hq, rfl⟩

theorem Within.walk (h : p.Within limit) (hwalk : Walk (next? read limit) p steps q) :
    q.Within limit ∧ ∀ line, .text line ∈ steps → line.depth ≤ limit := by
  induction hwalk with
  | start => exact ⟨h, by simp⟩
  | step _ hnext ih =>
    obtain ⟨hwithin, hstep⟩ := ih.1.step hnext
    refine ⟨hwithin, fun line hline => ?_⟩
    rcases List.mem_append.mp hline with hline | hline
    · exact ih.2 line hline
    · exact hstep line (List.mem_singleton.mp hline).symm

end Position

namespace Cursor

/-- From every place finitely many steps lead to the end of the document or to an error. -/
theorem exists_walk_to_end (read : Reader) (limit : Nat) (c : Cursor) :
    ∃ steps d, Walk (next? read limit) c steps d ∧
      (d.next? read limit = .ok none ∨ ∃ e, d.next? read limit = .error e) := by
  induction c using (follows_wellFounded limit).induction with
  | _ c ih =>
    cases hnext : c.next? read limit with
    | error e => exact ⟨[], c, .start, Or.inr ⟨e, hnext⟩⟩
    | ok next =>
      cases next with
      | none => exact ⟨[], c, .start, Or.inl hnext⟩
      | some next =>
        obtain ⟨step, d⟩ := next
        obtain ⟨steps, d', hwalk, hend⟩ := ih d ⟨read, step, hnext⟩
        exact ⟨step :: steps, d', hwalk.after_step hnext, hend⟩

end Cursor

/-- **Every document ends, and its files nest no deeper than the limit.** Whatever the files hold,
and even if they include themselves, finitely many steps lead to the end of the document or to an
error. At each place on the way the `i`-th open file, counted from the document itself, has depth
`i`; there are at most `limit + 1` of them; and no line that is still to be read, and no text that
was handed out, is deeper than the limit. -/
theorem documents_end_within_the_include_limit (read : Reader) (limit : Nat) (name : Path)
    (lines : List Text) :
    let start : Cursor := { files := OpenFiles.ofLines name lines }
    (∃ steps c, Walk (Cursor.next? read limit) start steps c ∧
      (c.next? read limit = .ok none ∨ ∃ e, c.next? read limit = .error e)) ∧
    ∀ steps c, Walk (Cursor.next? read limit) start steps c →
      ∃ p, Walk (Position.next? read limit) (Position.ofLines name lines) steps p ∧ p.cursor = c ∧
        (∀ (i : Nat) (f : Frame), p.frames.reverse[i]? = some f → f.depth = i) ∧
        p.frames.length ≤ limit + 1 ∧
        (∀ f ∈ p.frames, ∀ line ∈ f.lines, line.depth ≤ limit) ∧
        (∀ line, p.queued = some line → line.depth ≤ limit) ∧
        ∀ line, .text line ∈ steps → line.depth ≤ limit := by
  intro start
  refine ⟨Cursor.exists_walk_to_end read limit start, fun steps c hwalk => ?_⟩
  have hstart : (Position.ofLines name lines).cursor = start := Position.cursor_ofLines name lines
  rw [← hstart] at hwalk
  obtain ⟨p, hp, hcursor⟩ := Position.exists_walk_of_cursor hwalk
  obtain ⟨hwithin, htexts⟩ := (Position.Within.ofLines limit name lines).walk hp
  exact ⟨p, hp, hcursor, fun i f hf => hwithin.stacked.depth_getElem? hf, hwithin.length_le,
    fun f hf line hline => hwithin.depth_le hf hline, hwithin.queued_le, htexts⟩

/-- A document that includes itself, after the one step that a limit of one allows. -/
theorem self_include_nests_once :
    let read : Reader := fun _ => .ok ["include \"d\"".toList]
    ∃ (c : Cursor) (p : Position), Walk (Cursor.next? read 1)
        { files := OpenFiles.ofLines ⟨['d']⟩ ["include \"d\"".toList] }
        [.splice ['d'] ⟨⟨['d']⟩, 1⟩] c ∧
      p.cursor = c ∧ p.frames.length = 2 ∧
      (∀ (i : Nat) (f : Frame), p.frames.reverse[i]? = some f → f.depth = i) ∧
      c.next? read 1 = .error (.fault ⟨⟨['d']⟩, 1⟩ (.includeTooDeep ⟨['d']⟩ 1)) := by
  intro read
  let c : Cursor := { files :=
    [[⟨"include \"d\"".toList, ⟨⟨['d']⟩, 1⟩, 1⟩], []] }
  have hwalk : Walk (Cursor.next? read 1)
      { files := OpenFiles.ofLines ⟨['d']⟩ ["include \"d\"".toList] }
      [.splice ['d'] ⟨⟨['d']⟩, 1⟩] c := Walk.start.step rfl
  obtain ⟨p, -, hcursor, hdepths, -⟩ :=
    (documents_end_within_the_include_limit read 1 ⟨['d']⟩ ["include \"d\"".toList]).2 _ _ hwalk
  have hlength : p.frames.length = c.files.length := by
    rw [← hcursor]
    exact (List.length_map ..).symm
  exact ⟨c, p, hwalk, hcursor, hlength, hdepths, rfl⟩

end TextExpander
