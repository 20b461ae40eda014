import TextExpander.Proofs.Correspondence

/-!
# Documents compose

A document that goes through leaves nothing behind but its output and its definitions: no text waits
for the end of a call, no definition waits for its end, and what is still open are files of which
nothing is left. So the lines that follow are read as if they were a document of their own, which
starts with these definitions, and what is written for them comes after what was written before.

The lines of the second document have other numbers than if it stood alone. The theorem is therefore
about the second document with its line numbers shifted, and here it says that everything is the
same. How this compares with the second document as it is, is a matter of locations alone
(`Course.moved_splice`).

## Main definitions

* `OpenFiles.shift`: open files with other line numbers.
* `Location.Shifted`: the locations that correspond if the lines of a file are shifted.

## Main results

* `Course.moved_splice`: the course of a file whose lines are shifted.
* `resume_append`: a document whose first lines go through.
* `documents_compose`: a document, and then another.
-/

namespace TextExpander

/-! ### Shifted lines -/

/-- The line with a number that is `k` greater. -/
def SourceLine.shift (k : Nat) (l : SourceLine) : SourceLine :=
  { l with location := { l.location with line := l.location.line + k } }

/-- The open files with numbers of lines that are `k` greater. Files that are opened later are
numbered from one. -/
def OpenFiles.shift (k : Nat) (files : OpenFiles) : OpenFiles :=
  files.map fun lines => lines.map (SourceLine.shift k)

/-- The second location is the first one or, in the file `name`, stands `k` lines below it. -/
def Location.Shifted (name : Path) (k : Nat) (l l' : Location) : Prop :=
  l' = l ∨ l.file = name ∧ l' = { l with line := l.line + k }

theorem SourceLine.map_shift_numberFrom (k : Nat) (file : Path) (depth passed : Nat)
    (lines : List Text) :
    (numberFrom file depth passed lines).map (shift k) =
      numberFrom file depth (passed + k) lines := by
  induction lines generalizing passed with
  | nil => rfl
  | cons text rest ih =>
    rw [numberFrom, numberFrom, List.map_cons, ih, shift]
    simp only [Nat.add_right_comm]

theorem OpenFiles.shift_ofLines (k : Nat) (name : Path) (lines : List Text) :
    (ofLines name lines).shift k = [SourceLine.numberFrom name 0 k lines] := by
  rw [ofLines, shift, List.map_singleton, SourceLine.number_eq_numberFrom,
    SourceLine.map_shift_numberFrom, Nat.zero_add]

/-- **The course of a file whose lines are shifted.** Its own lines move, and the files that it
includes do not. -/
theorem Course.moved_splice {R : Location → Location → Prop} {file : Path} {k : Nat} (read : Reader)
    (limit : Nat) (hrefl : ∀ l, R l l) (hR : ∀ n, R ⟨file, n + 1⟩ ⟨file, n + k + 1⟩)
    (depth passed : Nat) (lines : List Text) :
    (splice read limit file depth passed lines).Moved R
      (splice read limit file depth (passed + k) lines) :=
  (related_splice (.eq read hrefl) hrefl hR (fun _ => rfl) limit depth passed lines).moved

/-! ### One document after another -/

/-- A course that goes through, and then another. -/
theorem Course.play_andThen {σ : Type} {act : σ → Step → σ × Option Error} {c : Course} {s t : σ}
    (h : c.play act s = (t, none)) (d : Course) : (c.andThen d).play act s = d.play act t := by
  have hc : c.failure = none := failure_of_play (congrArg Prod.snd h)
  rw [play_of_ok act hc] at h
  rw [andThen_of_ok hc, play, doSteps_append, h]
  rfl

/-- **A document whose first lines go through.** The lines after them are run from what the first
ones left, which differs from what the run of the first lines ends with in nothing but that this one
has handed its output on. -/
theorem resume_append {settings : Settings} {read : Reader} {name : Path} {first : List Text}
    {p : Progress}
    (h : runDocument settings (fun _ => read) (OpenFiles.ofLines name first) {} = (p, none))
    (rest : List Text) :
    ∃ q : Progress, q.sink.TakesAll ∧ q.sink.bytes = p.sink.bytes ∧ q.table = p.table ∧
      q.pending = none ∧
      runDocument settings (fun _ => read) (OpenFiles.ofLines name (first ++ rest)) {} =
        resume settings (fun _ => read) ((OpenFiles.ofLines name rest).shift first.length) q := by
  let course := splice read settings.includeLimit name 0 0 first
  have hrun : goOn (Progress.finish settings) (course.play (Progress.step settings) {}) =
      (p, none) := by rw [← h, runDocument_eq_play]
  obtain ⟨q, hfailure, hsteps, htakes, hpending, rfl⟩ := Progress.of_goOn_finish hrun
  have hplay : course.play (Progress.step settings) {} = (q, none) := by
    rw [Course.play_of_ok _ hfailure, hsteps]
  have hcontained : SelfContained first := selfContained_of_splice hfailure
  refine ⟨q, htakes, rfl, rfl, hpending, ?_⟩
  rw [runDocument_eq_play, hcontained.splice_append, Course.play_andThen hplay,
    OpenFiles.shift_ofLines, resume_eq_play, Nat.zero_add]

/-- **Documents compose.** If the first of two documents goes through, then the lines of both in one
document write what the first writes, and from there on do exactly what the second does with the
definitions of the first, where the lines of the second have numbers that come after those of the
first: the same output, the same table and the same error. Compared with the second document as it
stands alone, with the definitions of the first, the output is the same; and the table, and the
error if there is one, are the same but for these numbers. -/
theorem documents_compose (settings : Settings) (read : Reader) (name : Path)
    (first rest : List Text) (p : Progress)
    (h : runDocument settings (fun _ => read) (OpenFiles.ofLines name first) {} = (p, none)) :
    let whole := runDocument settings (fun _ => read) (OpenFiles.ofLines name (first ++ rest)) {}
    let shifted := resume settings (fun _ => read)
      ((OpenFiles.ofLines name rest).shift first.length) { table := p.table }
    let alone := resume settings (fun _ => read) (OpenFiles.ofLines name rest) { table := p.table }
    (whole.1.sink.bytes = p.sink.bytes ++ shifted.1.sink.bytes ∧
      whole.1.table = shifted.1.table ∧ whole.2 = shifted.2) ∧
    (shifted.1.sink.bytes = alone.1.sink.bytes ∧
      alone.1.table.Moved (Location.Shifted name first.length) shifted.1.table ∧
      Option.Rel (Error.Moved (Location.Shifted name first.length)) alone.2 shifted.2) := by
  intro whole shifted alone
  let course := splice read settings.includeLimit name 0 first.length rest
  have hshifted : ∀ q, resume settings (fun _ => read)
      ((OpenFiles.ofLines name rest).shift first.length) q =
        goOn (Progress.finish settings) (course.play (Progress.step settings) q) := by
    intro q
    rw [OpenFiles.shift_ofLines, resume_eq_play]
  constructor
  · obtain ⟨q, htakes, hbytes, htable, hpending, hwhole⟩ := resume_append h rest
    have hstart : Progress.Moved Eq p.sink.bytes { table := p.table } q := by
      refine ⟨⟨rfl, rfl⟩, htakes, ?_, ?_, ?_⟩
      · rw [hbytes]
        exact (List.append_nil _).symm
      · rw [htable]
        exact .refl (fun _ => rfl) _
      · rw [hpending]
        exact .none
    obtain ⟨hmoved, hfailure⟩ : Progress.MovedOutcome Eq p.sink.bytes shifted whole := by
      rw [show whole = _ from hwhole, show shifted = _ from hshifted _, hshifted]
      exact moved_goOn_play hstart (.refl (fun _ => rfl) _)
    refine ⟨hmoved.bytes, hmoved.table.eq.symm, ?_⟩
    generalize whole.2 = failure', shifted.2 = failure at hfailure ⊢
    cases hfailure with
    | none => rfl
    | some he => rw [he.eq]
  · have hrefl : ∀ l, Location.Shifted name first.length l l := fun l => .inl rfl
    have hstart : Progress.Moved (Location.Shifted name first.length) [] { table := p.table }
        { table := p.table } := .refl hrefl ⟨rfl, rfl⟩
    have hcourse : (splice read settings.includeLimit name 0 0 rest).Moved
        (Location.Shifted name first.length) course := by
      have hlines : ∀ n, Location.Shifted name first.length ⟨name, n + 1⟩
          ⟨name, n + first.length + 1⟩ := fun n => .inr ⟨rfl, by rw [Nat.add_right_comm]⟩
      have hsplice := Course.moved_splice read settings.includeLimit hrefl hlines 0 0 rest
      rwa [Nat.zero_add] at hsplice
    obtain ⟨hmoved, hfailure⟩ :
        Progress.MovedOutcome (Location.Shifted name first.length) [] alone shifted := by
      rw [show shifted = _ from hshifted _,
        show alone = resume settings (fun _ => read) (OpenFiles.ofLines name rest) _ from rfl,
        OpenFiles.ofLines, SourceLine.number_eq_numberFrom, resume_eq_play]
      exact moved_goOn_play hstart hcourse
    exact ⟨hmoved.bytes, hmoved.table, hfailure⟩

/-- The second document calls what the first one defines, and then defines it again, which is
refused at the fourth line of the two. -/
theorem second_document_defines_again :
    let whole := runDocument {} (fun _ _ => .error .absent) (OpenFiles.ofLines ⟨['d']⟩
      (["define f() x endmacro".toList, "a".toList] ++
        ["f()".toList, "define f() y endmacro".toList])) {}
    whole.1.sink.bytes = Utf8.encode "a\nx\n".toList ∧
      whole.2 = some (.fault ⟨⟨['d']⟩, 4⟩ (.redefinition ['f'] ⟨⟨['d']⟩, 1⟩)) := by
  intro whole
  let reading : Progress → Reader := fun _ _ => .error .absent
  let d : Path := ⟨['d']⟩
  let first := ["define f() x endmacro".toList, "a".toList]
  let rest := ["f()".toList, "define f() y endmacro".toList]
  let f : Definition := ⟨['f'], [], ['x'], ⟨d, 1⟩⟩
  let table := Table.empty.put f
  let done : Progress := { table, sink := (Sink.write {} ["a".toList, ['\n']]).1 }
  let called : Progress := { table, sink := (Sink.write {} ["x".toList, ['\n']]).1 }
  have hfirst : runDocument {} (fun _ _ => .error .absent) (OpenFiles.ofLines d first) {} =
      ({ done with sink := { done.sink with held := 0 } }, none) := by
    let line : SourceLine := ⟨"a".toList, ⟨d, 2⟩, 0⟩
    have hdefine : Cursor.next? (reading {}) 10 { files := OpenFiles.ofLines d first } =
        .ok (some (.define f, { files := [[line]] })) := by decide +kernel
    have hline : Cursor.next? (reading { table }) 10 { files := [[line]] } =
        .ok (some (.text line, { files := [[]] })) := by rfl
    have hstep : Progress.step {} { table } (.text line) = (done, none) := by
      have hexpand : expand table 10 "a".toList = .ok "a".toList := by decide +kernel
      exact Progress.addText_of_written rfl (by decide +kernel) hexpand rfl
    have hfeed : Cursor.feed reading 10 (Progress.step {})
        { files := OpenFiles.ofLines d first } {} = (done, none) := by
      rw [Cursor.feed_of_taken hdefine rfl, Cursor.feed_of_taken hline hstep,
        Cursor.feed_of_end rfl]
    exact runDocument_of_feed_end hfeed rfl
  have hshifted : resume {} (fun _ _ => .error .absent) ((OpenFiles.ofLines d rest).shift 2)
      { table } = (called, some (.fault ⟨d, 4⟩ (.redefinition ['f'] ⟨d, 1⟩))) := by
    let line : SourceLine := ⟨"f()".toList, ⟨d, 3⟩, 0⟩
    let header : SourceLine := ⟨"define f() y endmacro".toList, ⟨d, 4⟩, 0⟩
    have hline : Cursor.next? (reading { table }) 10
        { files := (OpenFiles.ofLines d rest).shift 2 } =
          .ok (some (.text line, { files := [[header]] })) := by rfl
    have hdefine : Cursor.next? (reading called) 10 { files := [[header]] } =
        .ok (some (.define ⟨['f'], [], ['y'], ⟨d, 4⟩⟩, { files := [[]] })) := by decide +kernel
    have hstep : Progress.step {} { table } (.text line) = (called, none) := by
      have hexpand : expand table 10 "f()".toList = .ok "x".toList := by decide +kernel
      exact Progress.addText_of_written rfl (by decide +kernel) hexpand rfl
    have hfeed : Cursor.feed reading 10 (Progress.step {})
        { files := (OpenFiles.ofLines d rest).shift 2 } { table } =
          (called, some (.fault ⟨d, 4⟩ (.redefinition ['f'] ⟨d, 1⟩))) := by
      rw [Cursor.feed_of_taken hline hstep, Cursor.feed_of_refused hdefine rfl]
    rw [resume, hfeed]
    rfl
  obtain ⟨⟨hbytes, -, hfailure⟩, -⟩ :=
    documents_compose {} (fun _ => .error .absent) d first rest _ hfirst
  constructor
  · refine hbytes.trans ?_
    rw [show first.length = 2 from rfl, show (Progress.table _) = table from rfl, hshifted]
    decide +kernel
  · exact hfailure.trans (congrArg Prod.snd hshifted)

end TextExpander
