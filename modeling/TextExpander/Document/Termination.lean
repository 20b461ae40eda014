import TextExpander.Document

/-!
# Every document ends

A file may include itself, and nothing keeps count of the files that were seen. A file may even have
other lines each time that it is read. Still no document goes on for ever: each included line is one
level deeper, and the limit bounds the levels. Reading a step removes lines from the innermost file,
or replaces one line by the lines of a file that are one level deeper, so it is the budget of levels
that is left, and within one level the number of lines, that goes down.

## Main definitions

* `Cursor.Follows`: the place after one step.
* `Cursor.feed`: handing the steps of a document on, one by one, to the end or to the first error.

## Main results

* `Cursor.follows_wellFounded`: no document has an endless sequence of steps.
-/

namespace TextExpander

namespace Cursor

variable {limit : Nat}

/-- One step leads from the place `c` to the place `d`, whatever the files hold at that time. -/
def Follows (limit : Nat) (d c : Cursor) : Prop :=
  ∃ read step, c.next? read limit = .ok (some (step, d))

/-! ### What a step does to the open files -/

theorem depth_of_mem_number {file : Path} {depth : Nat} {lines : List Text} {l : SourceLine}
    (h : l ∈ SourceLine.number file depth lines) : l.depth = depth := by
  obtain ⟨i, hi, rfl⟩ := List.mem_mapIdx.mp h
  rfl

theorem follows_queued_iff {files : OpenFiles} {line : SourceLine} {d : Cursor} :
    Follows limit d ⟨files, some line⟩ ↔ d = ⟨files, none⟩ := by
  simp [Follows, next?, eq_comm]

theorem follows_nil {d : Cursor} : ¬ Follows limit d ⟨[], none⟩ := by
  simp [Follows, next?, OpenFiles.next?]

theorem follows_ended_iff {outer : OpenFiles} {d : Cursor} :
    Follows limit d ⟨[] :: outer, none⟩ ↔ Follows limit d ⟨outer, none⟩ := by
  simp [Follows, next?, OpenFiles.next?]

/-- **What one line leads to.** A step from a place with a line before it either drops some lines
of the innermost file, or puts the lines of a file in front that are one level deeper. -/
theorem follows_cons {line : SourceLine} {lines : List SourceLine} {outer : OpenFiles} {d : Cursor}
    (h : Follows limit d ⟨(line :: lines) :: outer, none⟩) :
    (∃ n, d.files = lines.drop n :: outer) ∨
      (line.depth + 1 ≤ limit ∧ d.queued = none ∧ ∃ file texts,
        d.files = SourceLine.number file (line.depth + 1) texts :: lines :: outer) := by
  obtain ⟨read, step, h⟩ := h
  simp only [next?, OpenFiles.next?] at h
  split at h
  · next named hnamed =>
    right
    split at h
    · cases h
    · next spliced hspliced =>
      obtain ⟨-, rfl⟩ := by simpa using h
      simp only [OpenFiles.splice] at hspliced
      split at hspliced
      · cases hspliced
      · next hdepth =>
        split at hspliced
        · next texts htexts =>
          obtain rfl := by simpa using hspliced
          exact ⟨by omega, rfl, _, _, rfl⟩
        · cases hspliced
  · left
    split at h
    · split at h
      · cases h
      · next used _ =>
        obtain ⟨-, rfl⟩ := by simpa using h
        exact ⟨used, rfl⟩
    · obtain ⟨-, rfl⟩ := by simpa using h
      exact ⟨0, rfl⟩

/-! ### Accessibility -/

theorem acc_of_queued {files : OpenFiles} (queued : Option SourceLine)
    (h : Acc (Follows limit) ⟨files, none⟩) : Acc (Follows limit) ⟨files, queued⟩ := by
  cases queued with
  | none => exact h
  | some line => exact Acc.intro _ fun d hd => follows_queued_iff.mp hd ▸ h

/-- A file in front of a document that ends gives a document that ends, if `budget` levels are
enough for its lines. -/
theorem acc_cons (budget : Nat) (lines : List SourceLine) (outer : OpenFiles)
    (hlines : ∀ l ∈ lines, limit < l.depth + budget)
    (houter : Acc (Follows limit) ⟨outer, none⟩) :
    Acc (Follows limit) ⟨lines :: outer, none⟩ := by
  induction budget generalizing lines outer with
  | zero =>
    induction hn : lines.length using Nat.strongRecOn generalizing lines with
    | ind n ih =>
      cases lines with
      | nil => exact Acc.intro _ fun d hd => houter.inv (follows_ended_iff.mp hd)
      | cons line lines =>
        refine Acc.intro _ fun d hd => ?_
        obtain ⟨k, hk⟩ | ⟨hdepth, -⟩ := follows_cons hd
        · obtain ⟨files, queued⟩ := d
          obtain rfl : files = _ := hk
          refine acc_of_queued queued (ih _ ?_ _ (fun l hl => ?_) rfl)
          · simp at hn ⊢
            omega
          · exact hlines l (List.mem_cons_of_mem _ (List.mem_of_mem_drop hl))
        · have := hlines line List.mem_cons_self
          omega
  | succ budget ihbudget =>
    induction hn : lines.length using Nat.strongRecOn generalizing lines with
    | ind n ih =>
      cases lines with
      | nil => exact Acc.intro _ fun d hd => houter.inv (follows_ended_iff.mp hd)
      | cons line lines =>
        have hdrop : ∀ k, Acc (Follows limit) ⟨lines.drop k :: outer, none⟩ := fun k => by
          refine ih _ ?_ _ (fun l hl => ?_) rfl
          · simp at hn ⊢
            omega
          · exact hlines l (List.mem_cons_of_mem _ (List.mem_of_mem_drop hl))
        refine Acc.intro _ fun d hd => ?_
        obtain ⟨k, hk⟩ | ⟨-, hqueued, file, texts, hfiles⟩ := follows_cons hd
        · obtain ⟨files, queued⟩ := d
          obtain rfl : files = _ := hk
          exact acc_of_queued queued (hdrop k)
        · obtain ⟨files, queued⟩ := d
          obtain rfl : files = _ := hfiles
          obtain rfl : queued = none := hqueued
          refine ihbudget _ _ (fun l hl => ?_) (hdrop 0)
          have := hlines line List.mem_cons_self
          rw [depth_of_mem_number hl]
          omega

/-- **Every document ends.** There is no endless sequence of steps, whatever the files include. -/
theorem follows_wellFounded (limit : Nat) : WellFounded (Follows limit) := by
  refine ⟨fun ⟨files, queued⟩ => acc_of_queued queued ?_⟩
  induction files with
  | nil => exact Acc.intro _ fun d hd => absurd hd follows_nil
  | cons lines outer ih => exact acc_cons (limit + 1) lines outer (fun l _ => by omega) ih

/-! ### Handing the steps on -/

/-- Hands the steps of a document on to `act`, one by one, until it reports an error, the document
cannot be read on, or it ends. What a file holds may depend on what was done before it is read. -/
def feed {σ : Type} (read : σ → Reader) (limit : Nat) (act : σ → Step → σ × Option Error)
    (c : Cursor) (s : σ) : σ × Option Error :=
  match _hnext : c.next? (read s) limit with
  | .error e => (s, some e)
  | .ok none => (s, none)
  | .ok (some (step, d)) =>
    match act s step with
    | (s', some e) => (s', some e)
    | (s', none) => feed read limit act d s'
termination_by (follows_wellFounded limit).wrap c
decreasing_by exact ⟨read s, step, _hnext⟩

variable {σ : Type} {read : σ → Reader} {act : σ → Step → σ × Option Error} {c d : Cursor} {s : σ}

theorem feed_of_error {e : Error} (h : c.next? (read s) limit = .error e) :
    feed read limit act c s = (s, some e) := by
  rw [feed]
  split <;> simp_all

theorem feed_of_end (h : c.next? (read s) limit = .ok none) :
    feed read limit act c s = (s, none) := by
  rw [feed]
  split <;> simp_all

theorem feed_of_step {step : Step} (h : c.next? (read s) limit = .ok (some (step, d))) :
    feed read limit act c s =
      match act s step with
      | (s', some e) => (s', some e)
      | (s', none) => feed read limit act d s' := by
  rw [feed]
  split
  · simp_all
  · simp_all
  · next step' d' h' =>
    obtain ⟨rfl, rfl⟩ : step = step' ∧ d = d' := by simpa [h] using h'
    rfl

/-- A step that is taken leads on. -/
theorem feed_of_taken {step : Step} {t : σ} (h : c.next? (read s) limit = .ok (some (step, d)))
    (hact : act s step = (t, none)) : feed read limit act c s = feed read limit act d t := by
  rw [feed_of_step h, hact]

/-- A step that is refused is the last. -/
theorem feed_of_refused {step : Step} {t : σ} {e : Error}
    (h : c.next? (read s) limit = .ok (some (step, d))) (hact : act s step = (t, some e)) :
    feed read limit act c s = (t, some e) := by
  rw [feed_of_step h, hact]

end Cursor

end TextExpander
