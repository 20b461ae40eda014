import Mathlib.Data.List.TakeWhile
import Mathlib.Tactic.SplitIfs
import TextExpander.Document.Termination

/-!
# Every line once

Lines are asked for in two ways, for the next line of the document and for the next line of the
innermost file, and files are included in between. Whoever asks may do so in any order, and may
include a file for any line, also for one that was read long ago. Still no line is lost, none comes
twice, and each has the file, number and depth that belong to it.

Open files do not say which lines were read, nor which of the files that were ever opened they are.
So a history is kept beside them. It gives each file a number when the file is opened, and records
for each line that is returned the number of its file. Forgetting the history leaves the calls on
open files as they are (`History.files_perform`), and so it only tells what happens anyway.

What all calls keep is an account: the lines that were returned from a file, and those that are not
read yet, are together the lines of the file. A file that is not open any more has no lines left.

What the lines of a file are is said here by the place of each text in the file (`Opening.lines`).
That opening a file numbers them so is a theorem (`Opening.lines_eq_number`).

## Main definitions

* `Call`, `Reply`, `OpenFiles.perform`: what is asked of open files, and the answer.
* `Opening`: a file at the moment when it is opened.
* `History`: the files opened so far, and the lines returned from each.
* `History.Kept`: the account.

## Main results

* `History.files_perform`: the history is one of the open files.
* `History.Kept.perform`: every call keeps the account.
* `every_line_is_returned_once`: lines, their order, their ends, and their labels, over all
  sequences of calls.
-/

namespace TextExpander

/-! ### Calls -/

/-- What is asked of open files. -/
inductive Call where
  /-- The next line of the document. -/
  | next
  /-- The next line of the innermost file. -/
  | nextInFile
  /-- To include a file, for a line that names it. -/
  | splice (directive : SourceLine) (named : Text)
  deriving DecidableEq, Repr

/-- The answer to a call. -/
inductive Reply where
  /-- A line. -/
  | line (line : SourceLine)
  /-- There is no line. -/
  | ended
  /-- The file is included. -/
  | spliced
  /-- The file is not included. -/
  | refused (e : Error)
  deriving DecidableEq, Repr

/-- The line of an answer, if it is one. -/
def Reply.line? : Reply → Option SourceLine
  | .line l => some l
  | .ended => none
  | .spliced => none
  | .refused _ => none

/-- The open files after a call, and the answer. If there is no next line, then all files are left.
-/
def OpenFiles.perform (read : Reader) (limit : Nat) (files : OpenFiles) : Call → OpenFiles × Reply
  | .next =>
    match files.next? with
    | some (line, files) => (files, .line line)
    | none => ([], .ended)
  | .nextInFile =>
    match files.nextInFile? with
    | some (line, files) => (files, .line line)
    | none => (files, .ended)
  | .splice directive named =>
    match files.splice read limit directive named with
    | .ok files => (files, .spliced)
    | .error e => (files, .refused e)

/-- Performs calls one after the other, and gives all the answers. -/
def performAll {σ : Type} (perform : σ → Call → σ × Reply) : List Call → σ → σ × List Reply
  | [], s => (s, [])
  | call :: rest, s =>
    let (t, reply) := perform s call
    let (u, replies) := performAll perform rest t
    (u, reply :: replies)

/-- One call more. -/
theorem performAll_concat {σ : Type} (perform : σ → Call → σ × Reply) (calls : List Call)
    (call : Call) (s : σ) :
    performAll perform (calls ++ [call]) s =
      ((perform (performAll perform calls s).1 call).1,
        (performAll perform calls s).2 ++ [(perform (performAll perform calls s).1 call).2]) := by
  induction calls generalizing s with
  | nil => rfl
  | cons first calls ih => simp only [List.cons_append, performAll, ih]

/-- One call more that changes nothing: the answer to it is all that it adds. -/
theorem performAll_concat_of_unchanged {σ : Type} {perform : σ → Call → σ × Reply}
    {calls : List Call} {call : Call} {reply : Reply} {s : σ}
    (h : perform (performAll perform calls s).1 call = ((performAll perform calls s).1, reply)) :
    performAll perform (calls ++ [call]) s =
      ((performAll perform calls s).1, (performAll perform calls s).2 ++ [reply]) := by
  rw [performAll_concat, h]

/-! ### Openings -/

/-- A file at the moment when it is opened. -/
structure Opening where
  /-- Its path. -/
  file : Path
  /-- Its include depth. -/
  depth : Nat
  /-- Its lines. -/
  texts : List Text
  deriving DecidableEq, Repr

/-- The lines of the file: each text with its place, counted from one, and with the path and depth
of the file. -/
def Opening.lines (o : Opening) : List SourceLine :=
  o.texts.zipIdx.map fun (text, k) => ⟨text, ⟨o.file, k + 1⟩, o.depth⟩

/-- The file that an `include` line opens. -/
def Opening.ofDirective (read : Reader) (limit : Nat) (directive : SourceLine) (named : Text) :
    Except Error Opening :=
  let path := directive.location.file.resolve named
  let depth := directive.depth + 1
  if limit < depth then .error (.fault directive.location (.includeTooDeep path limit))
  else
    match read path with
    | .ok texts => .ok ⟨path, depth, texts⟩
    | .error reason => .error (.fault directive.location (.includeNotFound path reason))

/-- The file that a call opens, if it opens one. -/
def Call.opens? (read : Reader) (limit : Nat) : Call → Option Opening
  | .splice directive named => (Opening.ofDirective read limit directive named).toOption
  | .next => none
  | .nextInFile => none

theorem Opening.lines_eq_number (o : Opening) :
    o.lines = SourceLine.number o.file o.depth o.texts := by
  rw [lines, SourceLine.number, List.mapIdx_eq_zipIdx_map]

@[simp]
theorem Opening.length_lines (o : Opening) : o.lines.length = o.texts.length := by
  rw [lines, List.length_map, List.length_zipIdx]

/-- What the line at a place of the file is. -/
theorem Opening.getElem?_lines_eq_some_iff (o : Opening) (k : Nat) (line : SourceLine) :
    o.lines[k]? = some line ↔
      o.texts[k]? = some line.text ∧ line.location = ⟨o.file, k + 1⟩ ∧ line.depth = o.depth := by
  obtain ⟨text, location, depth⟩ := line
  rw [lines, List.getElem?_map, List.getElem?_zipIdx]
  rcases o.texts[k]? with _ | text'
  · simp
  · simp [eq_comm]

theorem OpenFiles.splice_eq_map (read : Reader) (limit : Nat) (directive : SourceLine)
    (named : Text) (files : OpenFiles) :
    files.splice read limit directive named =
      (Opening.ofDirective read limit directive named).map fun o => o.lines :: files := by
  simp only [splice, Opening.ofDirective]
  split_ifs
  · rfl
  · rcases read (directive.location.file.resolve named) with reason | texts
    · rfl
    · simp only [Except.map, Opening.lines_eq_number]

theorem Opening.depth_le {read : Reader} {limit : Nat} {directive : SourceLine} {named : Text}
    {o : Opening} (h : ofDirective read limit directive named = .ok o) : o.depth ≤ limit := by
  simp only [ofDirective] at h
  split_ifs at h with hdeep
  rcases hread : read (directive.location.file.resolve named) with reason | texts
  · rw [hread] at h
    cases h
  · rw [hread] at h
    cases h
    exact Nat.le_of_not_lt hdeep

/-! ### The next line of the document

It is the next line of the innermost file, after the files at their end were left. -/

namespace OpenFiles

theorem next?_eq_nextInFile? (files : OpenFiles) :
    files.next? = nextInFile? (files.dropWhile List.isEmpty) := by
  fun_induction next? files with
  | case1 => rfl
  | case2 outer ih => exact ih
  | case3 line lines outer => rfl

theorem eq_nil_of_nextInFile?_dropWhile {files : OpenFiles}
    (h : nextInFile? (files.dropWhile List.isEmpty) = none) :
    files.dropWhile List.isEmpty = [] := by
  rw [← next?_eq_nextInFile?] at h
  fun_induction next? files with
  | case1 => rfl
  | case2 outer ih => exact ih h
  | case3 line lines outer => cases h

theorem perform_next (read : Reader) (limit : Nat) (files : OpenFiles) :
    files.perform read limit .next =
      perform read limit (files.dropWhile List.isEmpty) .nextInFile := by
  rw [perform, perform, next?_eq_nextInFile?]
  rcases hnext : nextInFile? (files.dropWhile List.isEmpty) with _ | ⟨line, files'⟩
  · rw [eq_nil_of_nextInFile?_dropWhile hnext]
  · rfl

end OpenFiles

/-! ### Histories -/

/-- What happened to the files of a document so far. -/
structure History where
  /-- The files that were opened, in order. -/
  openings : List Opening
  /-- The files that are open, the innermost first: their numbers among those that were opened, and
  the lines that are not read yet. -/
  stack : List (Nat × List SourceLine)
  /-- The lines that were returned, in order, with the numbers of their files. -/
  returned : List (Nat × SourceLine) := []
  deriving DecidableEq, Repr

namespace History

/-- The history of a document of which nothing is read yet. -/
def start (name : Path) (lines : List Text) : History where
  openings := [⟨name, 0, lines⟩]
  stack := [(0, Opening.lines ⟨name, 0, lines⟩)]

/-- The open files, with the history forgotten. -/
def files (h : History) : OpenFiles :=
  h.stack.map Prod.snd

/-- The lines that were returned from a file. -/
def returnedFrom (h : History) (i : Nat) : List SourceLine :=
  (h.returned.filter fun x => x.1 == i).map Prod.snd

/-- No lines are left of a file: as many were returned as it has. -/
def Exhausted (h : History) (i : Nat) : Prop :=
  ∀ o, h.openings[i]? = some o → (h.returnedFrom i).length = o.texts.length

/-- The innermost file that is open. -/
def innermost? (h : History) : Option Nat :=
  h.stack.head?.map Prod.fst

/-- Leaves the innermost files that are at their end. -/
def leave (h : History) : History :=
  { h with stack := h.stack.dropWhile fun x => x.2.isEmpty }

/-- Returns the next line of the innermost file. -/
def take (h : History) : History × Reply :=
  match h.stack with
  | (i, line :: lines) :: outer =>
    ({ h with stack := (i, lines) :: outer, returned := h.returned ++ [(i, line)] }, .line line)
  | _ => (h, .ended)

/-- Opens a file. -/
def add (h : History) (o : Opening) : History :=
  { h with openings := h.openings ++ [o], stack := (h.openings.length, o.lines) :: h.stack }

/-- The history after a call, and the answer. -/
def perform (read : Reader) (limit : Nat) (h : History) : Call → History × Reply
  | .next => h.leave.take
  | .nextInFile => h.take
  | .splice directive named =>
    match Opening.ofDirective read limit directive named with
    | .ok o => (h.add o, .spliced)
    | .error e => (h, .refused e)

variable {read : Reader} {limit : Nat} {h : History}

/-! ### Forgetting the history -/

theorem files_start (name : Path) (lines : List Text) :
    (start name lines).files = OpenFiles.ofLines name lines :=
  congrArg (fun l => [l]) (Opening.lines_eq_number ⟨name, 0, lines⟩)

theorem files_leave (h : History) : h.leave.files = h.files.dropWhile List.isEmpty := by
  rw [files, files, leave, List.dropWhile_map]
  rfl

theorem files_take (read : Reader) (limit : Nat) (h : History) :
    (h.take.1.files, h.take.2) = h.files.perform read limit .nextInFile := by
  obtain ⟨openings, stack, returned⟩ := h
  rcases stack with _ | ⟨⟨i, _ | ⟨line, lines⟩⟩, outer⟩ <;> rfl

/-- **The history is one of the open files**: one call. -/
theorem files_perform (read : Reader) (limit : Nat) (h : History) (call : Call) :
    ((h.perform read limit call).1.files, (h.perform read limit call).2) =
      h.files.perform read limit call := by
  cases call with
  | next =>
    rw [OpenFiles.perform_next, ← files_leave]
    exact files_take read limit h.leave
  | nextInFile => exact files_take read limit h
  | splice directive named =>
    rw [perform, OpenFiles.perform, OpenFiles.splice_eq_map]
    rcases Opening.ofDirective read limit directive named with e | o <;> rfl

/-- All calls. -/
theorem files_performAll (read : Reader) (limit : Nat) (calls : List Call) (h : History) :
    ((performAll (perform read limit) calls h).1.files,
        (performAll (perform read limit) calls h).2) =
      performAll (OpenFiles.perform read limit) calls h.files := by
  induction calls generalizing h with
  | nil => rfl
  | cons call calls ih => simp only [performAll, ← files_perform read limit h call, ← ih]

/-! ### Calls that fail -/

theorem perform_nextInFile_of_none (hend : h.files.nextInFile? = none) :
    h.perform read limit .nextInFile = (h, .ended) := by
  obtain ⟨openings, stack, returned⟩ := h
  rcases stack with _ | ⟨⟨i, _ | ⟨line, lines⟩⟩, outer⟩
  · rfl
  · rfl
  · cases hend

theorem perform_splice_of_error {directive : SourceLine} {named : Text} {e : Error}
    (he : h.files.splice read limit directive named = .error e) :
    h.perform read limit (.splice directive named) = (h, .refused e) := by
  rw [OpenFiles.splice_eq_map] at he
  rw [perform]
  rcases ho : Opening.ofDirective read limit directive named with e' | o
  · rw [ho] at he
    cases he
    rfl
  · rw [ho] at he
    cases he

/-! ### What a history records -/

theorem returned_take (h : History) :
    h.take.1.returned.map Prod.snd = h.returned.map Prod.snd ++ h.take.2.line?.toList := by
  obtain ⟨openings, stack, returned⟩ := h
  rcases stack with _ | ⟨⟨i, _ | ⟨line, lines⟩⟩, outer⟩
  · exact (List.append_nil _).symm
  · exact (List.append_nil _).symm
  · exact List.map_append

theorem openings_take (h : History) : h.take.1.openings = h.openings := by
  obtain ⟨openings, stack, returned⟩ := h
  rcases stack with _ | ⟨⟨i, _ | ⟨line, lines⟩⟩, outer⟩ <;> rfl

theorem returned_perform (read : Reader) (limit : Nat) (h : History) (call : Call) :
    (h.perform read limit call).1.returned.map Prod.snd =
      h.returned.map Prod.snd ++ (h.perform read limit call).2.line?.toList := by
  cases call with
  | next => exact returned_take h.leave
  | nextInFile => exact returned_take h
  | splice directive named =>
    rw [perform]
    rcases Opening.ofDirective read limit directive named with e | o <;>
      exact (List.append_nil _).symm

theorem openings_perform (read : Reader) (limit : Nat) (h : History) (call : Call) :
    (h.perform read limit call).1.openings =
      h.openings ++ (call.opens? read limit).toList := by
  cases call with
  | next => exact (openings_take h.leave).trans (List.append_nil _).symm
  | nextInFile => exact (openings_take h).trans (List.append_nil _).symm
  | splice directive named =>
    rw [perform, Call.opens?]
    rcases Opening.ofDirective read limit directive named with e | o
    · exact (List.append_nil _).symm
    · rfl

/-- The lines that are recorded are those of the answers, and the files that are recorded are those
that the calls open. -/
theorem records_performAll (read : Reader) (limit : Nat) (calls : List Call) (h : History) :
    let record := performAll (perform read limit) calls h
    record.1.returned.map Prod.snd =
        h.returned.map Prod.snd ++ record.2.filterMap Reply.line? ∧
      record.1.openings = h.openings ++ calls.filterMap (Call.opens? read limit) := by
  induction calls generalizing h with
  | nil => exact ⟨(List.append_nil _).symm, (List.append_nil _).symm⟩
  | cons call calls ih =>
    obtain ⟨hreturned, hopenings⟩ := ih (h.perform read limit call).1
    simp only [performAll]
    constructor
    · rw [hreturned, returned_perform, List.append_assoc, ← List.singleton_append,
        List.filterMap_append]
      rcases (h.perform read limit call).2 with l | _ | _ | e <;> rfl
    · rw [hopenings, openings_perform, List.append_assoc, ← List.singleton_append,
        List.filterMap_append]
      simp only [List.filterMap_cons, List.filterMap_nil]
      rcases call.opens? read limit with _ | o <;> rfl

/-! ### The account -/

/-- The account of a history. -/
structure Kept (limit : Nat) (h : History) : Prop where
  /-- Files that were opened later are further inside. -/
  ordered : h.stack.Pairwise fun inner outer => outer.1 < inner.1
  /-- What was returned from an open file and what is not read yet are together its lines. -/
  unread : ∀ i lines, (i, lines) ∈ h.stack →
    ∃ o, h.openings[i]? = some o ∧ h.returnedFrom i ++ lines = o.lines
  /-- A file that is not open has no lines left. -/
  left : ∀ i, (∀ lines, (i, lines) ∉ h.stack) →
    ∀ o, h.openings[i]? = some o → h.returnedFrom i = o.lines
  /-- Lines are returned from files that were opened. -/
  labelled : ∀ x ∈ h.returned, x.1 < h.openings.length
  /-- No file is deeper than the limit. -/
  shallow : ∀ o ∈ h.openings, o.depth ≤ limit

theorem kept_start (limit : Nat) (name : Path) (lines : List Text) :
    (start name lines).Kept limit := by
  refine ⟨List.pairwise_singleton _ _, ?_, ?_, by simp [start], ?_⟩
  · intro i unread hmem
    obtain ⟨rfl, rfl⟩ := Prod.mk.inj (List.mem_singleton.mp hmem)
    exact ⟨⟨name, 0, lines⟩, rfl, rfl⟩
  · intro i hclosed o ho
    have hi : i ≠ 0 := by
      rintro rfl
      exact hclosed _ List.mem_cons_self
    rw [start, List.getElem?_singleton, if_neg hi] at ho
    cases ho
  · intro o ho
    obtain rfl := List.mem_singleton.mp ho
    exact Nat.zero_le limit

/-- Leaving files that are at their end. -/
theorem Kept.leave (hh : h.Kept limit) : h.leave.Kept limit := by
  refine ⟨hh.ordered.sublist (List.dropWhile_sublist _), ?_, ?_, hh.labelled, hh.shallow⟩
  · intro i lines hmem
    exact hh.unread i lines ((List.dropWhile_sublist _).mem hmem)
  · intro i hclosed o ho
    -- A file that was open and is left now stood among those at their end.
    by_cases hopen : ∃ lines, (i, lines) ∈ h.stack
    · obtain ⟨lines, hmem⟩ := hopen
      obtain ⟨o', ho', hlines⟩ := hh.unread i lines hmem
      obtain rfl : o = o' := Option.some.inj (ho.symm.trans ho')
      rw [← List.takeWhile_append_dropWhile (p := fun x => x.2.isEmpty) (l := h.stack)] at hmem
      rcases List.mem_append.mp hmem with hended | hkept
      · have hnil : lines.isEmpty :=
          List.mem_takeWhile_imp (p := fun x : Nat × List SourceLine => x.2.isEmpty) hended
        rw [List.isEmpty_iff] at hnil
        rw [hnil, List.append_nil] at hlines
        exact hlines
      · exact absurd hkept (hclosed lines)
    · exact hh.left i (fun lines hmem => hopen ⟨lines, hmem⟩) o ho

theorem returnedFrom_concat (h : History) (stack : List (Nat × List SourceLine)) (i j : Nat)
    (line : SourceLine) :
    returnedFrom { h with stack, returned := h.returned ++ [(i, line)] } j =
      h.returnedFrom j ++ if i = j then [line] else [] := by
  rw [returnedFrom, returnedFrom, List.filter_append, List.map_append]
  split_ifs with hij
  · simp [hij]
  · simp [hij]

/-- Returning a line. -/
theorem Kept.advance (hh : h.Kept limit) {i : Nat} {line : SourceLine} {lines : List SourceLine}
    {outer : List (Nat × List SourceLine)} (hstack : h.stack = (i, line :: lines) :: outer) :
    Kept limit { h with stack := (i, lines) :: outer, returned := h.returned ++ [(i, line)] } := by
  obtain ⟨o, ho, hlines⟩ := hh.unread i (line :: lines) (by rw [hstack]; exact List.mem_cons_self)
  obtain ⟨hinner, houter⟩ := List.pairwise_cons.mp (hstack ▸ hh.ordered)
  have hopen : ∀ j unread, (j, unread) ∈ outer → (j, unread) ∈ h.stack := by
    intro j unread hmem
    rw [hstack]
    exact List.mem_cons_of_mem _ hmem
  refine ⟨List.pairwise_cons.mpr ⟨hinner, houter⟩, ?_, ?_, ?_, hh.shallow⟩
  · intro j unread hmem
    rw [returnedFrom_concat]
    rcases List.mem_cons.mp hmem with heq | hmem
    · obtain ⟨rfl, rfl⟩ := Prod.mk.inj heq
      refine ⟨o, ho, ?_⟩
      rw [if_pos rfl, List.append_assoc]
      exact hlines
    · -- The files further out were opened before, so the line is of none of them.
      have hij : i ≠ j := Nat.ne_of_gt (hinner _ hmem)
      rw [if_neg hij, List.append_nil]
      exact hh.unread j unread (hopen j unread hmem)
  · intro j hclosed o' ho'
    have hij : i ≠ j := by
      rintro rfl
      exact hclosed lines List.mem_cons_self
    rw [returnedFrom_concat, if_neg hij, List.append_nil]
    refine hh.left j (fun unread hmem => ?_) o' ho'
    rw [hstack] at hmem
    rcases List.mem_cons.mp hmem with heq | hmem
    · exact hij (congrArg Prod.fst heq).symm
    · exact hclosed unread (List.mem_cons_of_mem _ hmem)
  · intro x hx
    rcases List.mem_append.mp hx with hx | hx
    · exact hh.labelled x hx
    · obtain rfl := List.mem_singleton.mp hx
      exact (List.getElem?_eq_some_iff.mp ho).1

theorem Kept.take (hh : h.Kept limit) : h.take.1.Kept limit := by
  rw [History.take]
  split
  · next hstack => exact hh.advance hstack
  · exact hh

/-- Opening a file. -/
theorem Kept.add (hh : h.Kept limit) {o : Opening} (ho : o.depth ≤ limit) :
    (h.add o).Kept limit := by
  -- The number of the new file is taken by no line that was returned, and by no open file.
  have hfresh : h.returnedFrom h.openings.length = [] := by
    rw [returnedFrom, List.map_eq_nil_iff, List.filter_eq_nil_iff]
    intro x hx
    have hlt := hh.labelled x hx
    simp only [beq_iff_eq]
    omega
  have hbelow : ∀ i lines, (i, lines) ∈ h.stack → i < h.openings.length := by
    intro i lines hmem
    obtain ⟨o', ho', -⟩ := hh.unread i lines hmem
    exact (List.getElem?_eq_some_iff.mp ho').1
  have hsame : ∀ i, i < h.openings.length → (h.add o).openings[i]? = h.openings[i]? :=
    fun i hi => List.getElem?_append_left hi
  have hnew : (h.add o).openings[h.openings.length]? = some o := List.getElem?_concat_length
  refine ⟨List.pairwise_cons.mpr ⟨fun x hx => hbelow x.1 x.2 hx, hh.ordered⟩, ?_, ?_, ?_, ?_⟩
  · intro i lines hmem
    rcases List.mem_cons.mp hmem with heq | hmem
    · obtain ⟨rfl, rfl⟩ := Prod.mk.inj heq
      refine ⟨o, hnew, ?_⟩
      rw [show (h.add o).returnedFrom _ = _ from hfresh, List.nil_append]
    · rw [hsame i (hbelow i lines hmem)]
      exact hh.unread i lines hmem
  · intro i hclosed o' ho'
    have hi : i ≠ h.openings.length := by
      rintro rfl
      exact hclosed o.lines List.mem_cons_self
    have hlt : i < h.openings.length + 1 := by
      have hlength := (List.getElem?_eq_some_iff.mp ho').1
      rwa [History.add, List.length_append] at hlength
    rw [hsame i (by omega)] at ho'
    exact hh.left i (fun lines hmem => hclosed lines (List.mem_cons_of_mem _ hmem)) o' ho'
  · intro x hx
    rw [History.add, List.length_append]
    exact Nat.lt_add_right 1 (hh.labelled x hx)
  · intro o' ho'
    rcases List.mem_append.mp ho' with ho' | ho'
    · exact hh.shallow o' ho'
    · rwa [List.mem_singleton.mp ho']

/-- **Every call keeps the account.** -/
theorem Kept.perform (hh : h.Kept limit) (read : Reader) (call : Call) :
    (h.perform read limit call).1.Kept limit := by
  cases call with
  | next => exact hh.leave.take
  | nextInFile => exact hh.take
  | splice directive named =>
    rw [History.perform]
    rcases ho : Opening.ofDirective read limit directive named with e | o
    · exact hh
    · exact hh.add (Opening.depth_le ho)

theorem Kept.performAll (hh : h.Kept limit) (read : Reader) (calls : List Call) :
    (performAll (History.perform read limit) calls h).1.Kept limit := by
  induction calls generalizing h with
  | nil => exact hh
  | cons call calls ih => exact ih (hh.perform read call)

/-! ### What the account says -/

theorem Kept.prefix_lines (hh : h.Kept limit) {i : Nat} {o : Opening}
    (ho : h.openings[i]? = some o) : h.returnedFrom i <+: o.lines := by
  by_cases hopen : ∃ lines, (i, lines) ∈ h.stack
  · obtain ⟨lines, hmem⟩ := hopen
    obtain ⟨o', ho', hlines⟩ := hh.unread i lines hmem
    obtain rfl : o = o' := Option.some.inj (ho.symm.trans ho')
    exact ⟨lines, hlines⟩
  · have hlines := hh.left i (fun lines hmem => hopen ⟨lines, hmem⟩) o ho
    exact ⟨[], (List.append_nil _).trans hlines⟩

/-- The `k`-th line that was returned from a file is the `k`-th line of the file. -/
theorem Kept.line_of_returnedFrom (hh : h.Kept limit) {i : Nat} {o : Opening}
    (ho : h.openings[i]? = some o) {k : Nat} {line : SourceLine}
    (hline : (h.returnedFrom i)[k]? = some line) :
    o.texts[k]? = some line.text ∧ line.location = ⟨o.file, k + 1⟩ ∧ line.depth = o.depth := by
  obtain ⟨unread, hlines⟩ := hh.prefix_lines ho
  obtain ⟨hlt, -⟩ := List.getElem?_eq_some_iff.mp hline
  rw [← o.getElem?_lines_eq_some_iff, ← hlines, List.getElem?_append_left hlt]
  exact hline

/-- An open file is exhausted exactly if nothing of it is left to read. -/
theorem Kept.exhausted_iff_of_open (hh : h.Kept limit) {i : Nat} {lines : List SourceLine}
    (hopen : (i, lines) ∈ h.stack) : h.Exhausted i ↔ lines = [] := by
  obtain ⟨o, ho, hlines⟩ := hh.unread i lines hopen
  have hcount : (h.returnedFrom i).length + lines.length = o.texts.length := by
    rw [← o.length_lines, ← hlines, List.length_append]
  constructor
  · intro hexhausted
    rw [← hexhausted o ho, Nat.add_eq_left] at hcount
    exact List.length_eq_zero_iff.mp hcount
  · rintro rfl o' ho'
    obtain rfl : o = o' := Option.some.inj (ho.symm.trans ho')
    exact hcount

theorem Kept.exhausted_of_closed (hh : h.Kept limit) {i : Nat}
    (hclosed : ∀ lines, (i, lines) ∉ h.stack) : h.Exhausted i := by
  intro o ho
  rw [hh.left i hclosed o ho, o.length_lines]

theorem Kept.depth_le (hh : h.Kept limit) {x : Nat × SourceLine} (hx : x ∈ h.returned) :
    x.2.depth ≤ limit := by
  have hlt := hh.labelled x hx
  have hfrom : x.2 ∈ h.returnedFrom x.1 := by
    rw [returnedFrom]
    exact List.mem_map_of_mem (List.mem_filter.mpr ⟨hx, beq_self_eq_true x.1⟩)
  obtain ⟨k, hk⟩ := List.getElem?_of_mem hfrom
  obtain ⟨-, -, hdepth⟩ := hh.line_of_returnedFrom (List.getElem?_eq_getElem hlt) hk
  rw [hdepth]
  exact hh.shallow _ (List.getElem_mem hlt)

theorem stack_of_nextInFile? {line : SourceLine} {files : OpenFiles}
    (hnext : h.files.nextInFile? = some (line, files)) :
    ∃ i lines outer, h.stack = (i, line :: lines) :: outer := by
  rw [History.files] at hnext
  rcases hstack : h.stack with _ | ⟨⟨i, _ | ⟨line', lines⟩⟩, outer⟩
  · rw [hstack] at hnext
    cases hnext
  · rw [hstack] at hnext
    cases hnext
  · rw [hstack] at hnext
    cases hnext
    exact ⟨i, lines, outer, rfl⟩

/-- The next line of the document comes from the file that was opened last among those that have
lines left. -/
theorem Kept.of_next? (hh : h.Kept limit) (read : Reader) {line : SourceLine} {files : OpenFiles}
    (hnext : h.files.next? = some (line, files)) :
    ∃ i, (h.perform read limit .next).1.returned = h.returned ++ [(i, line)] ∧
      ¬ h.Exhausted i ∧ ∀ j, i < j → h.Exhausted j := by
  rw [OpenFiles.next?_eq_nextInFile?, ← files_leave] at hnext
  obtain ⟨i, lines, outer, hstack⟩ := stack_of_nextInFile? hnext
  refine ⟨i, ?_, fun hexhausted => ?_, fun j hij => ?_⟩
  · rw [History.perform, History.take]
    simp only [hstack]
    rfl
  · have hopen : (i, line :: lines) ∈ h.leave.stack := by
      rw [hstack]
      exact List.mem_cons_self
    cases (hh.leave.exhausted_iff_of_open hopen).mp hexhausted
  · refine hh.leave.exhausted_of_closed fun unread hmem => ?_
    obtain ⟨hinner, -⟩ := List.pairwise_cons.mp (hstack ▸ hh.leave.ordered)
    rw [hstack] at hmem
    rcases List.mem_cons.mp hmem with heq | hmem
    · obtain ⟨rfl, -⟩ := Prod.mk.inj heq
      exact Nat.lt_irrefl j hij
    · exact Nat.lt_asymm hij (hinner _ hmem)

/-- There is no next line if and only if no file has lines left. -/
theorem Kept.next?_eq_none_iff (hh : h.Kept limit) :
    h.files.next? = none ↔ ∀ i, h.Exhausted i := by
  constructor
  · intro hnext i
    rw [OpenFiles.next?_eq_nextInFile?] at hnext
    have hnil : h.leave.stack = [] := by
      rw [← List.map_eq_nil_iff]
      exact h.files_leave.trans (OpenFiles.eq_nil_of_nextInFile?_dropWhile hnext)
    refine hh.leave.exhausted_of_closed fun unread hmem => ?_
    rw [hnil] at hmem
    cases hmem
  · intro hall
    by_contra hsome
    obtain ⟨⟨line, files⟩, hnext⟩ := Option.ne_none_iff_exists'.mp hsome
    obtain ⟨i, -, hi, -⟩ := hh.of_next? (fun _ => .error .absent) hnext
    exact hi (hall i)

/-- There is no next line in the innermost file if and only if it has no lines left. -/
theorem Kept.nextInFile?_eq_none_iff (hh : h.Kept limit) :
    h.files.nextInFile? = none ↔ ∀ i, h.innermost? = some i → h.Exhausted i := by
  rcases hstack : h.stack with _ | ⟨⟨i, lines⟩, outer⟩
  · simp [files, innermost?, hstack, OpenFiles.nextInFile?]
  · have hopen : (i, lines) ∈ h.stack := by
      rw [hstack]
      exact List.mem_cons_self
    have hnone : h.files.nextInFile? = none ↔ lines = [] := by
      rw [files, hstack]
      cases lines <;> simp [OpenFiles.nextInFile?]
    rw [hnone, ← hh.exhausted_iff_of_open hopen, innermost?, hstack]
    simp

end History

/-- **No line is lost, repeated or mislabelled.** Whatever calls are made, the answers are those of
the history, and its files are the document and those that the calls open. Every line was returned
from one of the files, and the `k`-th that was returned from a file is the `k`-th line of the file,
with its number, counted from one, and with the path and depth of the file. The next line of the
document comes from a file only when all files that were opened after it have no lines left, and
there is no next line exactly if no file has lines left. There is no next line in the innermost file
exactly if no file is open or the innermost has no lines left; and to ask for it then returns
nothing, opens nothing and leaves the open files as they were. No line is deeper than the limit. And
to ask for a file that cannot be included returns nothing, opens nothing and leaves the open files
as they were.

The line for which a file is included may be any line at all, and so any that was returned. -/
theorem every_line_is_returned_once (read : Reader) (limit : Nat) (name : Path)
    (lines : List Text) (calls : List Call) :
    let stream (calls : List Call) : OpenFiles × List Reply :=
      performAll (OpenFiles.perform read limit) calls (.ofLines name lines)
    let record (calls : List Call) : History × List Reply :=
      performAll (History.perform read limit) calls (.start name lines)
    let files := (stream calls).1
    let replies := (stream calls).2
    let history := (record calls).1
    (history.files = files ∧ (record calls).2 = replies ∧
      history.returned.map Prod.snd = replies.filterMap Reply.line? ∧
      history.openings = ⟨name, 0, lines⟩ :: calls.filterMap (Call.opens? read limit)) ∧
    (∀ x ∈ history.returned, x.1 < history.openings.length) ∧
    (∀ i o, history.openings[i]? = some o →
      ∀ (k : Nat) line, (history.returnedFrom i)[k]? = some line →
        o.texts[k]? = some line.text ∧ line.location = ⟨o.file, k + 1⟩ ∧ line.depth = o.depth) ∧
    (∀ line after, files.next? = some (line, after) →
      ∃ i, (record (calls ++ [.next])).1.returned = history.returned ++ [(i, line)] ∧
        ∀ j, i < j → history.Exhausted j) ∧
    (files.next? = none ↔ ∀ i, history.Exhausted i) ∧
    (files.nextInFile? = none ↔ ∀ i, history.innermost? = some i → history.Exhausted i) ∧
    (files.nextInFile? = none →
      stream (calls ++ [.nextInFile]) = (files, replies ++ [.ended]) ∧
        record (calls ++ [.nextInFile]) = (history, replies ++ [.ended])) ∧
    (∀ line ∈ replies.filterMap Reply.line?, line.depth ≤ limit) ∧
    (∀ directive named e, files.splice read limit directive named = .error e →
      stream (calls ++ [.splice directive named]) = (files, replies ++ [.refused e]) ∧
        record (calls ++ [.splice directive named]) = (history, replies ++ [.refused e])) := by
  intro stream record files replies history
  have hkept : history.Kept limit := (History.kept_start limit name lines).performAll read calls
  have hforget (calls : List Call) : ((record calls).1.files, (record calls).2) = stream calls := by
    rw [History.files_performAll, History.files_start]
  obtain ⟨hfiles, hreplies⟩ : history.files = files ∧ (record calls).2 = replies :=
    Prod.mk.inj (hforget calls)
  obtain ⟨hreturned, hopenings⟩ :=
    History.records_performAll read limit calls (.start name lines)
  have hlines : history.returned.map Prod.snd = replies.filterMap Reply.line? :=
    hreturned.trans (congrArg (List.filterMap Reply.line?) hreplies)
  have hfails {call : Call} {reply : Reply}
      (h : history.perform read limit call = (history, reply)) :
      stream (calls ++ [call]) = (files, replies ++ [reply]) ∧
        record (calls ++ [call]) = (history, replies ++ [reply]) := by
    have hrecord : record (calls ++ [call]) = (history, replies ++ [reply]) := by
      rw [← hreplies]
      exact performAll_concat_of_unchanged h
    exact ⟨by rw [← hforget, hrecord, hfiles], hrecord⟩
  refine ⟨⟨hfiles, hreplies, hlines, hopenings⟩, hkept.labelled,
    fun i o ho k line => hkept.line_of_returnedFrom ho, fun line after hnext => ?_, ?_, ?_,
    fun hend => ?_, fun line hline => ?_, fun directive named e he => ?_⟩
  · rw [← hfiles] at hnext
    obtain ⟨i, hi, -, hlater⟩ := hkept.of_next? read hnext
    refine ⟨i, ?_, hlater⟩
    simp only [record, performAll_concat]
    exact hi
  · rw [← hfiles]
    exact hkept.next?_eq_none_iff
  · rw [← hfiles]
    exact hkept.nextInFile?_eq_none_iff
  · rw [← hfiles] at hend
    exact hfails (History.perform_nextInFile_of_none hend)
  · rw [← hlines] at hline
    obtain ⟨x, hx, rfl⟩ := List.mem_map.mp hline
    exact hkept.depth_le hx
  · rw [← hfiles] at he
    exact hfails (History.perform_splice_of_error he)

/-- A file is included twice for the first line, the second time when the line is long read: the
later opening is read first. In the end nothing is left, and for a line of the included file a file
cannot be included any more. -/
theorem later_opening_is_read_first :
    let read : Reader := fun _ => .ok [['x']]
    let a : SourceLine := ⟨['a'], ⟨⟨['d']⟩, 1⟩, 0⟩
    let b : SourceLine := ⟨['b'], ⟨⟨['d']⟩, 2⟩, 0⟩
    let x : SourceLine := ⟨['x'], ⟨⟨['e']⟩, 1⟩, 1⟩
    let calls : List Call :=
      [.next, .splice a ['e'], .splice a ['e'], .next, .nextInFile, .next, .splice x ['e'], .next]
    let files : OpenFiles := .ofLines ⟨['d']⟩ [['a'], ['b']]
    let stream := performAll (OpenFiles.perform read 1) calls files
    let history := (performAll (History.perform read 1) calls (.start ⟨['d']⟩ [['a'], ['b']])).1
    history.returned = [(0, a), (2, x), (1, x), (0, b)] ∧
      stream.2.filterMap Reply.line? = [a, x, x, b] ∧ (∀ i, history.Exhausted i) ∧
      performAll (OpenFiles.perform read 1) (calls ++ [.splice x ['e']]) files =
        (stream.1, stream.2 ++ [.refused (.fault x.location (.includeTooDeep ⟨['e']⟩ 1))]) := by
  intro read a b x calls files stream history
  have hreturned : history.returned = [(0, a), (2, x), (1, x), (0, b)] := by decide +kernel
  obtain ⟨⟨-, -, hlines, -⟩, -, -, -, hnone, -, -, -, hfails⟩ :=
    every_line_is_returned_once read 1 ⟨['d']⟩ [['a'], ['b']] calls
  refine ⟨hreturned, ?_, hnone.mp ?_, (hfails x ['e'] _ ?_).1⟩
  · rw [← hlines]
    exact congrArg (List.map Prod.snd) hreturned
  · decide +kernel
  · decide +kernel

end TextExpander
