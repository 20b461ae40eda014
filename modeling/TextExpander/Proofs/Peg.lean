import TextExpander.Text.Basic

/-!
# Parsing expressions

A parsing expression reads a part of a text from its front, or fails. What it does is settled by
the text alone: of two alternatives the second one is tried only where the first fails, a repetition
goes on for as long as it can, and nothing is ever taken back. So it is given here as a relation
between an expression, a place in a text and an outcome, and the outcome is unique.

Some parts of an expression leave a token of what they read, with the byte offsets where it starts
and ends. Such a part is read as one piece: there are no tokens inside it.

Most lexical rules read characters of a class, as many as there are. What they read is then known
without going through the text (`Peg.Reads.star`, `Peg.Reads.plus`).

## Main definitions

* `Peg`: parsing expressions.
* `Peg.literal`: a text that is read as it is.
* `Peg.Parses`: what an expression does at a place.
* `Peg.Reads`: an expression that reads one character of a class.

## Main results

* `Peg.Parses.unique`: the outcome is unique.
* `Peg.parses_literal`: a literal text is read off the front.
* `Peg.Reads.star`, `Peg.Reads.plus`: runs of a class are read to their end.
-/

namespace TextExpander

/-! ### Runs of a class -/

namespace Text

variable {p : Char → Bool} {run rest : Text}

theorem dropWhile_of_head? (h : ∀ c ∈ rest.head?, p c = false) : rest.dropWhile p = rest := by
  cases rest with
  | nil => rfl
  | cons c rest => exact List.dropWhile_cons_of_neg (by simp [h c rfl])

theorem takeWhile_of_head? (h : ∀ c ∈ rest.head?, p c = false) : rest.takeWhile p = [] := by
  cases rest with
  | nil => rfl
  | cons c rest => exact List.takeWhile_cons_of_neg (by simp [h c rfl])

/-- A run that does not go on is dropped to its end. -/
theorem dropWhile_run (hrun : ∀ c ∈ run, p c = true) (hrest : ∀ c ∈ rest.head?, p c = false) :
    (run ++ rest).dropWhile p = rest := by
  rw [List.dropWhile_append_of_pos hrun, dropWhile_of_head? hrest]

theorem takeWhile_run (hrun : ∀ c ∈ run, p c = true) (hrest : ∀ c ∈ rest.head?, p c = false) :
    (run ++ rest).takeWhile p = run := by
  rw [List.takeWhile_append_of_pos hrun, takeWhile_of_head? hrest, List.append_nil]

/-- A text starts with a run of a class, which may be empty. -/
theorem exists_run (p : Char → Bool) (t : Text) :
    ∃ run rest, t = run ++ rest ∧ (∀ c ∈ run, p c = true) ∧ ∀ c ∈ rest.head?, p c = false := by
  induction t with
  | nil => exact ⟨[], [], rfl, by simp, by simp⟩
  | cons c t ih =>
    cases hc : p c with
    | false => exact ⟨[], c :: t, rfl, by simp, by simpa using hc⟩
    | true =>
      obtain ⟨run, rest, rfl, hrun, hrest⟩ := ih
      exact ⟨c :: run, rest, rfl, List.forall_mem_cons.mpr ⟨hc, hrun⟩, hrest⟩

/-- There is one way to cut a text after a run of a class. -/
theorem run_unique {run' rest' : Text} (h : run ++ rest = run' ++ rest')
    (hrun : ∀ c ∈ run, p c = true) (hrest : ∀ c ∈ rest.head?, p c = false)
    (hrun' : ∀ c ∈ run', p c = true) (hrest' : ∀ c ∈ rest'.head?, p c = false) :
    run = run' ∧ rest = rest' := by
  obtain rfl : run = run' := by rw [← takeWhile_run hrun hrest, h, takeWhile_run hrun' hrest']
  exact ⟨rfl, List.append_cancel_left h⟩

end Text

/-! ### Parsing expressions -/

/-- Parsing expressions that leave tokens of the kinds `κ`. -/
inductive Peg (κ : Type) where
  /-- A character of a class. -/
  | char (p : Char → Bool)
  /-- The start of the text. -/
  | start
  /-- The end of the text. -/
  | stop
  /-- One after the other. -/
  | seq (first second : Peg κ)
  /-- The second only where the first fails. -/
  | choice (first second : Peg κ)
  /-- As often as possible. -/
  | star (e : Peg κ)
  /-- Where the expression fails. Nothing is read. -/
  | not (e : Peg κ)
  /-- A token of what the expression reads. -/
  | token (kind : κ) (e : Peg κ)

namespace Peg

/-- A part of a text, with the byte offsets where it starts and ends. -/
structure Token (κ : Type) where
  /-- What the part is. -/
  kind : κ
  /-- The part. -/
  text : Text
  /-- The number of bytes before it. -/
  start : Nat
  /-- The number of bytes up to its end. -/
  stop : Nat
  deriving DecidableEq, Repr

/-- A place in a text: the number of bytes before it, and the text that is left. -/
structure Place where
  /-- The number of bytes before it. -/
  offset : Nat
  /-- The text that is left. -/
  rest : Text

/-- The tokens that are left and the place that is reached, unless the expression fails. -/
abbrev Outcome (κ : Type) := Option (List (Token κ) × Place)

variable {κ : Type}

/-- At least once, and as often as possible. -/
def plus (e : Peg κ) : Peg κ :=
  .seq e (.star e)

/-- A text, one character after the other. -/
def literal : Text → Peg κ
  | [] => .not (.char fun _ => false)
  | c :: t => .seq (.char (· == c)) (literal t)

/-- What an expression does at a place. -/
inductive Parses : Peg κ → Place → Outcome κ → Prop
  /-- The next character is of the class. -/
  | char {p : Char → Bool} {n : Nat} {c : Char} {rest : Text} : p c = true →
      Parses (.char p) ⟨n, c :: rest⟩ (some ([], ⟨n + c.utf8Size, rest⟩))
  /-- It is not. -/
  | char_other {p : Char → Bool} {n : Nat} {c : Char} {rest : Text} : p c = false →
      Parses (.char p) ⟨n, c :: rest⟩ none
  /-- There is none. -/
  | char_stop {p : Char → Bool} {n : Nat} : Parses (.char p) ⟨n, []⟩ none
  /-- Nothing has been read. -/
  | start {rest : Text} : Parses .start ⟨0, rest⟩ (some ([], ⟨0, rest⟩))
  /-- Something has. -/
  | start_fail {n : Nat} {rest : Text} : n ≠ 0 → Parses .start ⟨n, rest⟩ none
  /-- Nothing is left. -/
  | stop {n : Nat} : Parses .stop ⟨n, []⟩ (some ([], ⟨n, []⟩))
  /-- Something is. -/
  | stop_fail {n : Nat} {c : Char} {rest : Text} : Parses .stop ⟨n, c :: rest⟩ none
  /-- Both match. -/
  | seq {a b : Peg κ} {i j k : Place} {ts us : List (Token κ)} : Parses a i (some (ts, j)) →
      Parses b j (some (us, k)) → Parses (.seq a b) i (some (ts ++ us, k))
  /-- The first fails. -/
  | seq_fail {a b : Peg κ} {i : Place} : Parses a i none → Parses (.seq a b) i none
  /-- The second fails. -/
  | seq_fail_second {a b : Peg κ} {i j : Place} {ts : List (Token κ)} :
      Parses a i (some (ts, j)) → Parses b j none → Parses (.seq a b) i none
  /-- The first matches. -/
  | choice {a b : Peg κ} {i : Place} {r : List (Token κ) × Place} : Parses a i (some r) →
      Parses (.choice a b) i (some r)
  /-- The first fails. -/
  | choice_second {a b : Peg κ} {i : Place} {r : Outcome κ} : Parses a i none → Parses b i r →
      Parses (.choice a b) i r
  /-- Once, and what comes next. -/
  | star_more {e : Peg κ} {i j k : Place} {ts us : List (Token κ)} : Parses e i (some (ts, j)) →
      Parses (.star e) j (some (us, k)) → Parses (.star e) i (some (ts ++ us, k))
  /-- No more. -/
  | star_done {e : Peg κ} {i : Place} : Parses e i none → Parses (.star e) i (some ([], i))
  /-- The expression fails. -/
  | not {e : Peg κ} {i : Place} : Parses e i none → Parses (.not e) i (some ([], i))
  /-- The expression matches. -/
  | not_fail {e : Peg κ} {i : Place} {r : List (Token κ) × Place} : Parses e i (some r) →
      Parses (.not e) i none
  /-- The token is what was read. -/
  | token {kind : κ} {e : Peg κ} {m n : Nat} {t part rest : Text} {ts : List (Token κ)} :
      Parses e ⟨m, t⟩ (some (ts, ⟨n, rest⟩)) → t = part ++ rest →
      Parses (.token kind e) ⟨m, t⟩ (some ([⟨kind, part, m, n⟩], ⟨n, rest⟩))
  /-- There is no token. -/
  | token_fail {kind : κ} {e : Peg κ} {i : Place} : Parses e i none → Parses (.token kind e) i none

/-- The expression matches at the front of a text. -/
def Accepts (e : Peg κ) (t : Text) : Prop :=
  ∃ r, e.Parses ⟨0, t⟩ (some r)

/-- **The outcome is unique.** -/
theorem Parses.unique {e : Peg κ} {i : Place} {r s : Outcome κ} (hr : e.Parses i r)
    (hs : e.Parses i s) : r = s := by
  induction hr generalizing s with
  | char hc =>
    cases hs with
    | char => rfl
    | char_other hc' => exact absurd (hc.symm.trans hc') (by decide)
  | char_other hc =>
    cases hs with
    | char hc' => exact absurd (hc.symm.trans hc') (by decide)
    | char_other => rfl
  | char_stop => cases hs; rfl
  | start =>
    cases hs with
    | start => rfl
    | start_fail hn => exact absurd rfl hn
  | start_fail hn =>
    cases hs with
    | start => exact absurd rfl hn
    | start_fail => rfl
  | stop => cases hs; rfl
  | stop_fail => cases hs; rfl
  | seq _ _ iha ihb =>
    cases hs with
    | seq ha hb =>
      cases iha ha
      cases ihb hb
      rfl
    | seq_fail ha => cases iha ha
    | seq_fail_second ha hb =>
      cases iha ha
      cases ihb hb
  | seq_fail _ iha =>
    cases hs with
    | seq ha _ => cases iha ha
    | seq_fail => rfl
    | seq_fail_second => rfl
  | seq_fail_second _ _ iha ihb =>
    cases hs with
    | seq ha hb =>
      cases iha ha
      cases ihb hb
    | seq_fail => rfl
    | seq_fail_second => rfl
  | choice _ iha =>
    cases hs with
    | choice ha => exact iha ha
    | choice_second ha => cases iha ha
  | choice_second _ _ iha ihb =>
    cases hs with
    | choice ha => cases iha ha
    | choice_second _ hb => exact ihb hb
  | star_more _ _ ihe ihstar =>
    cases hs with
    | star_more he hstar =>
      cases ihe he
      cases ihstar hstar
      rfl
    | star_done he => cases ihe he
  | star_done _ ihe =>
    cases hs with
    | star_more he => cases ihe he
    | star_done => rfl
  | not _ ihe =>
    cases hs with
    | not => rfl
    | not_fail he => cases ihe he
  | not_fail _ ihe =>
    cases hs with
    | not he => cases ihe he
    | not_fail => rfl
  | token _ ht ihe =>
    cases hs with
    | token he ht' =>
      cases ihe he
      rw [List.append_cancel_right (ht.symm.trans ht')]
    | token_fail he => cases ihe he
  | token_fail _ ihe =>
    cases hs with
    | token he => cases ihe he
    | token_fail => rfl

/-- After a part that leaves no token, the outcome is that of what comes next. -/
theorem Parses.seq_silent {a b : Peg κ} {i j : Place} {r : Outcome κ}
    (ha : a.Parses i (some ([], j))) (hb : b.Parses j r) : (Peg.seq a b).Parses i r := by
  cases r with
  | none => exact .seq_fail_second ha hb
  | some r => exact .seq ha hb

/-- **A literal text is read off the front**, if it stands there. -/
theorem parses_literal (t s : Text) (n : Nat) :
    (literal t : Peg κ).Parses ⟨n, s⟩
      ((t.isPrefixOf? s).map fun rest => ([], ⟨n + Text.byteLength t, rest⟩)) := by
  induction t generalizing s n with
  | nil =>
    cases s with
    | nil => exact .not .char_stop
    | cons d s => exact .not (.char_other rfl)
  | cons c t ih =>
    cases s with
    | nil => exact .seq_fail .char_stop
    | cons d s =>
      have hcons : (c :: t).isPrefixOf? (d :: s) =
          if c == d then t.isPrefixOf? s else none := rfl
      rw [hcons]
      cases hd : c == d with
      | false => exact .seq_fail (.char_other (BEq.comm.trans hd))
      | true =>
        rw [if_pos rfl, Text.byteLength_cons, ← Nat.add_assoc, beq_iff_eq.mp hd]
        exact .seq_silent (.char BEq.rfl) (ih s (n + d.utf8Size))

/-! ### Classes of characters -/

/-- The expression reads one character of a class, and leaves no token of it. -/
structure Reads (e : Peg κ) (p : Char → Bool) : Prop where
  /-- It reads a character of the class. -/
  char : ∀ (n : Nat) (c : Char) (rest : Text), p c = true →
    e.Parses ⟨n, c :: rest⟩ (some ([], ⟨n + c.utf8Size, rest⟩))
  /-- It reads no other. -/
  other : ∀ (n : Nat) (c : Char) (rest : Text), p c = false → e.Parses ⟨n, c :: rest⟩ none
  /-- It fails at the end of the text. -/
  stop : ∀ n : Nat, e.Parses ⟨n, []⟩ none

theorem reads_char (p : Char → Bool) : Reads (.char p : Peg κ) p where
  char _ _ _ := .char
  other _ _ _ := .char_other
  stop _ := .char_stop

/-- Any character, where a class is not. -/
theorem reads_char_not (p : Char → Bool) :
    Reads (.seq (.not (.char p)) (.char fun _ => true) : Peg κ) fun c => !p c where
  char _ c _ hc := .seq (.not (.char_other (Bool.not_eq_true' (p c) ▸ hc))) (.char rfl)
  other _ c _ hc := .seq_fail (.not_fail (.char (Bool.not_eq_false' (p c) ▸ hc)))
  stop _ := .seq_fail_second (.not .char_stop) .char_stop

namespace Reads

variable {e : Peg κ} {p : Char → Bool} {run rest : Text}

theorem fail (h : Reads e p) (hrest : ∀ c ∈ rest.head?, p c = false) (n : Nat) :
    e.Parses ⟨n, rest⟩ none := by
  cases rest with
  | nil => exact h.stop n
  | cons c rest => exact h.other n c rest (hrest c rfl)

theorem plus_fail (h : Reads e p) (hrest : ∀ c ∈ rest.head?, p c = false) (n : Nat) :
    (Peg.plus e).Parses ⟨n, rest⟩ none :=
  .seq_fail (h.fail hrest n)

/-- A run of the class is read to its end. -/
theorem star (h : Reads e p) (hrun : ∀ c ∈ run, p c = true)
    (hrest : ∀ c ∈ rest.head?, p c = false) (n : Nat) :
    (Peg.star e).Parses ⟨n, run ++ rest⟩ (some ([], ⟨n + Text.byteLength run, rest⟩)) := by
  induction run generalizing n with
  | nil => exact .star_done (h.fail hrest n)
  | cons c run ih =>
    rw [Text.byteLength_cons, ← Nat.add_assoc]
    exact .star_more (h.char n c (run ++ rest) (hrun c List.mem_cons_self))
      (ih (fun d hd => hrun d (List.mem_cons_of_mem c hd)) (n + c.utf8Size))

theorem plus (h : Reads e p) (hne : run ≠ []) (hrun : ∀ c ∈ run, p c = true)
    (hrest : ∀ c ∈ rest.head?, p c = false) (n : Nat) :
    (Peg.plus e).Parses ⟨n, run ++ rest⟩ (some ([], ⟨n + Text.byteLength run, rest⟩)) := by
  obtain ⟨c, run, rfl⟩ := List.exists_cons_of_ne_nil hne
  rw [Text.byteLength_cons, ← Nat.add_assoc]
  exact .seq (h.char n c (run ++ rest) (hrun c List.mem_cons_self))
    (h.star (fun d hd => hrun d (List.mem_cons_of_mem c hd)) hrest (n + c.utf8Size))

end Reads

end Peg

end TextExpander
