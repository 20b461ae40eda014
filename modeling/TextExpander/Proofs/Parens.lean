import TextExpander.Proofs.Shown

/-!
# The closing parenthesis

What `Parens.close?` finds, said without its counter: the text up to the closing parenthesis, the
parenthesis, and the rest make up the text; text that follows does not change what is found; and a
parenthesis that opens before the closing one is itself closed.

The counter is generalised in each statement. It counts the inner parentheses that are still open,
and the fewer there are, the sooner the closing one is met; that is all the last fact needs.

## Main results

* `Parens.eq_of_close?`: the parts that a closing parenthesis cuts a text into.
* `Parens.close?_append`: what follows does not matter.
* `Parens.isSome_close?_of_closeFrom`: inner parentheses are closed too.
-/

namespace TextExpander

namespace Symbol

variable {α : Type} [Symbol α]

theorem isWord_of_opening {a : α} (h : shown a = '(') : isWord a = false := by
  rw [isWord, h]
  decide

theorem isWord_of_closing {a : α} (h : shown a = ')') : isWord a = false := by
  rw [isWord, h]
  decide

end Symbol

namespace Parens

variable {α : Type} [Symbol α]

/-! ### One symbol at a time

The equations of the counter for each kind of symbol. -/

theorem closeFrom_opening {a : α} (h : Symbol.shown a = '(') (depth : Nat) (passed xs : List α) :
    closeFrom depth passed (a :: xs) = closeFrom (depth + 1) (a :: passed) xs := by
  rw [closeFrom, if_pos h]

theorem closeFrom_closing_zero {a : α} (h : Symbol.shown a = ')') (passed xs : List α) :
    closeFrom 0 passed (a :: xs) = some (passed.reverse, xs) := by
  simp [closeFrom, h]

theorem closeFrom_closing_succ {a : α} (h : Symbol.shown a = ')') (depth : Nat)
    (passed xs : List α) :
    closeFrom (depth + 1) passed (a :: xs) = closeFrom depth (a :: passed) xs := by
  simp [closeFrom, h]

theorem closeFrom_other {a : α} (hopen : Symbol.shown a ≠ '(') (hclose : Symbol.shown a ≠ ')')
    (depth : Nat) (passed xs : List α) :
    closeFrom depth passed (a :: xs) = closeFrom depth (a :: passed) xs := by
  rw [closeFrom, if_neg hopen, if_neg hclose]

/-! ### What is found -/

theorem eq_of_closeFrom {depth : Nat} {passed xs inside rest : List α}
    (h : closeFrom depth passed xs = some (inside, rest)) :
    ∃ a seen, Symbol.shown a = ')' ∧ inside = passed.reverse ++ seen ∧ xs = seen ++ a :: rest := by
  induction xs generalizing depth passed with
  | nil => cases h
  | cons b xs ih =>
    -- Unless `b` itself closes, it joins what was passed, and the rest is found further on.
    have hnext : ∀ {depth}, closeFrom depth (b :: passed) xs = some (inside, rest) →
        ∃ a seen, Symbol.shown a = ')' ∧ inside = passed.reverse ++ seen ∧
          b :: xs = seen ++ a :: rest := by
      intro depth h
      obtain ⟨a, seen, ha, rfl, rfl⟩ := ih h
      exact ⟨a, b :: seen, ha, by simp, rfl⟩
    by_cases hopen : Symbol.shown b = '('
    · rw [closeFrom_opening hopen] at h
      exact hnext h
    by_cases hclose : Symbol.shown b = ')'
    · cases depth with
      | zero =>
        rw [closeFrom_closing_zero hclose] at h
        obtain ⟨rfl, rfl⟩ := by simpa using h
        exact ⟨b, [], hclose, by simp, rfl⟩
      | succ depth =>
        rw [closeFrom_closing_succ hclose] at h
        exact hnext h
    · rw [closeFrom_other hopen hclose] at h
      exact hnext h

/-- A closing parenthesis stands between the two parts that are found. -/
theorem eq_of_close? {xs inside rest : List α} (h : close? xs = some (inside, rest)) :
    ∃ a, Symbol.shown a = ')' ∧ xs = inside ++ a :: rest := by
  obtain ⟨a, seen, ha, hinside, hxs⟩ := eq_of_closeFrom h
  obtain rfl : inside = seen := hinside
  exact ⟨a, ha, hxs⟩

theorem closeFrom_append {depth : Nat} {passed xs inside rest : List α}
    (h : closeFrom depth passed xs = some (inside, rest)) (ys : List α) :
    closeFrom depth passed (xs ++ ys) = some (inside, rest ++ ys) := by
  induction xs generalizing depth passed with
  | nil => cases h
  | cons b xs ih =>
    rw [List.cons_append]
    by_cases hopen : Symbol.shown b = '('
    · rw [closeFrom_opening hopen] at h ⊢
      exact ih h
    by_cases hclose : Symbol.shown b = ')'
    · cases depth with
      | zero =>
        rw [closeFrom_closing_zero hclose] at h ⊢
        obtain ⟨rfl, rfl⟩ := by simpa using h
        rfl
      | succ depth =>
        rw [closeFrom_closing_succ hclose] at h ⊢
        exact ih h
    · rw [closeFrom_other hopen hclose] at h ⊢
      exact ih h

/-- A parenthesis that is closed stays closed, at the same place, when text is added. -/
theorem close?_append {xs inside rest : List α} (h : close? xs = some (inside, rest))
    (ys : List α) : close? (xs ++ ys) = some (inside, rest ++ ys) :=
  closeFrom_append h ys

/-! ### Inner parentheses -/

/-- With fewer inner parentheses still open, a closing one is met all the sooner. -/
theorem isSome_closeFrom_of_le {depth depth' : Nat} (hle : depth ≤ depth')
    {passed passed' xs : List α} (h : (closeFrom depth' passed' xs).isSome) :
    (closeFrom depth passed xs).isSome := by
  induction xs generalizing depth depth' passed passed' with
  | nil => cases h
  | cons b xs ih =>
    by_cases hopen : Symbol.shown b = '('
    · rw [closeFrom_opening hopen] at h ⊢
      exact ih (Nat.succ_le_succ hle) h
    by_cases hclose : Symbol.shown b = ')'
    · cases depth with
      | zero =>
        rw [closeFrom_closing_zero hclose]
        rfl
      | succ depth =>
        obtain ⟨d, rfl⟩ := Nat.exists_eq_add_of_le' (Nat.le_trans (Nat.succ_pos depth) hle)
        rw [closeFrom_closing_succ hclose] at h ⊢
        exact ih (Nat.le_of_succ_le_succ hle) h
    · rw [closeFrom_other hopen hclose] at h ⊢
      exact ih hle h

/-- A parenthesis that opens where an outer one is still to be closed is closed itself. -/
theorem isSome_close?_of_closeFrom {depth : Nat} {passed xs : List α}
    (h : (closeFrom depth passed xs).isSome) : (close? xs).isSome :=
  isSome_closeFrom_of_le (Nat.zero_le depth) h

end Parens

end TextExpander
