import Mathlib.Data.List.Infix
import TextExpander.Proofs.ArgumentRanges
import TextExpander.Proofs.OpenCall

/-!
# Balanced parentheses

A text is balanced if no part from its start closes more parentheses than it opens, and all of it
closes as many as it opens. This says what is meant, but an argument about a text that is cut and
put together again wants to read it from the left: `Parens.levelAfter?` counts the parentheses that
are open and fails where one is closed that was not opened. A balanced text is one that leaves every
level as it is, so it can be taken out of a text, or put into it, without changing the level of what
follows.

What the parentheses of a call enclose is balanced, and so are the arguments that it is cut into,
since a comma separates arguments only where no parenthesis is open. In a balanced text every
parenthesis is closed, so no call in it is left open.

## Main definitions

* `Text.Balanced`: the definition by counting.
* `Parens.levelAfter?`: the number of open parentheses.
* `Parens.Neutral`: symbols that leave every level as it is.

## Main results

* `Text.balanced_iff_neutral`: the two say the same.
* `Parens.neutral_of_close?`, `Parens.close?_of_neutral`: what two matching parentheses enclose.
* `Parens.neutral_of_mem_arguments`: the arguments of a call.
* `Outline.isOpen_scan_of_neutral`: no call in a balanced text is open.
-/

namespace TextExpander

/-- No part from the start of a text closes more parentheses than it opens, and the whole text
closes as many as it opens. -/
def Text.Balanced (t : Text) : Prop :=
  (∀ s, s <+: t → s.count ')' ≤ s.count '(') ∧ t.count '(' = t.count ')'

instance (t : Text) : Decidable t.Balanced :=
  decidable_of_iff ((∀ s ∈ t.inits, s.count ')' ≤ s.count '(') ∧ t.count '(' = t.count ')') <| by
    simp only [Text.Balanced, List.mem_inits]

namespace Parens

variable {α : Type} [Symbol α]

/-! ### Levels -/

/-- The number of parentheses that are open after some symbols, if `level` of them were open before.
There is none if one is closed that was not open. -/
def levelAfter? : (level : Nat) → List α → Option Nat
  | level, [] => some level
  | level, a :: rest =>
    if Symbol.shown a = '(' then levelAfter? (level + 1) rest
    else if Symbol.shown a = ')' then
      if level = 0 then none else levelAfter? (level - 1) rest
    else levelAfter? level rest

theorem levelAfter?_opening {a : α} (h : Symbol.shown a = '(') (level : Nat) (xs : List α) :
    levelAfter? level (a :: xs) = levelAfter? (level + 1) xs := by
  rw [levelAfter?, if_pos h]

theorem levelAfter?_closing_zero {a : α} (h : Symbol.shown a = ')') (xs : List α) :
    levelAfter? 0 (a :: xs) = none := by
  simp [levelAfter?, h]

theorem levelAfter?_closing_succ {a : α} (h : Symbol.shown a = ')') (level : Nat) (xs : List α) :
    levelAfter? (level + 1) (a :: xs) = levelAfter? level xs := by
  simp [levelAfter?, h]

theorem levelAfter?_other {a : α} (hopen : Symbol.shown a ≠ '(') (hclose : Symbol.shown a ≠ ')')
    (level : Nat) (xs : List α) : levelAfter? level (a :: xs) = levelAfter? level xs := by
  rw [levelAfter?, if_neg hopen, if_neg hclose]

theorem levelAfter?_append (level : Nat) (xs ys : List α) :
    levelAfter? level (xs ++ ys) = (levelAfter? level xs).bind fun n => levelAfter? n ys := by
  induction xs generalizing level with
  | nil => rfl
  | cons a xs ih =>
    rw [List.cons_append, levelAfter?, levelAfter?]
    split_ifs
    · exact ih _
    · rfl
    · exact ih _
    · exact ih _

theorem levelAfter?_chars (level : Nat) (xs : List α) :
    levelAfter? level (Symbol.chars xs) = levelAfter? level xs := by
  induction xs generalizing level with
  | nil => rfl
  | cons a xs ih =>
    rw [Symbol.chars_cons, levelAfter?, levelAfter?, ih, ih, ih]
    rfl

/-- Parentheses that are open besides change nothing, since none of them is closed. -/
theorem levelAfter?_add {level n : Nat} {xs : List α} (h : levelAfter? level xs = some n)
    (more : Nat) : levelAfter? (level + more) xs = some (n + more) := by
  induction xs generalizing level with
  | nil =>
    obtain rfl := Option.some.inj h
    rfl
  | cons a xs ih =>
    by_cases hopen : Symbol.shown a = '('
    · rw [levelAfter?_opening hopen] at h ⊢
      rw [Nat.add_right_comm]
      exact ih h
    by_cases hclose : Symbol.shown a = ')'
    · cases level with
      | zero =>
        rw [levelAfter?_closing_zero hclose] at h
        cases h
      | succ level =>
        rw [levelAfter?_closing_succ hclose] at h
        rw [Nat.add_right_comm, levelAfter?_closing_succ hclose]
        exact ih h
    · rw [levelAfter?_other hopen hclose] at h ⊢
      exact ih h

/-! ### Symbols that keep the level -/

/-- Symbols that leave every level as it is. -/
def Neutral (xs : List α) : Prop :=
  ∀ level, levelAfter? level xs = some level

theorem neutral_iff {xs : List α} : Neutral xs ↔ levelAfter? 0 xs = some 0 := by
  refine ⟨fun h => h 0, fun h level => ?_⟩
  simpa using levelAfter?_add h level

theorem neutral_chars_iff {xs : List α} : Neutral (Symbol.chars xs) ↔ Neutral xs := by
  simp only [Neutral, levelAfter?_chars]

theorem Neutral.append {xs ys : List α} (hxs : Neutral xs) (hys : Neutral ys) :
    Neutral (xs ++ ys) := by
  intro level
  rw [levelAfter?_append, hxs level, Option.bind_some, hys level]

theorem Neutral.of_append_left {xs ys : List α} (hys : Neutral ys) (h : Neutral (xs ++ ys)) :
    Neutral xs := by
  rw [neutral_iff] at h ⊢
  rw [levelAfter?_append] at h
  obtain ⟨n, hn, hn'⟩ := Option.bind_eq_some_iff.mp h
  rw [hys n] at hn'
  rw [hn, hn']

theorem Neutral.of_append_right {xs ys : List α} (hxs : Neutral xs) (h : Neutral (xs ++ ys)) :
    Neutral ys := by
  intro level
  have hlevel := h level
  rwa [levelAfter?_append, hxs level, Option.bind_some] at hlevel

theorem neutral_of_forall {xs : List α}
    (h : ∀ a ∈ xs, Symbol.shown a ≠ '(' ∧ Symbol.shown a ≠ ')') : Neutral xs := by
  intro level
  induction xs with
  | nil => rfl
  | cons a xs ih =>
    obtain ⟨hopen, hclose⟩ := h a List.mem_cons_self
    rw [levelAfter?_other hopen hclose]
    exact ih fun b hb => h b (List.mem_cons_of_mem _ hb)

theorem neutral_of_isWord {xs : List α} (h : ∀ a ∈ xs, Symbol.isWord a = true) : Neutral xs := by
  refine neutral_of_forall fun a ha => ⟨fun hopen => ?_, fun hclose => ?_⟩
  · exact absurd (h a ha) (by simp [Symbol.isWord_of_opening hopen])
  · exact absurd (h a ha) (by simp [Symbol.isWord_of_closing hclose])

theorem neutral_of_isSpace {xs : List α} (h : ∀ a ∈ xs, Symbol.isSpace a = true) : Neutral xs := by
  refine neutral_of_forall fun a ha => ⟨fun hopen => ?_, fun hclose => ?_⟩
  · have hspace := h a ha
    rw [Symbol.isSpace, hopen] at hspace
    exact absurd hspace (by decide)
  · have hspace := h a ha
    rw [Symbol.isSpace, hclose] at hspace
    exact absurd hspace (by decide)

/-- Symbols that keep the level may be taken out of the middle of others. -/
theorem levelAfter?_middle {ys : List α} (h : Neutral ys) (level : Nat) (xs zs : List α) :
    levelAfter? level (xs ++ ys ++ zs) = levelAfter? level (xs ++ zs) := by
  rw [List.append_assoc, levelAfter?_append, levelAfter?_append level xs zs]
  congr 1
  funext n
  rw [levelAfter?_append, h n, Option.bind_some]

/-- A pair of parentheses around symbols that keep the level. -/
theorem Neutral.parenthesized {a b : α} (ha : Symbol.shown a = '(') (hb : Symbol.shown b = ')')
    {xs : List α} (h : Neutral xs) : Neutral (a :: xs ++ [b]) := by
  intro level
  rw [List.cons_append, levelAfter?_opening ha, levelAfter?_append, h, Option.bind_some,
    levelAfter?_closing_succ hb]
  rfl

/-! ### Calls and their arguments -/

theorem levelAfter?_of_closeFrom {depth : Nat} {passed xs inside rest : List α}
    (h : closeFrom depth passed xs = some (inside, rest)) :
    ∃ seen, inside = passed.reverse ++ seen ∧ levelAfter? depth seen = some 0 := by
  induction xs generalizing depth passed with
  | nil => cases h
  | cons a xs ih =>
    by_cases hopen : Symbol.shown a = '('
    · rw [closeFrom_opening hopen] at h
      obtain ⟨seen, rfl, hseen⟩ := ih h
      exact ⟨a :: seen, by simp, by rw [levelAfter?_opening hopen, hseen]⟩
    by_cases hclose : Symbol.shown a = ')'
    · cases depth with
      | zero =>
        rw [closeFrom_closing_zero hclose] at h
        obtain ⟨rfl, rfl⟩ := by simpa using h
        exact ⟨[], by simp, rfl⟩
      | succ depth =>
        rw [closeFrom_closing_succ hclose] at h
        obtain ⟨seen, rfl, hseen⟩ := ih h
        exact ⟨a :: seen, by simp, by rw [levelAfter?_closing_succ hclose, hseen]⟩
    · rw [closeFrom_other hopen hclose] at h
      obtain ⟨seen, rfl, hseen⟩ := ih h
      exact ⟨a :: seen, by simp, by rw [levelAfter?_other hopen hclose, hseen]⟩

/-- What two matching parentheses enclose keeps the level. -/
theorem neutral_of_close? {xs inside rest : List α} (h : close? xs = some (inside, rest)) :
    Neutral inside := by
  obtain ⟨seen, rfl, hseen⟩ := levelAfter?_of_closeFrom h
  exact neutral_iff.mpr hseen

/-- The search for a closing parenthesis goes through symbols as the level does. -/
theorem closeFrom_of_levelAfter? {depth n : Nat} {seen : List α}
    (h : levelAfter? depth seen = some n) (passed rest : List α) :
    closeFrom depth passed (seen ++ rest) = closeFrom n (seen.reverse ++ passed) rest := by
  induction seen generalizing depth passed with
  | nil =>
    obtain rfl := Option.some.inj h
    rfl
  | cons a seen ih =>
    rw [List.cons_append, List.reverse_cons, List.append_assoc]
    by_cases hopen : Symbol.shown a = '('
    · rw [levelAfter?_opening hopen] at h
      rw [closeFrom_opening hopen]
      exact ih h (a :: passed)
    by_cases hclose : Symbol.shown a = ')'
    · cases depth with
      | zero =>
        rw [levelAfter?_closing_zero hclose] at h
        cases h
      | succ depth =>
        rw [levelAfter?_closing_succ hclose] at h
        rw [closeFrom_closing_succ hclose]
        exact ih h (a :: passed)
    · rw [levelAfter?_other hopen hclose] at h
      rw [closeFrom_other hopen hclose]
      exact ih h (a :: passed)

/-- Conversely, symbols that keep the level stand before the first parenthesis that closes. -/
theorem close?_of_neutral {inside : List α} (h : Neutral inside) {b : α} (hb : Symbol.shown b = ')')
    (rest : List α) : close? (inside ++ b :: rest) = some (inside, rest) := by
  rw [close?, closeFrom_of_levelAfter? (h 0), List.append_nil, closeFrom_closing_zero hb,
    List.reverse_reverse]

/-- Where no parenthesis is left open at the end, an open one is closed. -/
theorem isSome_closeFrom {depth : Nat} {xs : List α} (h : levelAfter? (depth + 1) xs = some 0)
    (passed : List α) : (closeFrom depth passed xs).isSome := by
  induction xs generalizing depth passed with
  | nil => cases h
  | cons a xs ih =>
    by_cases hopen : Symbol.shown a = '('
    · rw [levelAfter?_opening hopen] at h
      rw [closeFrom_opening hopen]
      exact ih h _
    by_cases hclose : Symbol.shown a = ')'
    · cases depth with
      | zero =>
        rw [closeFrom_closing_zero hclose]
        rfl
      | succ depth =>
        rw [levelAfter?_closing_succ hclose] at h
        rw [closeFrom_closing_succ hclose]
        exact ih h _
    · rw [levelAfter?_other hopen hclose] at h
      rw [closeFrom_other hopen hclose]
      exact ih h _

/-- While no parenthesis is closed that is not open, the depth that the commas are looked at with is
the level. -/
theorem levelAfter?_depthAfter {level n : Nat} {a : α} {xs : List α}
    (h : levelAfter? level (a :: xs) = some n) :
    levelAfter? level [a] = some (depthAfter level a) ∧
      levelAfter? (depthAfter level a) xs = some n := by
  by_cases hopen : Symbol.shown a = '('
  · rw [levelAfter?_opening hopen] at h ⊢
    rw [depthAfter, if_pos hopen]
    exact ⟨rfl, h⟩
  by_cases hclose : Symbol.shown a = ')'
  · cases level with
    | zero =>
      rw [levelAfter?_closing_zero hclose] at h
      cases h
    | succ level =>
      rw [levelAfter?_closing_succ hclose] at h ⊢
      rw [depthAfter, if_neg hopen, if_pos hclose]
      exact ⟨rfl, h⟩
  · rw [levelAfter?_other hopen hclose] at h ⊢
    rw [depthAfter, if_neg hopen, if_neg hclose]
    exact ⟨rfl, h⟩

/-- The level after what was passed of the current piece is the depth, so a comma that ends the
piece ends it at level zero. -/
theorem neutral_of_mem_piecesFrom {depth : Nat} {passed xs : List α}
    (hpassed : levelAfter? 0 passed.reverse = some depth) (h : levelAfter? depth xs = some 0) :
    ∀ piece ∈ piecesFrom depth passed xs, Neutral piece := by
  induction xs generalizing depth passed with
  | nil =>
    obtain rfl := Option.some.inj h
    intro piece hpiece
    rw [piecesFrom] at hpiece
    rw [List.mem_singleton.mp hpiece]
    exact neutral_iff.mpr hpassed
  | cons a xs ih =>
    obtain ⟨ha, hxs⟩ := levelAfter?_depthAfter h
    rw [piecesFrom]
    split_ifs with hcomma
    · obtain ⟨hcomma, rfl⟩ := hcomma
      intro piece hpiece
      rcases List.mem_cons.mp hpiece with rfl | hpiece
      · exact neutral_iff.mpr hpassed
      · have hdepth : depthAfter 0 a = 0 := by simp [depthAfter, hcomma]
        rw [hdepth] at hxs
        exact ih rfl hxs piece hpiece
    · refine ih ?_ hxs
      rw [List.reverse_cons, levelAfter?_append, hpassed, Option.bind_some, ha]

theorem Neutral.ofPiece {piece : List α} (h : Neutral piece) :
    Neutral (Argument.ofPiece piece).value := by
  obtain ⟨space, hpiece, hspace⟩ := Symbol.exists_trimRight piece
  have hended : Neutral (Symbol.trimRight piece) :=
    Neutral.of_append_left (neutral_of_isSpace hspace) (hpiece ▸ h)
  have hvalue : Neutral ((Symbol.trimRight piece).dropWhile Symbol.isSpace) := by
    have hleading : Neutral ((Symbol.trimRight piece).takeWhile Symbol.isSpace) :=
      neutral_of_isSpace fun a => List.mem_takeWhile_imp
    refine hleading.of_append_right ?_
    rwa [List.takeWhile_append_dropWhile]
  simp only [Argument.ofPiece]
  split
  · next inside hunwrap =>
    obtain ⟨a, rest, -, -, hclose⟩ := exists_of_unwrap? hunwrap
    exact neutral_of_close? hclose
  · exact hvalue

/-- The arguments of symbols that keep the level keep it too. -/
theorem neutral_of_mem_arguments {xs : List α} (h : Neutral xs) :
    ∀ v ∈ arguments xs, Neutral v := by
  intro v hv
  rw [arguments] at hv
  split_ifs at hv
  · cases hv
  · obtain ⟨piece, hpiece, rfl⟩ := List.mem_map.mp hv
    exact (neutral_of_mem_piecesFrom rfl (h 0) piece hpiece).ofPiece

end Parens

/-! ### The definition by counting -/

namespace Text

open Parens

theorem forall_prefix_cons {P : Text → Prop} {c : Char} {t : Text} :
    (∀ s, s <+: c :: t → P s) ↔ P [] ∧ ∀ s, s <+: t → P (c :: s) := by
  refine ⟨fun h => ⟨h [] List.nil_prefix, fun s hs => h _ (List.cons_prefix_cons.mpr ⟨rfl, hs⟩)⟩,
    fun ⟨hnil, hcons⟩ s hs => ?_⟩
  rcases List.prefix_cons_iff.mp hs with rfl | ⟨s, rfl, hs'⟩
  · exact hnil
  · exact hcons s hs'

/-- The level is what was opened less what was closed, as long as that is not negative. -/
theorem levelAfter?_eq_some_iff {level n : Nat} {t : Text} :
    levelAfter? level t = some n ↔
      (∀ s, s <+: t → s.count ')' ≤ level + s.count '(') ∧
        n + t.count ')' = level + t.count '(' := by
  induction t generalizing level with
  | nil =>
    simp [levelAfter?, eq_comm]
  | cons c t ih =>
    rw [forall_prefix_cons]
    by_cases hopen : c = '('
    · subst hopen
      rw [levelAfter?_opening rfl, ih]
      simp [Nat.add_comm, Nat.add_left_comm]
    by_cases hclose : c = ')'
    · subst hclose
      cases level with
      | zero =>
        -- The first character alone closes more than it opens.
        rw [levelAfter?_closing_zero rfl]
        constructor
        · rintro ⟨⟩
        · rintro ⟨⟨-, hfirst⟩, -⟩
          simpa using hfirst [] List.nil_prefix
      | succ level =>
        rw [levelAfter?_closing_succ rfl, ih]
        simp [Nat.add_right_comm, ← Nat.add_assoc]
    · rw [levelAfter?_other hopen hclose, ih]
      simp [hopen, hclose]

theorem balanced_iff_neutral {t : Text} : t.Balanced ↔ Neutral t := by
  rw [neutral_iff, levelAfter?_eq_some_iff, Balanced]
  simp only [Nat.zero_add, eq_comm]

end Text

/-! ### No open call -/

namespace Outline

variable {α β : Type} [Symbol α] {resolve : Text → Option β}

theorem hasUnclosed_of_levelAfter? {level : Nat} {xs : List α}
    (h : Parens.levelAfter? level xs = some 0) (word : List α) :
    hasUnclosed resolve word xs = false := by
  induction xs generalizing level word with
  | nil => rfl
  | cons a xs ih =>
    by_cases hopen : Symbol.shown a = '('
    · rw [Parens.levelAfter?_opening hopen] at h
      have hclosed : (Parens.close? xs).isSome :=
        Parens.isSome_close?_of_closeFrom (Parens.isSome_closeFrom h [])
      simp only [hasUnclosed, Symbol.isWord_of_opening hopen,
        Option.isNone_eq_false_iff.mpr hclosed, Bool.and_false, Bool.false_or, Bool.false_eq_true,
        if_false]
      exact ih h []
    have hxs := (Parens.levelAfter?_depthAfter h).2
    cases hword : Symbol.isWord a with
    | true => rw [hasUnclosed_word hword, ih hxs]
    | false => rw [hasUnclosed_other hword (fun ha => absurd ha hopen), ih hxs]

/-- **No call in a balanced text is open.** -/
theorem isOpen_scan_of_neutral (resolve : Text → Option β) {xs : List α} (h : Parens.Neutral xs) :
    (scan resolve xs).isOpen = false := by
  rw [isOpen_scan]
  exact hasUnclosed_of_levelAfter? (h 0) []

end Outline

end TextExpander
