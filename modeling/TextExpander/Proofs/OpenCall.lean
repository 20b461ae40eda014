import TextExpander.Expansion
import TextExpander.Proofs.Parens

/-!
# Open calls

A text ends inside a call if its outline does. The outline skips what stands inside the parentheses
of a call, and which parts are skipped depends on which names are known. Said without skipping, a
text ends inside a call if *anywhere* in it a known name is followed by a parenthesis that is never
closed: a name inside a closed call has its parentheses closed too, so skipping it loses nothing.
In this form it is plain that knowing more names never closes a call.

## Main definitions

* `Outline.hasUnclosed`: some known name is followed by a parenthesis that is never closed.

## Main results

* `Outline.isOpen_scan`: the outline is open exactly if there is such a name.
* `hasOpenCall_mono`: more names never close a call.
* `expand_of_hasOpenCall`: a text that ends inside a call has no expansion.
-/

namespace TextExpander

namespace Outline

variable {α β γ : Type} [Symbol α] {resolve : Text → Option β}

/-! ### One symbol at a time -/

@[simp] theorem refer_nil (resolve : Text → Option β) : refer resolve ([] : List α) = none := rfl

theorem findCall_word {a : α} (h : Symbol.isWord a = true) (passed word xs : List α) :
    findCall resolve passed word (a :: xs) = findCall resolve passed (a :: word) xs := by
  rw [findCall, if_pos h]

theorem findCall_call {a : α} (ha : Symbol.shown a = '(') {word : List α} {callee : β}
    (h : refer resolve word.reverse = some callee) (passed xs : List α) :
    findCall resolve passed word (a :: xs) = some ⟨passed.reverse, callee, xs⟩ := by
  simp [findCall, Symbol.isWord_of_opening ha, ha, h]

/-- A symbol that neither goes on with the word nor makes a call of it ends the word. -/
theorem findCall_other {a : α} {word : List α} (hword : Symbol.isWord a = false)
    (h : Symbol.shown a = '(' → refer resolve word.reverse = none) (passed xs : List α) :
    findCall resolve passed word (a :: xs) = findCall resolve (a :: (word ++ passed)) [] xs := by
  rw [findCall, if_neg (by simp [hword])]
  split_ifs with ha
  · rw [h ha]
  · rfl

/-- The three things that a symbol can be to the scanner. -/
theorem symbol_cases (resolve : Text → Option β) (word : List α) (a : α) :
    Symbol.isWord a = true ∨
      (∃ callee, Symbol.shown a = '(' ∧ refer resolve word.reverse = some callee) ∨
      (Symbol.isWord a = false ∧ (Symbol.shown a = '(' → refer resolve word.reverse = none)) := by
  cases hword : Symbol.isWord a with
  | true => exact Or.inl rfl
  | false =>
    by_cases ha : Symbol.shown a = '('
    · cases hrefer : refer resolve word.reverse with
      | none => exact Or.inr (Or.inr ⟨rfl, fun _ => rfl⟩)
      | some callee => exact Or.inr (Or.inl ⟨callee, ha, rfl⟩)
    · exact Or.inr (Or.inr ⟨rfl, fun h => absurd h ha⟩)

/-! ### Names with an unclosed parenthesis -/

/-- Whether somewhere in a text a known name is followed by a parenthesis that is never closed. The
symbols of the word that stands right before the text are given, last first. -/
def hasUnclosed (resolve : Text → Option β) : (word : List α) → List α → Bool
  | _, [] => false
  | word, a :: rest =>
    if Symbol.isWord a then hasUnclosed resolve (a :: word) rest
    else
      (decide (Symbol.shown a = '(') && (refer resolve word.reverse).isSome &&
        (Parens.close? rest).isNone) || hasUnclosed resolve [] rest

theorem hasUnclosed_word {a : α} (h : Symbol.isWord a = true) (word xs : List α) :
    hasUnclosed resolve word (a :: xs) = hasUnclosed resolve (a :: word) xs := by
  rw [hasUnclosed, if_pos h]

theorem hasUnclosed_call {a : α} (ha : Symbol.shown a = '(') {word : List α} {callee : β}
    (h : refer resolve word.reverse = some callee) (xs : List α) :
    hasUnclosed resolve word (a :: xs) =
      ((Parens.close? xs).isNone || hasUnclosed resolve [] xs) := by
  simp [hasUnclosed, Symbol.isWord_of_opening ha, ha, h]

theorem hasUnclosed_other {a : α} {word : List α} (hword : Symbol.isWord a = false)
    (h : Symbol.shown a = '(' → refer resolve word.reverse = none) (xs : List α) :
    hasUnclosed resolve word (a :: xs) = hasUnclosed resolve [] xs := by
  by_cases ha : Symbol.shown a = '('
  · simp [hasUnclosed, hword, h ha]
  · simp [hasUnclosed, hword, ha]

theorem hasUnclosed_of_findCall_none {passed word xs : List α}
    (h : findCall resolve passed word xs = none) : hasUnclosed resolve word xs = false := by
  induction xs generalizing passed word with
  | nil => rfl
  | cons a xs ih =>
    rcases symbol_cases resolve word a with hword | ⟨callee, ha, hcallee⟩ | ⟨hword, hnone⟩
    · rw [findCall_word hword] at h
      rw [hasUnclosed_word hword, ih h]
    · rw [findCall_call ha hcallee] at h
      cases h
    · rw [findCall_other hword hnone] at h
      rw [hasUnclosed_other hword hnone, ih h]

theorem hasUnclosed_of_findCall {passed word xs : List α} {site : CallSite α β}
    (h : findCall resolve passed word xs = some site) :
    hasUnclosed resolve word xs =
      ((Parens.close? site.after).isNone || hasUnclosed resolve [] site.after) := by
  induction xs generalizing passed word with
  | nil => cases h
  | cons a xs ih =>
    rcases symbol_cases resolve word a with hword | ⟨callee, ha, hcallee⟩ | ⟨hword, hnone⟩
    · rw [findCall_word hword] at h
      rw [hasUnclosed_word hword, ih h]
    · rw [findCall_call ha hcallee] at h
      obtain rfl := Option.some.inj h
      rw [hasUnclosed_call ha hcallee]
    · rw [findCall_other hword hnone] at h
      rw [hasUnclosed_other hword hnone, ih h]

/-- **Skipping loses nothing.** What stands before a closing parenthesis holds no unclosed one. -/
theorem hasUnclosed_of_closeFrom {depth : Nat} {passed xs inside rest : List α}
    (h : Parens.closeFrom depth passed xs = some (inside, rest)) (word : List α) :
    hasUnclosed resolve word xs = hasUnclosed resolve [] rest := by
  induction xs generalizing depth passed word with
  | nil => cases h
  | cons a xs ih =>
    by_cases hopen : Symbol.shown a = '('
    · rw [Parens.closeFrom_opening hopen] at h
      have hclosed : (Parens.close? xs).isNone = false := by
        have hsome : (Parens.close? xs).isSome := Parens.isSome_close?_of_closeFrom (by rw [h]; rfl)
        rw [Option.isNone_eq_false_iff]
        exact hsome
      simp only [hasUnclosed, Symbol.isWord_of_opening hopen, hclosed, Bool.and_false,
        Bool.false_or, Bool.false_eq_true, if_false]
      exact ih h []
    have hskip : ∀ {depth}, Parens.closeFrom depth (a :: passed) xs = some (inside, rest) →
        hasUnclosed resolve word (a :: xs) = hasUnclosed resolve [] rest := by
      intro depth h
      cases hword : Symbol.isWord a with
      | true => rw [hasUnclosed_word hword, ih h]
      | false => rw [hasUnclosed_other hword (fun ha => absurd ha hopen), ih h]
    by_cases hclose : Symbol.shown a = ')'
    · cases depth with
      | zero =>
        rw [Parens.closeFrom_closing_zero hclose] at h
        obtain ⟨-, rfl⟩ := by simpa using h
        exact hasUnclosed_other (Symbol.isWord_of_closing hclose) (fun ha => absurd ha hopen) _
      | succ depth =>
        rw [Parens.closeFrom_closing_succ hclose] at h
        exact hskip h
    · rw [Parens.closeFrom_other hopen hclose] at h
      exact hskip h

/-- **Open outlines.** An outline ends in an unclosed call exactly if some known name, at whatever
depth, is followed by a parenthesis that is never closed. -/
theorem isOpen_scan (resolve : Text → Option β) (xs : List α) :
    (scan resolve xs).isOpen = hasUnclosed resolve [] xs := by
  fun_induction scan resolve xs with
  | case1 xs h => rw [hasUnclosed_of_findCall_none h, isOpen]
  | case2 xs site h hclose => rw [hasUnclosed_of_findCall h, hclose, isOpen]; rfl
  | case3 xs site h inside rest hclose ih =>
    rw [isOpen, ih, hasUnclosed_of_findCall h, hclose, hasUnclosed_of_closeFrom hclose]
    rfl

theorem hasUnclosed_mono {resolve' : Text → Option γ}
    (hle : ∀ name, (resolve name).isSome → (resolve' name).isSome) {word xs : List α}
    (h : hasUnclosed resolve word xs = true) : hasUnclosed resolve' word xs = true := by
  have hrefer : ∀ word : List α, (refer resolve word).isSome → (refer resolve' word).isSome := by
    intro word hsome
    rw [refer] at hsome ⊢
    split_ifs at hsome ⊢
    · exact hle _ hsome
    · exact hsome
  induction xs generalizing word with
  | nil => cases h
  | cons a xs ih =>
    rw [hasUnclosed] at h ⊢
    split_ifs at h ⊢
    · exact ih h
    · rw [Bool.or_eq_true, Bool.and_eq_true, Bool.and_eq_true] at h ⊢
      rcases h with ⟨⟨ha, hsome⟩, hnone⟩ | h
      · exact Or.inl ⟨⟨ha, hrefer _ hsome⟩, hnone⟩
      · exact Or.inr (ih h)

end Outline

/-- **More names never close a call.** If every name that can be called under one table can be
called under another, then a text that ends inside a call under the first does so under the
second. -/
theorem hasOpenCall_mono {table table' : Table}
    (hle : ∀ name, (table.callee? name).isSome → (table'.callee? name).isSome) {t : Text}
    (h : hasOpenCall table t = true) : hasOpenCall table' t = true := by
  rw [hasOpenCall, Outline.isOpen_scan] at h ⊢
  exact Outline.hasUnclosed_mono hle h

/-! ### No expansion -/

namespace Expansion

/-- Expanding a fragment replaces the calls of its outline, whatever is left of the limit. -/
theorem exists_expandFragment_eq (table : Table) (limit levels : Nat) :
    ∃ callValue, ∀ f, expandFragment table limit levels f =
      expandOutline callValue (Outline.scan table.callee? f) := by
  cases levels with
  | zero => exact ⟨_, fun f => rfl⟩
  | succ levels => exact ⟨_, fun f => rfl⟩

theorem expandOutline_of_isOpen (callValue : Callee → Fragment → Except Fault Fragment)
    {o : Outline Cell Callee} (h : o.isOpen = true) :
    ∃ what, expandOutline callValue o = .error what := by
  induction o with
  | text rest => cases h
  | unclosed before callee after => exact ⟨_, rfl⟩
  | call before callee inside next ih =>
    obtain ⟨what, hwhat⟩ := ih h
    rw [expandOutline, hwhat]
    cases callValue callee inside with
    | error what' => exact ⟨what', rfl⟩
    | ok value => exact ⟨what, rfl⟩

end Expansion

theorem hasOpenCall_eq_isOpen_plain (table : Table) (t : Text) :
    hasOpenCall table t = (Outline.scan table.callee? (Fragment.plain t)).isOpen := by
  rw [hasOpenCall, ← Outline.isOpen_chars (Outline.scan table.callee? (Fragment.plain t)),
    ← Outline.scan_chars]
  exact congrArg (fun t => (Outline.scan table.callee? t).isOpen) (Fragment.scan_plain t).symm

/-- A text that ends inside a call has no expansion. -/
theorem expand_of_hasOpenCall {table : Table} (limit : Nat) {t : Text}
    (h : hasOpenCall table t = true) : ∃ what, expand table limit t = .error what := by
  obtain ⟨callValue, heq⟩ := Expansion.exists_expandFragment_eq table limit limit
  rw [hasOpenCall_eq_isOpen_plain] at h
  obtain ⟨what, hwhat⟩ := Expansion.expandOutline_of_isOpen callValue h
  exact ⟨what, by rw [expand, heq, hwhat]; rfl⟩

end TextExpander
