import TextExpander.Proofs.OpenCall

/-!
# One text after another

If a text does not end inside a call, and neither a word nor a call goes on from it into the text
that follows, then the outline of the two together is the outline of the first followed by that of
the second. The calls of both are then expanded as if each text stood alone, and the faults of the
first come first.

## Main definitions

* `Outline.lastWord`: the word that a text ends with.
* `Outline.Apart`: nothing goes on from one text into another.
* `Outline.append`: one outline after another.

## Main results

* `Outline.scan_append`: the outline of two texts.
* `expand_append`: the expansion of two texts.
-/

namespace TextExpander

namespace Outline

variable {α β : Type} [Symbol α] {resolve : Text → Option β}

/-! ### Nothing goes on -/

/-- The word that the scanner is in after a text, last symbol first, if it is in the word `word`
before it. -/
def lastWord : (word : List α) → List α → List α
  | word, [] => word
  | word, a :: rest => if Symbol.isWord a then lastWord (a :: word) rest else lastWord [] rest

/-- A word ends where a symbol does not belong to one. -/
theorem lastWord_append_cons {a : α} (h : Symbol.isWord a = false) (word xs ys : List α) :
    lastWord word (xs ++ a :: ys) = lastWord [] ys := by
  induction xs generalizing word with
  | nil => simp [lastWord, h]
  | cons b xs ih =>
    rw [List.cons_append, lastWord]
    split_ifs
    · exact ih (b :: word)
    · exact ih []

/-- Neither the word `word` goes on in a text, nor is it the name of a call that opens there. -/
def EndsBefore (resolve : Text → Option β) (word xs : List α) : Prop :=
  word = [] ∨ ∀ a ∈ xs.head?,
    Symbol.isWord a = false ∧ (Symbol.shown a = '(' → refer resolve word.reverse = none)

/-- Neither a word nor a call goes on from one text into another. -/
def Apart (resolve : Text → Option β) (xs ys : List α) : Prop :=
  EndsBefore resolve (lastWord [] xs) ys

theorem lastWord_chars (word xs : List α) :
    lastWord (Symbol.chars word) (Symbol.chars xs) = Symbol.chars (lastWord word xs) := by
  induction xs generalizing word with
  | nil => rfl
  | cons a xs ih =>
    rw [Symbol.chars_cons, lastWord, lastWord, Symbol.isWord_shown]
    split_ifs
    · exact ih (a :: word)
    · exact ih []

theorem apart_chars_iff {xs ys : List α} :
    Apart resolve (Symbol.chars xs) (Symbol.chars ys) ↔ Apart resolve xs ys := by
  have hlast : lastWord [] (Symbol.chars xs) = Symbol.chars (lastWord [] xs) := lastWord_chars [] xs
  rw [Apart, Apart, EndsBefore, EndsBefore, hlast, Symbol.chars_eq_nil_iff, ← Symbol.chars_reverse,
    refer_chars]
  cases ys with
  | nil => simp
  | cons a ys => simp

theorem findCall_of_endsBefore {word ys : List α} (h : EndsBefore resolve word ys)
    (passed : List α) :
    findCall resolve passed word ys = findCall resolve (word ++ passed) [] ys := by
  rcases h with rfl | h
  · rfl
  · cases ys with
    | nil => rfl
    | cons a ys =>
      obtain ⟨hword, hnone⟩ := h a rfl
      rw [findCall_other hword hnone, findCall_other hword (fun _ => rfl)]
      rfl

/-! ### The first call -/

theorem findCall_append_of_some {passed word xs : List α} {site : CallSite α β}
    (h : findCall resolve passed word xs = some site) (ys : List α) :
    findCall resolve passed word (xs ++ ys) =
      some ⟨site.before, site.callee, site.after ++ ys⟩ := by
  induction xs generalizing passed word with
  | nil => cases h
  | cons a xs ih =>
    rw [List.cons_append]
    rcases symbol_cases resolve word a with hword | ⟨callee, ha, hcallee⟩ | ⟨hword, hnone⟩
    · rw [findCall_word hword] at h ⊢
      exact ih h
    · rw [findCall_call ha hcallee] at h ⊢
      obtain rfl := Option.some.inj h
      rfl
    · rw [findCall_other hword hnone] at h ⊢
      exact ih h

theorem findCall_append_of_none {passed word xs ys : List α}
    (h : findCall resolve passed word xs = none)
    (hapart : EndsBefore resolve (lastWord word xs) ys) :
    findCall resolve passed word (xs ++ ys) =
      findCall resolve (xs.reverse ++ (word ++ passed)) [] ys := by
  induction xs generalizing passed word with
  | nil => exact findCall_of_endsBefore hapart passed
  | cons a xs ih =>
    rw [List.cons_append, List.reverse_cons, List.append_assoc]
    rcases symbol_cases resolve word a with hword | ⟨callee, ha, hcallee⟩ | ⟨hword, hnone⟩
    · rw [findCall_word hword] at h ⊢
      rw [lastWord, if_pos hword] at hapart
      exact ih h hapart
    · rw [findCall_call ha hcallee] at h
      cases h
    · rw [findCall_other hword hnone] at h ⊢
      rw [lastWord, if_neg (by simp [hword])] at hapart
      exact ih h hapart

/-- What was passed before a call stands in front of it. -/
theorem findCall_passed (resolve : Text → Option β) (passed earlier word xs : List α) :
    findCall resolve (passed ++ earlier) word xs =
      (findCall resolve passed word xs).map fun site =>
        ⟨earlier.reverse ++ site.before, site.callee, site.after⟩ := by
  induction xs generalizing passed word with
  | nil => rfl
  | cons a xs ih =>
    rcases symbol_cases resolve word a with hword | ⟨callee, ha, hcallee⟩ | ⟨hword, hnone⟩
    · rw [findCall_word hword, findCall_word hword, ih]
    · rw [findCall_call ha hcallee, findCall_call ha hcallee, List.reverse_append]
      rfl
    · rw [findCall_other hword hnone, findCall_other hword hnone, ← ih]
      simp

theorem findCall_append_fresh {xs ys : List α} (h : findCall resolve [] [] xs = none)
    (hapart : Apart resolve xs ys) :
    findCall resolve [] [] (xs ++ ys) =
      (findCall resolve [] [] ys).map fun site =>
        ⟨xs ++ site.before, site.callee, site.after⟩ := by
  have hpassed := findCall_passed resolve [] xs.reverse [] ys
  rw [List.nil_append, List.reverse_reverse] at hpassed
  rw [findCall_append_of_none h hapart, List.append_nil, List.append_nil, hpassed]

/-- A call is found in the text. -/
theorem eq_append_of_findCall {passed word xs : List α} {site : CallSite α β}
    (h : findCall resolve passed word xs = some site) : ∃ before, xs = before ++ site.after := by
  induction xs generalizing passed word with
  | nil => cases h
  | cons a xs ih =>
    rcases symbol_cases resolve word a with hword | ⟨callee, ha, hcallee⟩ | ⟨hword, hnone⟩
    · rw [findCall_word hword] at h
      obtain ⟨before, hxs⟩ := ih h
      exact ⟨a :: before, by rw [List.cons_append, ← hxs]⟩
    · rw [findCall_call ha hcallee] at h
      obtain rfl := Option.some.inj h
      exact ⟨[a], rfl⟩
    · rw [findCall_other hword hnone] at h
      obtain ⟨before, hxs⟩ := ih h
      exact ⟨a :: before, by rw [List.cons_append, ← hxs]⟩

/-! ### Outlines -/

/-- An outline with text in front of it. -/
def prepend (xs : List α) : Outline α β → Outline α β
  | text rest => text (xs ++ rest)
  | unclosed before callee after => unclosed (xs ++ before) callee after
  | call before callee inside next => call (xs ++ before) callee inside next

/-- One outline after another. Nothing can follow a call that is never closed. -/
def append : Outline α β → Outline α β → Outline α β
  | text rest, o => o.prepend rest
  | unclosed before callee after, _ => unclosed before callee after
  | call before callee inside next, o => call before callee inside (next.append o)

/-- **The outline of two texts.** -/
theorem scan_append {xs ys : List α} (hopen : (scan resolve xs).isOpen = false)
    (hapart : Apart resolve xs ys) :
    scan resolve (xs ++ ys) = (scan resolve xs).append (scan resolve ys) := by
  fun_induction scan resolve xs with
  | case1 xs h =>
    have hfind := findCall_append_fresh h hapart
    fun_induction scan resolve ys with
    | case1 ys h' =>
      rw [h'] at hfind
      rw [scan_of_none hfind, append, prepend]
    | case2 ys site h' hclose =>
      rw [h'] at hfind
      rw [scan_of_unclosed hfind hclose, append, prepend]
    | case3 ys site h' inside rest hclose =>
      rw [h'] at hfind
      rw [scan_of_call hfind hclose, append, prepend]
  | case2 xs site h hclose => cases hopen
  | case3 xs site h inside rest hclose ih =>
    have hapart' : Apart resolve rest ys := by
      obtain ⟨before, hxs⟩ := eq_append_of_findCall h
      obtain ⟨a, ha, hafter⟩ := Parens.eq_of_close? hclose
      rw [Apart, hxs, hafter, ← List.append_assoc,
        lastWord_append_cons (Symbol.isWord_of_closing ha)] at hapart
      exact hapart
    rw [scan_of_call (findCall_append_of_some h ys) (Parens.close?_append hclose ys),
      ih hopen hapart', append]

end Outline

/-! ### Expansion -/

namespace Expansion

theorem expandOutline_prepend (callValue : Callee → Fragment → Except Fault Fragment)
    (f : Fragment) (o : Outline Cell Callee) :
    expandOutline callValue (o.prepend f) = (expandOutline callValue o).map (f ++ ·) := by
  cases o with
  | text rest => rfl
  | unclosed before callee after => rfl
  | call before callee inside next =>
    simp only [Outline.prepend, expandOutline]
    cases callValue callee inside with
    | error what => rfl
    | ok value =>
      cases hnext : expandOutline callValue next with
      | error what => rfl
      | ok rest => simp [bind, Except.bind, pure, Except.pure, Except.map]

theorem expandOutline_append (callValue : Callee → Fragment → Except Fault Fragment)
    {o : Outline Cell Callee} (h : o.isOpen = false) (o' : Outline Cell Callee) :
    expandOutline callValue (o.append o') = (do
      let f ← expandOutline callValue o
      let g ← expandOutline callValue o'
      return f ++ g) := by
  induction o with
  | text rest =>
    rw [Outline.append, expandOutline_prepend]
    cases expandOutline callValue o' <;> rfl
  | unclosed before callee after => cases h
  | call before callee inside next ih =>
    rw [Outline.append, expandOutline, expandOutline, ih h]
    cases callValue callee inside with
    | error what => rfl
    | ok value =>
      cases expandOutline callValue next with
      | error what => rfl
      | ok rest =>
        cases expandOutline callValue o' with
        | error what => rfl
        | ok g => simp [bind, Except.bind, pure, Except.pure]

theorem expandFragment_append {table : Table} (limit levels : Nat) {f g : Fragment}
    (hopen : (Outline.scan table.callee? f).isOpen = false)
    (hapart : Outline.Apart table.callee? f g) :
    expandFragment table limit levels (f ++ g) = (do
      let f' ← expandFragment table limit levels f
      let g' ← expandFragment table limit levels g
      return f' ++ g') := by
  obtain ⟨callValue, heq⟩ := exists_expandFragment_eq table limit levels
  rw [heq, heq, heq, Outline.scan_append hopen hapart, expandOutline_append callValue hopen]

end Expansion

/-- **The expansion of two texts.** If the first does not end inside a call, and nothing goes on
from it into the second, then the two are expanded one after the other. -/
theorem expand_append {table : Table} (limit : Nat) {s t : Text}
    (hopen : hasOpenCall table s = false) (hapart : Outline.Apart table.callee? s t) :
    expand table limit (s ++ t) = (do
      let a ← expand table limit s
      let b ← expand table limit t
      return a ++ b) := by
  rw [hasOpenCall_eq_isOpen_plain] at hopen
  have hapart' : Outline.Apart table.callee? (Fragment.plain s) (Fragment.plain t) := by
    rw [← Outline.apart_chars_iff]
    rwa [← Fragment.scan_plain s, ← Fragment.scan_plain t] at hapart
  have hplain : Fragment.plain (s ++ t) = Fragment.plain s ++ Fragment.plain t := List.map_append
  simp only [expand, hplain, Expansion.expandFragment_append limit limit hopen hapart']
  cases Expansion.expandFragment table limit limit (Fragment.plain s) with
  | error what => rfl
  | ok f =>
    cases Expansion.expandFragment table limit limit (Fragment.plain t) with
    | error what => rfl
    | ok g => exact congrArg Except.ok (Fragment.text_append f g)

end TextExpander
