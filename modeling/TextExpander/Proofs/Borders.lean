import TextExpander.Proofs.Compose
import TextExpander.Proofs.Words

/-!
# Texts side by side

Where two texts meet there may be a border: no word goes on across it. Then the lexemes of the two
together are those of each, and expansion takes the texts one after the other, provided that no call
goes on across the border either. `expand_append` says so in the words of the scanner, which keeps
the word that it is in. Here the word that a text ends with is found among the lexemes of the text,
so that what has to be known about the border can be said of the texts themselves.

## Main results

* `Lexeme.split_append_of_border`: lexemes on the two sides of a border.
* `Lexeme.getLast?_split`: the word that a text ends with is its last lexeme.
* `expansion_is_compositional`: texts side by side are expanded one after the other.
-/

namespace TextExpander

/-! ### Lexemes on two sides of a border -/

namespace Lexeme

/-- No word goes on from one text into another, and the lexemes of the two are those of each, if one
of the two characters that meet belongs to a word and the other does not. -/
theorem split_append_of_border {s t : Text}
    (h : ∀ c ∈ s.getLast?, ∀ d ∈ t.head?, Text.isWordChar c ≠ Text.isWordChar d) :
    split (s ++ t) = split s ++ split t := by
  have hborder : ∀ c ∈ s.getLast?, ∀ d ∈ t.head?, sameRun c d = false :=
    fun c hc d hd => beq_eq_false_iff_ne.mpr (h c hc d hd)
  rw [split, List.splitBy_append hborder, List.map_append]
  rfl

/-- A word between characters outside words is a lexeme. -/
theorem split_of_word {before word after : Text} (hne : word ≠ [])
    (hword : ∀ c ∈ word, Text.isWordChar c = true)
    (hbefore : ∀ c ∈ before.getLast?, Text.isWordChar c = false)
    (hafter : ∀ c ∈ after.head?, Text.isWordChar c = false) :
    split (before ++ (word ++ after)) = split before ++ ofRun word :: split after := by
  rw [split_append_of_border, split_append hne hword hafter]
  intro c hc d hd
  have hd' : Text.isWordChar d = true := by
    obtain ⟨e, word, rfl⟩ := List.exists_cons_of_ne_nil hne
    obtain rfl : e = d := by simpa using hd
    exact hword e List.mem_cons_self
  rw [hbefore c hc, hd']
  decide

end Lexeme

/-! ### The word that a text ends with -/

namespace Outline

variable {α : Type} [Symbol α]

/-- The word that the scanner is in after a text is what the text ends with, back to a symbol
outside words. -/
theorem eq_append_lastWord (word : List α) (hword : ∀ a ∈ word, Symbol.isWord a = true)
    (xs : List α) :
    ∃ before, word.reverse ++ xs = before ++ (lastWord word xs).reverse ∧
      (∀ a ∈ lastWord word xs, Symbol.isWord a = true) ∧
      ∀ a ∈ before.getLast?, Symbol.isWord a = false := by
  induction xs generalizing word with
  | nil => exact ⟨[], by simp [lastWord], hword, by simp⟩
  | cons a xs ih =>
    rw [lastWord]
    split_ifs with ha
    · obtain ⟨before, heq, hlast⟩ := ih (a :: word) (List.forall_mem_cons.mpr ⟨ha, hword⟩)
      exact ⟨before, by simpa using heq, hlast⟩
    · obtain ⟨before, heq, hlast, hbefore⟩ := ih [] (by simp)
      refine ⟨word.reverse ++ a :: before, ?_, hlast, ?_⟩
      · rw [List.append_assoc, List.cons_append, ← heq]
        rfl
      · rw [List.getLast?_append, List.getLast?_cons]
        cases hlast? : before.getLast? with
        | none => simpa using ha
        | some b => simpa using hbefore b hlast?

end Outline

/-- A text that ends in a word has that word as its last lexeme. -/
theorem Lexeme.getLast?_split {t : Text} (h : Outline.lastWord [] t ≠ []) :
    (split t).getLast? = some (ofRun (Outline.lastWord [] t).reverse) ∧
      ∃ c ∈ t.getLast?, Text.isWordChar c = true := by
  obtain ⟨before, heq, hlast, hbefore⟩ := Outline.eq_append_lastWord [] (by simp) t
  have hne : (Outline.lastWord [] t).reverse ≠ [] := by simpa using h
  have hwords : ∀ c ∈ (Outline.lastWord [] t).reverse, Text.isWordChar c = true :=
    fun c hc => hlast c (List.mem_reverse.mp hc)
  have ht : t = before ++ ((Outline.lastWord [] t).reverse ++ []) := by simpa using heq
  constructor
  · conv_lhs => rw [ht]
    rw [split_of_word hne hwords hbefore (by simp)]
    simp [split]
  · refine ⟨(Outline.lastWord [] t).reverse.getLast hne, ?_, hwords _ (List.getLast_mem hne)⟩
    conv => enter [1]; rw [ht]
    rw [List.append_nil, List.getLast?_append, List.getLast?_eq_some_getLast hne]
    rfl

/-- Nothing goes on from one text into another, if the two characters that meet do not both belong
to words, and if the first text does not end with a name that the second text calls. -/
theorem Outline.apart_of_border {table : Table} {s t : Text}
    (hword : ∀ c ∈ s.getLast?, ∀ d ∈ t.head?,
      ¬ (Text.isWordChar c = true ∧ Text.isWordChar d = true))
    (hcall : ∀ l ∈ (Lexeme.split s).getLast?, l.isIdentifier = true →
      (table.callee? l.chars).isSome = true → t.head? ≠ some '(') :
    Apart table.callee? s t := by
  by_cases hlast : lastWord [] s = []
  · exact Or.inl hlast
  · obtain ⟨hlexeme, c, hc, hcword⟩ := Lexeme.getLast?_split hlast
    refine Or.inr fun d hd => ⟨?_, ?_⟩
    · have hd' : ¬ Text.isWordChar d = true := fun hd' => hword c hc d hd ⟨hcword, hd'⟩
      exact Bool.eq_false_iff.mpr hd'
    · intro hopening
      rw [refer]
      split_ifs with hidentifier
      · -- Were the name known, the second text would not open a call of it.
        by_contra hknown
        refine hcall _ hlexeme ?_ (Option.isSome_iff_ne_none.mpr hknown) ?_
        · rw [Symbol.chars_text] at hidentifier
          rw [Lexeme.isIdentifier_ofRun, hidentifier]
        · rw [Option.mem_def.mp hd]
          exact congrArg some hopening
      · rfl

/-! ### Expansion -/

/-- **Texts side by side are expanded one after the other.** The first text does not end inside a
call; of the two characters that meet, not both belong to words; and the first text does not end
with a name that can be called while the second starts with a parenthesis. Then the expansions of
the two make up the expansion of both together. A fault of the first text comes first, and a fault
of the second counts if there is none. -/
theorem expansion_is_compositional (table : Table) (limit : Nat) (s t : Text)
    (hopen : hasOpenCall table s = false)
    (hword : ∀ c ∈ s.getLast?, ∀ d ∈ t.head?,
      ¬ (Text.isWordChar c = true ∧ Text.isWordChar d = true))
    (hcall : ∀ l ∈ (Lexeme.split s).getLast?, l.isIdentifier = true →
      (table.callee? l.chars).isSome = true → t.head? ≠ some '(') :
    (∀ a b, expand table limit s = .ok a → expand table limit t = .ok b →
      expand table limit (s ++ t) = .ok (a ++ b)) ∧
    (∀ what, expand table limit s = .error what → expand table limit (s ++ t) = .error what) ∧
    (∀ a what, expand table limit s = .ok a → expand table limit t = .error what →
      expand table limit (s ++ t) = .error what) := by
  have happend := expand_append limit hopen (Outline.apart_of_border hword hcall)
  refine ⟨fun a b ha hb => ?_, fun what hwhat => ?_, fun a what ha hwhat => ?_⟩
  · rw [happend, ha, hb]
    rfl
  · rw [happend, hwhat]
    rfl
  · rw [happend, ha, hwhat]
    rfl

/-- The first text ends with a name that can be called, and has a parenthesis that nothing opens; a
blank keeps the name from the parenthesis that the second text goes on with. -/
theorem name_before_a_blank_is_no_call :
    let d : Definition := ⟨['f'], [['x']], "[x]".toList, ⟨⟨['d']⟩, 1⟩⟩
    let table : Table := { entries := [d] }
    hasOpenCall table "f(f(a)) ) f".toList = false ∧
      expand table 2 ("f(f(a)) ) f".toList ++ " (f(b)".toList) =
        .ok ("[[a]] ) f".toList ++ " ([b]".toList) := by
  intro d table
  have hopen : hasOpenCall table "f(f(a)) ) f".toList = false := by decide +kernel
  have hfirst : expand table 2 "f(f(a)) ) f".toList = .ok "[[a]] ) f".toList := by decide +kernel
  have hsecond : expand table 2 " (f(b)".toList = .ok " ([b]".toList := by decide +kernel
  have hword : ∀ c ∈ "f(f(a)) ) f".toList.getLast?, ∀ d ∈ " (f(b)".toList.head?,
      ¬ (Text.isWordChar c = true ∧ Text.isWordChar d = true) := by
    rintro c - d hd ⟨-, hd'⟩
    obtain rfl : ' ' = d := Option.some.inj hd
    exact absurd hd' (by decide)
  have hborder := expansion_is_compositional table 2 "f(f(a)) ) f".toList " (f(b)".toList hopen
    hword (by decide +kernel)
  exact ⟨hopen, hborder.1 _ _ hfirst hsecond⟩

end TextExpander
