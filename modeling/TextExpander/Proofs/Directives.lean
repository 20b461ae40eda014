import TextExpander.Proofs.WellFormed

/-!
# Directives with something around them

Whether a line is a directive is looked at in several places where the line is not quite what was
written: with a blank before and after it, or with the carriage return of its end still there.
Blanks around a line change nothing. A character outside words at the end of a line does not change
what its first word is. But a carriage return is no blank, so that an `include` line with one at its
end is an `include` line no more.

## Main definitions

* `Directive.Plain`: a line that is no directive and does not hold the end of a definition.

## Main results

* `Directive.afterKeyword?_concat`, `Directive.startsDefinition_concat`: the first word of a line,
  with a character outside words at the end.
* `Directive.includePath?_concat`: an `include` line with a blank at its end.
* `Directive.Plain.between_blanks`: a line that is only text, with blanks around it.
-/

namespace TextExpander

theorem Text.notMem_of_isIdentifier {name : Text} (h : isIdentifier name = true) {c : Char}
    (hc : isWordChar c = false) : c ∉ name := by
  intro hmem
  have hword := isWordChar_of_isIdentifier h c hmem
  rw [hc] at hword
  cases hword

namespace Directive

/-! ### The first word -/

theorem isWordChar_of_isBlank {c : Char} (h : isBlank c = true) : Text.isWordChar c = false := by
  rw [isBlank, Bool.or_eq_true, beq_iff_eq, beq_iff_eq] at h
  rcases h with rfl | rfl <;> decide

/-- A keyword is the first word of a line, with the blanks before it dropped, and the word does not
go on. -/
theorem afterKeyword?_eq_some_iff {keyword line rest : Text} :
    afterKeyword? keyword line = some rest ↔
      keyword ++ rest = line.dropWhile isBlank ∧ startsWithWord rest = false := by
  rw [afterKeyword?, Option.filter_eq_some_iff, List.isPrefixOf?_eq_some_iff_append_eq,
    Bool.not_eq_true']

theorem afterKeyword?_cons {c : Char} (h : isBlank c = true) (keyword line : Text) :
    afterKeyword? keyword (c :: line) = afterKeyword? keyword line := by
  rw [afterKeyword?, afterKeyword?, List.dropWhile_cons_of_pos h]

theorem startsWithWord_concat {c : Char} (h : Text.isWordChar c = false) (t : Text) :
    startsWithWord (t ++ [c]) = startsWithWord t := by
  cases t with
  | nil => exact h
  | cons d t => rfl

/-- A last character that is not in the front of a list is in what follows the front. -/
theorem append_eq_concat_iff {front rest whole : Text} {c : Char} (hmem : c ∉ front) :
    front ++ rest = whole ++ [c] ↔ ∃ rest', rest = rest' ++ [c] ∧ front ++ rest' = whole := by
  constructor
  · intro heq
    obtain ⟨rest', hwhole, hrest⟩ | ⟨more, hfront, hlast⟩ := List.append_eq_append_iff.mp heq
    · exact ⟨rest', hrest, hwhole.symm⟩
    · cases more with
      | nil => exact ⟨[], hlast.symm, by simpa using hfront⟩
      | cons d more =>
        obtain rfl : c = d := (List.cons.inj hlast).1
        exact absurd (hfront ▸ List.mem_append_right _ List.mem_cons_self) hmem
  · rintro ⟨rest', rfl, rfl⟩
    exact (List.append_assoc ..).symm

/-- A character outside words at the end of a line comes after the first word. -/
theorem afterKeyword?_concat {keyword : Text} {c : Char} (hne : keyword ≠ [])
    (hmem : c ∉ keyword) (hc : Text.isWordChar c = false) (line : Text) :
    afterKeyword? keyword (line ++ [c]) = (afterKeyword? keyword line).map (· ++ [c]) := by
  ext rest
  rw [afterKeyword?_eq_some_iff, Option.map_eq_some_iff, List.dropWhile_append]
  by_cases hblank : line.dropWhile isBlank = []
  · -- Neither line has a first word, or the second has one of a single character.
    have hshort : keyword ++ rest ≠ [c].dropWhile isBlank := by
      intro heq
      obtain ⟨d, hd⟩ := List.exists_mem_of_ne_nil keyword hne
      have hd' : d ∈ [c].dropWhile isBlank := heq ▸ List.mem_append_left rest hd
      obtain rfl := List.mem_singleton.mp (List.dropWhile_subset _ hd')
      exact hmem hd
    have hnone : ∀ rest', afterKeyword? keyword line ≠ some rest' := by
      intro rest' hrest'
      have heq := (afterKeyword?_eq_some_iff.mp hrest').1
      exact hne (List.append_eq_nil_iff.mp (heq.trans hblank)).1
    simp [hblank, hshort, hnone]
  · rw [List.isEmpty_eq_false_iff.mpr hblank, if_neg Bool.false_ne_true, append_eq_concat_iff hmem]
    constructor
    · rintro ⟨⟨rest', rfl, hline⟩, hrest⟩
      rw [startsWithWord_concat hc] at hrest
      exact ⟨rest', afterKeyword?_eq_some_iff.mpr ⟨hline, hrest⟩, rfl⟩
    · rintro ⟨rest', hrest', rfl⟩
      obtain ⟨hline, hword⟩ := afterKeyword?_eq_some_iff.mp hrest'
      exact ⟨⟨rest', rfl, hline⟩, by rwa [startsWithWord_concat hc]⟩

theorem startsDefinition_cons {c : Char} (h : isBlank c = true) (line : Text) :
    startsDefinition (c :: line) = startsDefinition line := by
  rw [startsDefinition, startsDefinition, afterKeyword?_cons h]

theorem startsDefinition_concat {c : Char} (h : Text.isWordChar c = false) (line : Text) :
    startsDefinition (line ++ [c]) = startsDefinition line := by
  have hmem : c ∉ defineKeyword := Text.notMem_of_isIdentifier (by decide) h
  rw [startsDefinition, startsDefinition, afterKeyword?_concat (by decide) hmem h,
    Option.isSome_map]

/-! ### The path of an `include` line -/

theorem readPath_escape (passed : Text) (c : Char) (rest : Text) :
    readPath passed ('\\' :: c :: rest) = readPath (unescape c :: passed) rest := by
  rw [readPath]

theorem readPath_plain {c : Char} (hquote : c ≠ '"') (hescape : c ≠ '\\') (passed rest : Text) :
    readPath passed (c :: rest) = readPath (c :: passed) rest := by
  rw [readPath]
  · exact hquote
  · exact fun h _ => hescape h
  · exact fun _ _ h _ => hescape h

/-- Only a quote ends a path; what comes after the quote does not belong to it. -/
theorem readPath_concat {c : Char} (hc : c ≠ '"') (passed quoted : Text) :
    readPath passed (quoted ++ [c]) =
      (readPath passed quoted).map fun read => (read.1, read.2 ++ [c]) := by
  fun_induction readPath passed quoted with
  | case1 passed =>
    by_cases hescape : c = '\\'
    · rw [hescape]
      rfl
    · rw [List.nil_append, readPath_plain hc hescape]
      rfl
  | case2 passed rest => rfl
  | case3 passed => exact readPath_escape passed c []
  | case4 passed d rest ih => exact (readPath_escape passed d (rest ++ [c])).trans ih
  | case5 passed d rest hquote hlast hescape ih =>
    have hd : d ≠ '\\' := by
      intro hd
      cases rest with
      | nil => exact hlast hd rfl
      | cons e rest => exact hescape e rest hd rfl
    exact (readPath_plain hquote hd passed (rest ++ [c])).trans ih

theorem includePath?_cons {c : Char} (h : isBlank c = true) (line : Text) :
    includePath? (c :: line) = includePath? line := by
  rw [includePath?, includePath?, afterKeyword?_cons h]

/-- The path in quotes, with blanks around it, that follows the keyword of an `include` line. -/
def quotedPath? (rest : Text) : Option Text :=
  match rest.dropWhile isBlank with
  | '"' :: quoted =>
    (readPath [] quoted).bind fun read => if read.2.all isBlank then some read.1 else none
  | _ => none

theorem includePath?_eq_bind (line : Text) :
    includePath? line = (afterKeyword? includeKeyword line).bind quotedPath? := rfl

theorem quotedPath?_concat {c : Char} (h : isBlank c = true) (rest : Text) :
    quotedPath? (rest ++ [c]) = quotedPath? rest := by
  have hc : c ≠ '"' := by
    rintro rfl
    exact absurd h (by decide)
  rw [quotedPath?, quotedPath?, List.dropWhile_append]
  cases hrest : rest.dropWhile isBlank with
  | nil =>
    rw [List.isEmpty_nil, if_pos rfl, List.dropWhile_cons_of_pos h]
    rfl
  | cons d quoted =>
    rw [List.isEmpty_cons, if_neg Bool.false_ne_true, List.cons_append]
    by_cases hd : d = '"'
    · subst hd
      simp only [readPath_concat hc, Option.bind_map, Function.comp_def, List.all_append,
        List.all_cons, List.all_nil, h, Bool.and_true]
    · split
      · exact absurd (List.cons.inj ‹_›).1 hd
      · split
        · exact absurd (List.cons.inj ‹_›).1 hd
        · rfl

/-- A blank at the end of a line changes nothing. -/
theorem includePath?_concat {c : Char} (h : isBlank c = true) (line : Text) :
    includePath? (line ++ [c]) = includePath? line := by
  have hword := isWordChar_of_isBlank h
  have hmem : c ∉ includeKeyword := Text.notMem_of_isIdentifier (by decide) hword
  rw [includePath?_eq_bind, includePath?_eq_bind, afterKeyword?_concat (by decide) hmem hword,
    Option.bind_map]
  exact congrArg (Option.bind _) (funext (quotedPath?_concat h))

/-! ### Lines that are only text -/

/-- A line that is no directive and does not hold the end of a definition. -/
structure Plain (line : Text) : Prop where
  /-- It includes no file. -/
  not_include : includePath? line = none
  /-- It does not begin a definition. -/
  not_definition : startsDefinition line = false
  /-- It does not end a definition. -/
  no_end : endKeyword ∉ Lexeme.identifiers line

theorem plain_iff {line : Text} :
    Plain line ↔ includePath? line = none ∧ startsDefinition line = false ∧
      endKeyword ∉ Lexeme.identifiers line :=
  ⟨fun h => ⟨h.not_include, h.not_definition, h.no_end⟩, fun ⟨hi, hd, he⟩ => ⟨hi, hd, he⟩⟩

instance (line : Text) : Decidable (Plain line) :=
  decidable_of_iff _ plain_iff.symm

theorem Plain.cutAtEnd? {line : Text} (h : Plain line) : cutAtEnd? line = none :=
  Lexeme.cutAt_eq_none_iff.mpr h.no_end

/-- Blanks around a line do not make it a directive. -/
theorem Plain.between_blanks {line : Text} (h : Plain line) {c d : Char} (hc : isBlank c = true)
    (hd : isBlank d = true) : Plain (c :: (line ++ [d])) where
  not_include := by rw [includePath?_cons hc, includePath?_concat hd, h.not_include]
  not_definition := by
    rw [startsDefinition_cons hc, startsDefinition_concat (isWordChar_of_isBlank hd),
      h.not_definition]
  no_end := by
    have hleft : ∀ a ∈ [c], Text.isWordChar a = false :=
      List.forall_mem_singleton.mpr (isWordChar_of_isBlank hc)
    have hright : ∀ a ∈ [d], Text.isWordChar a = false :=
      List.forall_mem_singleton.mpr (isWordChar_of_isBlank hd)
    rw [← List.singleton_append, Lexeme.identifiers_append_left hleft,
      Lexeme.identifiers_append_right hright]
    exact h.no_end

end Directive

end TextExpander
