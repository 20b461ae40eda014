import Mathlib.Data.List.DropRight
import Mathlib.Data.List.TakeDrop
import TextExpander.Directive
import TextExpander.Proofs.ArgumentRanges
import TextExpander.Proofs.Bodies

/-!
# The words of a text that is put together

The body of a definition is cut out of several lines, joined with line feeds and trimmed. Which
names it holds can still be read off the lines: no word goes on across a character outside words,
and neither a line feed nor white space of any kind belongs to a word.

The lexemes of a text are its runs, and the runs between words merge when texts are put together. So
the identifiers are first said without these runs: they are the identifiers among the pieces that
the characters outside words cut a text into (`Lexeme.identifiers_eq`). A cut at a character is then
a cut of the list of pieces.

## Main results

* `Lexeme.identifiers_append_cons`: identifiers on the two sides of a character outside words.
* `Lexeme.identifiers_joinLines`, `Lexeme.identifiers_trim`: lines put together, and trimmed text.
* `Lexeme.cutAt_eq_none_iff`, `Lexeme.eq_of_cutAt`: what a cut at a name gives.
-/

namespace TextExpander

/-! ### White space -/

namespace Text

/-- White space belongs to no word. -/
theorem isWordChar_of_isSpace {c : Char} (h : isSpace c = true) : isWordChar c = false := by
  obtain ⟨codes, hmem, hcodes⟩ : ∃ codes : List Nat,
      c.toNat ∈ codes ∧ ∀ n ∈ codes, isWordChar (Char.ofNat n) = false := by
    refine ⟨[0x9, 0xA, 0xB, 0xC, 0xD, 0x20, 0x85, 0xA0, 0x1680, 0x2000, 0x2001, 0x2002, 0x2003,
      0x2004, 0x2005, 0x2006, 0x2007, 0x2008, 0x2009, 0x200A, 0x2028, 0x2029, 0x202F, 0x205F,
      0x3000], ?_, by decide +kernel⟩
    simp only [isSpace, Bool.or_eq_true, Bool.and_eq_true, decide_eq_true_eq, beq_iff_eq] at h
    simp only [List.mem_cons, List.not_mem_nil]
    omega
  have hword := hcodes _ hmem
  rwa [Char.ofNat_toNat] at hword

end Text

namespace Symbol

variable {α : Type} [Symbol α]

/-- What was trimmed has nothing left to trim. -/
theorem trim_trim (xs : List α) : trim (trim xs) = trim xs := by
  have hleft : trimLeft (trimLeft (trimRight xs)) = trimLeft (trimRight xs) :=
    List.dropWhile_idempotent ..
  have hright : trimRight (trimLeft (trimRight xs)) = trimLeft (trimRight xs) := by
    refine List.rdropWhile_eq_self_iff.mpr fun hne => ?_
    have hne' : trimRight xs ≠ [] := fun h => hne (by rw [h]; rfl)
    have hlast : (trimLeft (trimRight xs)).getLast hne = (trimRight xs).getLast hne' :=
      (List.dropWhile_suffix _).getLast hne
    rw [hlast]
    exact List.rdropWhile_last_not _ _ hne'
  rw [trim, trim, hright, hleft]

/-- A text is its trimmed part between white space. -/
theorem exists_trim (xs : List α) :
    ∃ before after, xs = before ++ trim xs ++ after ∧ (∀ a ∈ before, isSpace a = true) ∧
      ∀ a ∈ after, isSpace a = true := by
  obtain ⟨after, hxs, hafter⟩ := exists_trimRight xs
  refine ⟨(trimRight xs).takeWhile isSpace, after, ?_, fun a => List.mem_takeWhile_imp, hafter⟩
  rw [← trimRight_eq, ← hxs]

theorem trim_append_right {after : List α} (h : ∀ a ∈ after, isSpace a = true) (xs : List α) :
    trim (xs ++ after) = trim xs := by
  have hafter : ∀ a ∈ after.reverse, isSpace a = true := fun a ha => h a (List.mem_reverse.mp ha)
  rw [trim, trim, trimRight, trimRight, List.reverse_append, List.dropWhile_append_of_pos hafter]

theorem trim_append_left {before : List α} (h : ∀ a ∈ before, isSpace a = true) (xs : List α) :
    trim (before ++ xs) = trim xs := by
  have hbefore : ∀ a ∈ before.reverse, isSpace a = true := fun a ha => h a (List.mem_reverse.mp ha)
  rw [trim, trim, trimRight, trimRight, List.reverse_append, List.dropWhile_append]
  split_ifs with hblank
  · -- There is nothing but white space.
    rw [List.isEmpty_iff.mp hblank, List.dropWhile_eq_nil_iff.mpr hbefore]
  · rw [List.reverse_append, List.reverse_reverse, trimLeft, trimLeft,
      List.dropWhile_append_of_pos h]

/-- There is nothing to trim where neither end is white space. -/
theorem trim_of_ends {xs : List α} (hfirst : ∀ a ∈ xs.head?, isSpace a = false)
    (hlast : ∀ a ∈ xs.getLast?, isSpace a = false) : trim xs = xs := by
  have hkeep : ∀ ys : List α, (∀ a ∈ ys.head?, isSpace a = false) → ys.dropWhile isSpace = ys := by
    intro ys hys
    cases ys with
    | nil => rfl
    | cons a ys => exact List.dropWhile_cons_of_neg (by simp [hys a rfl])
  rw [trim, trimRight, hkeep xs.reverse (by rwa [List.head?_reverse]), List.reverse_reverse]
  exact hkeep xs hfirst

theorem trim_of_forall {xs : List α} (h : ∀ a ∈ xs, isSpace a = false) : trim xs = xs :=
  trim_of_ends (fun a ha => h a (List.mem_of_mem_head? ha))
    fun a ha => h a (List.mem_of_mem_getLast? ha)

end Symbol

/-! ### Identifiers -/

namespace Lexeme

/-- Whether a character stands outside words. -/
def isBreak (c : Char) : Bool :=
  !Text.isWordChar c

theorem identifiers_append {run rest : Text} {b : Bool} (hne : run ≠ [])
    (hrun : ∀ a ∈ run, Text.isWordChar a = b) (hrest : ∀ a ∈ rest.head?, Text.isWordChar a = !b) :
    identifiers (run ++ rest) = [run].filter Text.isIdentifier ++ identifiers rest := by
  rw [identifiers, split_append hne hrun hrest, List.filter_cons, isIdentifier_ofRun]
  cases hrunid : Text.isIdentifier run with
  | true => simp [identifiers, hrunid, chars, ofRun]
  | false => simp [identifiers, hrunid]

theorem filter_splitOnP_break {run : Text} (hrun : ∀ a ∈ run, Text.isWordChar a = false)
    (rest : Text) :
    ((run ++ rest).splitOnP isBreak).filter Text.isIdentifier =
      (rest.splitOnP isBreak).filter Text.isIdentifier := by
  induction run with
  | nil => rfl
  | cons c run ih =>
    have hc : isBreak c = true := by simp [isBreak, hrun c List.mem_cons_self]
    rw [List.cons_append, ← List.nil_append (c :: (run ++ rest)),
      List.splitOnP_append_cons [] _ hc, List.filter_append, List.splitOnP_nil]
    exact ih fun a ha => hrun a (List.mem_cons_of_mem c ha)

/-- **Identifiers without lexemes.** They are the identifiers among the pieces between characters
outside words. -/
theorem identifiers_eq (t : Text) :
    identifiers t = (t.splitOnP isBreak).filter Text.isIdentifier := by
  induction t using run_induction Text.isWordChar with
  | nil => rfl
  | run b run rest hne hrun hrest ih =>
    rw [identifiers_append hne hrun hrest, ih]
    cases b with
    | false =>
      rw [filter_splitOnP_break hrun]
      have hnone : [run].filter Text.isIdentifier = [] := by
        rw [List.filter_eq_nil_iff, List.forall_mem_singleton]
        intro hid
        exact Bool.false_ne_true
          (eq_true_of_isIdentifier (fun c => Text.isWordChar_of_isAsciiWord) hid hrun)
      rw [hnone, List.nil_append]
    | true =>
      have hwords : ∀ a ∈ run, isBreak a = false := fun a ha => by simp [isBreak, hrun a ha]
      cases rest with
      | nil =>
        rw [List.append_nil, List.splitOnP_eq_singleton hwords]
        exact List.append_nil _
      | cons d rest =>
        have hd : isBreak d = true := by simp [isBreak, hrest d rfl]
        rw [List.splitOnP_append_cons run rest hd, List.splitOnP_eq_singleton hwords,
          List.filter_append, ← List.nil_append (d :: rest), List.splitOnP_append_cons [] rest hd,
          List.filter_append, List.splitOnP_nil]
        rfl

/-- **No name goes on across a character outside words.** -/
theorem identifiers_append_cons {c : Char} (hc : Text.isWordChar c = false) (s t : Text) :
    identifiers (s ++ c :: t) = identifiers s ++ identifiers t := by
  have hbreak : isBreak c = true := by simp [isBreak, hc]
  rw [identifiers_eq, identifiers_eq, identifiers_eq, List.splitOnP_append_cons s t hbreak,
    List.filter_append]

theorem identifiers_append_left {s : Text} (hs : ∀ c ∈ s, Text.isWordChar c = false) (t : Text) :
    identifiers (s ++ t) = identifiers t := by
  rw [identifiers_eq, identifiers_eq, filter_splitOnP_break hs]

theorem identifiers_append_right {s : Text} (hs : ∀ c ∈ s, Text.isWordChar c = false) (t : Text) :
    identifiers (t ++ s) = identifiers t := by
  cases s with
  | nil => rw [List.append_nil]
  | cons c s =>
    have hrest := identifiers_append_left (fun a ha => hs a (List.mem_cons_of_mem c ha)) []
    rw [List.append_nil] at hrest
    rw [identifiers_append_cons (hs c List.mem_cons_self), hrest]
    exact List.append_nil _

theorem identifiers_trim (t : Text) : identifiers (Symbol.trim t) = identifiers t := by
  obtain ⟨before, after, ht, hbefore, hafter⟩ := Symbol.exists_trim t
  conv_rhs => rw [ht]
  rw [identifiers_append_right fun c hc => Text.isWordChar_of_isSpace (hafter c hc),
    identifiers_append_left fun c hc => Text.isWordChar_of_isSpace (hbefore c hc)]

theorem identifiers_joinLines (lines : List Text) :
    identifiers (Text.joinLines lines) = lines.flatMap identifiers := by
  induction lines with
  | nil => rfl
  | cons line lines ih =>
    by_cases hlines : lines = []
    · rw [hlines, Text.joinLines_singleton, List.flatMap_singleton]
    · rw [Text.joinLines_cons hlines, identifiers_append_cons (by decide), ih, List.flatMap_cons]

/-! ### Cutting at a name -/

/-- The lexemes that a text starts with are the lexemes of what they make up. -/
theorem split_concat {t : Text} {before after : List (Lexeme Char)}
    (h : split t = before ++ after) : split (concat before) = before := by
  obtain ⟨runs, rest, hruns, rfl, -⟩ := List.map_eq_append_iff.mp h
  have hflat : concat (runs.map ofRun) = runs.flatten := by
    rw [concat, List.flatMap_map]
    exact List.flatMap_id
  have hnil : [] ∉ runs := fun hmem =>
    List.nil_notMem_splitBy sameRun t (hruns ▸ List.mem_append_left rest hmem)
  have hchain := List.isChain_getLast_head_splitBy sameRun t
  rw [hruns] at hchain
  rw [hflat, split, List.splitBy_flatten hnil (fun run hrun => ?_) hchain.left_of_append]
  exact List.isChain_of_mem_splitBy (hruns ▸ List.mem_append_left rest hrun)

theorem mem_identifiers_iff {name t : Text} :
    name ∈ identifiers t ↔ ∃ l ∈ split t, l.isNamed name = true := by
  simp [identifiers, isNamed, and_assoc]

/-- Either no lexeme is the name, or the text is cut at the first that is. -/
theorem cutAt_cases (name t : Text) :
    (cutAt name t = none ∧ ∀ l ∈ split t, l.isNamed name = false) ∨
      ∃ before l after, split t = before ++ l :: after ∧ (∀ k ∈ before, k.isNamed name = false) ∧
        l.isNamed name = true ∧ cutAt name t = some (concat before, concat after) := by
  let other : Lexeme Char → Bool := fun l => !l.isNamed name
  have hspan : (split t).span other = ((split t).takeWhile other, (split t).dropWhile other) :=
    List.span_eq_takeWhile_dropWhile other (split t)
  cases hdrop : (split t).dropWhile other with
  | nil =>
    refine .inl ⟨by rw [cutAt, hspan, hdrop], fun l hl => ?_⟩
    simpa [other] using List.dropWhile_eq_nil_iff.mp hdrop l hl
  | cons l after =>
    refine .inr ⟨(split t).takeWhile other, l, after, ?_, fun k hk => ?_, ?_, ?_⟩
    · rw [← hdrop, List.takeWhile_append_dropWhile]
    · have hother : other k = true := List.mem_takeWhile_imp hk
      simpa [other] using hother
    · have hhead := List.head?_dropWhile_not other (split t)
      rw [hdrop] at hhead
      simpa [other] using hhead
    · rw [cutAt, hspan, hdrop]

theorem cutAt_eq_none_iff {name t : Text} : cutAt name t = none ↔ name ∉ identifiers t := by
  rw [mem_identifiers_iff]
  rcases cutAt_cases name t with ⟨hcut, hnone⟩ | ⟨before, l, after, hsplit, -, hl, hcut⟩
  · simpa [hcut] using hnone
  · have hmem : l ∈ split t := hsplit ▸ List.mem_append_right _ List.mem_cons_self
    simpa [hcut] using ⟨l, hmem, hl⟩

/-- What a cut gives: the parts on both sides of the name, and the first one does not hold it. -/
theorem eq_of_cutAt {name t part rest : Text} (h : cutAt name t = some (part, rest)) :
    t = part ++ name ++ rest ∧ name ∉ identifiers part := by
  rcases cutAt_cases name t with ⟨hcut, -⟩ | ⟨before, l, after, hsplit, hbefore, hl, hcut⟩
  · rw [hcut] at h
    cases h
  · obtain ⟨rfl, rfl⟩ := Prod.mk.inj (Option.some.inj (hcut.symm.trans h))
    refine ⟨?_, ?_⟩
    · have hname : l.symbols = name := by
        rw [isNamed, Bool.and_eq_true, beq_iff_eq, chars, Symbol.chars_text] at hl
        exact hl.2
      have ht : concat (before ++ l :: after) = t := hsplit ▸ Offsets.concat_split t
      rw [← ht, ← hname]
      simp [concat]
    · rw [mem_identifiers_iff, split_concat hsplit]
      rintro ⟨k, hk, hnamed⟩
      rw [hbefore k hk] at hnamed
      cases hnamed

end Lexeme

end TextExpander
