import Mathlib.Data.List.Nodup
import TextExpander.Proofs.Splicing
import TextExpander.Proofs.Words

/-!
# Definitions as they are read

What a definition is, is decided by the line of its header and by the lines up to its `endmacro`.
The reader checks the name and the parameters one by one. That the body has no `endmacro` is checked
nowhere: it follows from where the lines are cut, and it has to survive that the parts are put
together and trimmed.

## Main definitions

* `Definition.WellFormed`: what holds of every definition that was read.

## Main results

* `Directive.of_header`, `Definition.of_signature`: what a header and a signature are read from.
* `Definition.of_enclosed?`: which lines a definition takes.
* `Definition.of_ofLines`: what a definition is read from.
* `Definition.wellFormed_of_ofLines`: a definition that was read is well formed.
-/

namespace TextExpander

/-! ### Headers -/

namespace Directive

theorem suffix_of_afterKeyword? {keyword line rest : Text}
    (h : afterKeyword? keyword line = some rest) : rest <:+ line := by
  obtain ⟨hrest, -⟩ := Option.filter_eq_some_iff.mp h
  have hline : keyword ++ rest = line.dropWhile isBlank :=
    List.isPrefixOf?_eq_some_iff_append_eq.mp hrest
  exact (List.suffix_append keyword rest).trans (hline ▸ List.dropWhile_suffix _)

/-- What a header is read from: a line that starts with `define`, an identifier, and what follows
the parenthesis. -/
theorem of_header {line : Text} {h : Header} (hh : header line = .ok h) :
    startsDefinition line = true ∧ Text.isIdentifier h.name = true ∧ h.after <:+ line := by
  rw [header] at hh
  split at hh
  · cases hh
  · next rest hrest =>
    simp only at hh
    split at hh
    · next hname =>
      split at hh
      · next after hafter =>
        obtain rfl := Except.ok.inj hh
        refine ⟨by rw [startsDefinition, hrest]; rfl, ?_, ?_⟩
        · exact (Bool.and_eq_true_iff.mp hname).2
        · have hopen : ('(' :: after) <:+ rest :=
            hafter ▸ ((List.dropWhile_suffix _).trans (List.dropWhile_suffix _)).trans
              (List.dropWhile_suffix _)
          exact ((List.suffix_cons _ _).trans hopen).trans (suffix_of_afterKeyword? hrest)
      · cases hh
    · cases hh

end Directive

namespace Definition

/-! ### Signatures -/

theorem of_checkParameters {seen list names : List Text}
    (h : checkParameters seen list = .ok names) (hseen : seen.Nodup)
    (hids : ∀ q ∈ seen, Text.isIdentifier q = true) :
    names.Nodup ∧ ∀ q ∈ names, Text.isIdentifier q = true := by
  induction list generalizing seen with
  | nil =>
    obtain rfl := Except.ok.inj h
    exact ⟨List.nodup_reverse.mpr hseen, fun q hq => hids q (List.mem_reverse.mp hq)⟩
  | cons parameter rest ih =>
    rw [checkParameters] at h
    split at h
    · cases h
    · next hid =>
      split at h
      · cases h
      · next hnew =>
        refine ih h (List.nodup_cons.mpr ⟨by simpa using hnew, hseen⟩) fun q hq => ?_
        rcases List.mem_cons.mp hq with rfl | hq
        · simpa using hid
        · exact hids q hq

theorem of_parseParameters {list : Text} {names : List Text}
    (h : parseParameters list = .ok names) :
    names.Nodup ∧ ∀ q ∈ names, Text.isIdentifier q = true := by
  rw [parseParameters] at h
  split at h
  · obtain rfl := Except.ok.inj h
    simp
  · exact of_checkParameters h List.nodup_nil (by simp)

/-- What a signature is read from. -/
theorem of_signature {text : Text} {s : Signature} (h : signature text = .ok s) :
    ∃ header list, Directive.header text = .ok header ∧ header.name = s.name ∧
      s.name ∉ reserved ∧ Parens.close? header.after = some (list, s.rest) ∧
      parseParameters list = .ok s.parameters := by
  rw [signature] at h
  split at h
  · cases h
  · next header hheader =>
    split at h
    · cases h
    · next hfree =>
      split at h
      · cases h
      · next list rest hclose =>
        split at h
        · cases h
        · next parameters hparameters =>
          obtain rfl := Except.ok.inj h
          exact ⟨header, list, hheader, rfl, by simpa using hfree, hclose, hparameters⟩

theorem suffix_of_signature {text : Text} {s : Signature} (h : signature text = .ok s) :
    s.rest <:+ text := by
  obtain ⟨header, list, hheader, -, -, hclose, -⟩ := of_signature h
  obtain ⟨a, -, hafter⟩ := Parens.eq_of_close? hclose
  have hrest : s.rest <:+ header.after := ⟨list ++ [a], by rw [hafter]; simp⟩
  exact hrest.trans (Directive.of_header hheader).2.2

/-! ### The lines that a definition takes -/

/-- What stands before the end of a definition on a line, or the line if there is none. -/
def beforeEnd (t : Text) : Text :=
  match Directive.cutAtEnd? t with
  | some (part, _) => part
  | none => t

theorem endKeyword_notMem_beforeEnd (t : Text) :
    Directive.endKeyword ∉ Lexeme.identifiers (beforeEnd t) := by
  rw [beforeEnd]
  split
  · next part rest hcut => exact (Lexeme.eq_of_cutAt hcut).2
  · next hcut => exact Lexeme.cutAt_eq_none_iff.mp hcut

/-- **Which lines a definition takes.** They end with the first line that has an end; the parts are
what stands before it. -/
theorem of_enclosed? {lines : List Text} {e : Enclosed} (h : enclosed? lines = some e) :
    ∃ before ending part, lines = before ++ ending :: e.left ∧
      (∀ text ∈ before, Directive.cutAtEnd? text = none) ∧
      Directive.cutAtEnd? ending = some (part, e.rest) ∧
      e.parts = (before ++ [ending]).map beforeEnd := by
  induction lines generalizing e with
  | nil => cases h
  | cons text following ih =>
    rw [enclosed?] at h
    split at h
    · next part rest hcut =>
      obtain rfl := Option.some.inj h
      exact ⟨[], text, part, rfl, by simp, hcut, by simp [beforeEnd, hcut]⟩
    · next hcut =>
      obtain ⟨e', he', rfl⟩ := Option.map_eq_some_iff.mp h
      obtain ⟨before, ending, part, rfl, hbefore, hending, hparts⟩ := ih he'
      refine ⟨text :: before, ending, part, rfl, List.forall_mem_cons.mpr ⟨hcut, hbefore⟩,
        hending, ?_⟩
      rw [List.cons_append, List.map_cons, ← hparts, beforeEnd, hcut]

/-! ### Definitions -/

/-- What holds of every definition that was read. -/
structure WellFormed (d : Definition) : Prop where
  /-- The name is an identifier. -/
  name_identifier : Text.isIdentifier d.name = true
  /-- The name is not one that has a meaning of its own. -/
  name_free : d.name ∉ reserved
  /-- The parameters are identifiers. -/
  parameters_identifiers : ∀ q ∈ d.parameters, Text.isIdentifier q = true
  /-- No parameter is there twice. -/
  parameters_distinct : d.parameters.Nodup
  /-- The body has no white space at its ends. -/
  body_trimmed : Symbol.trim d.body = d.body
  /-- The body does not hold the end of a definition. -/
  body_open : Directive.endKeyword ∉ Lexeme.identifiers d.body

/-- What a definition is read from: a signature, and the lines up to its end, none of which is a
directive. -/
theorem of_ofLines {file : Path} {depth passed : Nat} {text : Text} {following : List Text}
    {d : Definition} {e : Enclosed} (h : ofLines file depth passed text following = .ok (d, e)) :
    ∃ s, signature text = .ok s ∧ enclosed? (s.rest :: following) = some e ∧
      nestedError? s.name (SourceLine.numberFrom file depth passed e.parts) = none ∧
      d = ⟨s.name, s.parameters, Symbol.trim (Text.joinLines e.parts), ⟨file, passed + 1⟩⟩ := by
  simp only [ofLines, enclose] at h
  split at h
  · cases h
  · next s hsignature =>
    split at h
    · cases h
    · next enclosed hencloses =>
      obtain ⟨rfl, rfl⟩ := Prod.mk.inj (Except.ok.inj h)
      split at hencloses
      · cases hencloses
      · next e' he' =>
        split at hencloses
        · cases hencloses
        · next hnested =>
          obtain rfl := Except.ok.inj hencloses
          exact ⟨s, hsignature, he', hnested, rfl⟩

theorem endKeyword_notMem_body {lines : List Text} {e : Enclosed} (h : enclosed? lines = some e) :
    Directive.endKeyword ∉ Lexeme.identifiers (Symbol.trim (Text.joinLines e.parts)) := by
  obtain ⟨before, ending, part, -, -, -, hparts⟩ := of_enclosed? h
  rw [Lexeme.identifiers_trim, Lexeme.identifiers_joinLines, hparts, List.mem_flatMap]
  rintro ⟨p, hp, hmem⟩
  obtain ⟨t, -, rfl⟩ := List.mem_map.mp hp
  exact endKeyword_notMem_beforeEnd t hmem

/-- **A definition that was read is well formed.** -/
theorem wellFormed_of_ofLines {file : Path} {depth passed : Nat} {text : Text}
    {following : List Text} {d : Definition} {e : Enclosed}
    (h : ofLines file depth passed text following = .ok (d, e)) : d.WellFormed := by
  obtain ⟨s, hsignature, he, -, rfl⟩ := of_ofLines h
  obtain ⟨header, list, hheader, hname, hfree, -, hparameters⟩ := of_signature hsignature
  obtain ⟨hdistinct, hids⟩ := of_parseParameters hparameters
  exact {
    name_identifier := hname ▸ (Directive.of_header hheader).2.1
    name_free := hfree
    parameters_identifiers := hids
    parameters_distinct := hdistinct
    body_trimmed := Symbol.trim_trim _
    body_open := endKeyword_notMem_body he }

end Definition

end TextExpander
