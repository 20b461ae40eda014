import TextExpander.Proofs.Candidates

/-!
# Values in a body by offsets

The values of a call are put into the body of a definition by going through its identifiers. What
stands between two parameters is passed over first and copied later, in one cut, so the offsets of
the cut belong to different identifiers. The body is plain text, so any two places between lexemes
may be cut at. A parameter is looked up by its first place among the parameters, and there are as
many values as parameters, so it has a value.

## Main results

* `Offsets.substitute_eq`: the body with the values in it is that of `Expansion.substitute`.
* `Offsets.whole_substitute`: it is whole if the values are.
-/

namespace TextExpander

namespace Offsets

theorem concat_split {α : Type} [Symbol α] (xs : List α) :
    Lexeme.concat (Lexeme.split xs) = xs := by
  rw [Lexeme.concat, Lexeme.split, List.flatMap_map]
  exact List.flatMap_id.trans (List.flatten_splitBy _ _)

/-- The value of a parameter is found under its first place among the parameters. -/
theorem lookup_zip (parameters : List Text) (values : List Fragment) (name : Text) :
    (parameters.zip values).lookup name =
      (parameters.idxOf? name).bind fun index => values[index]? := by
  induction parameters generalizing values with
  | nil => rfl
  | cons parameter parameters ih =>
    cases values with
    | nil => simp
    | cons value values =>
      rw [List.zip_cons_cons, List.lookup_cons, List.idxOf?_cons, BEq.comm, ih]
      cases parameter == name with
      | true => rfl
      | false => cases parameters.idxOf? name <;> rfl

/-- A parameter has a value, if there are as many values as parameters. -/
theorem exists_value {parameters : List Text} {values : List Fragment} {name : Text} {index : Nat}
    (hlength : values.length = parameters.length) (h : parameters.idxOf? name = some index) :
    ∃ value, values[index]? = some value ∧ (parameters.zip values).lookup name = some value := by
  obtain ⟨hlt, -⟩ := List.idxOf?_eq_some_iff.mp h
  rw [← hlength] at hlt
  refine ⟨values[index], List.getElem?_eq_getElem hlt, ?_⟩
  rw [lookup_zip, h, Option.bind_some, List.getElem?_eq_getElem hlt]

/-- What a lexeme that names no parameter becomes. -/
theorem substituteLexeme_of_none {bindings : List (Text × Fragment)} {l : Lexeme Char}
    (h : l.isIdentifier = true → bindings.lookup l.symbols = none) :
    Expansion.substituteLexeme bindings l = Fragment.plain l.symbols := by
  rw [Expansion.substituteLexeme]
  split_ifs with hl
  · rw [h hl, Option.getD_none]
  · rfl

theorem substituteLexeme_of_some {bindings : List (Text × Fragment)} {l : Lexeme Char}
    {value : Fragment} (hl : l.isIdentifier = true) (h : bindings.lookup l.symbols = some value) :
    Expansion.substituteLexeme bindings l = value := by
  rw [Expansion.substituteLexeme, if_pos hl, h, Option.getD_some]

theorem plain_append (s t : Text) :
    Fragment.plain (s ++ t) = Fragment.plain s ++ Fragment.plain t :=
  List.map_append

theorem cut_plain {body passed part after : Text} (h : body = passed ++ part ++ after) :
    (Views.plain body).cut (Text.byteLength passed) (Text.byteLength (passed ++ part)) =
      .ok (Fragment.plain part).views := by
  have hparts : Fragment.plain body =
      Fragment.plain passed ++ Fragment.plain part ++ Fragment.plain after := by
    rw [h, plain_append, plain_append]
  rw [← Fragment.views_plain]
  apply Views.cut_of_parts hparts (.of_plain passed) (.of_plain part)
  · rw [Fragment.scan_plain]
  · rw [Fragment.scan_plain, Fragment.scan_plain, Text.byteLength_append]

/-- The body up to `passed` has been copied; `waiting` has been passed over and is copied with what
comes next. The induction is on the lexemes that are left. -/
theorem substituteFrom_eq {parameters : List Text} {values : List Fragment}
    (hlength : values.length = parameters.length) {body passed waiting : Text}
    {lexemes : List (Lexeme Char)} (hbody : body = passed ++ waiting ++ Lexeme.concat lexemes)
    (result : Fragment) :
    substituteFrom parameters (values.map Fragment.views) (Views.plain body)
        (identifiersFrom (Text.byteLength (passed ++ waiting)) lexemes) result.views
        (Text.byteLength passed) =
      .ok (result ++ Fragment.plain waiting ++
        lexemes.flatMap (Expansion.substituteLexeme (parameters.zip values))).views := by
  induction lexemes generalizing passed waiting result with
  | nil =>
    have hend : (Views.plain body).byteLength = Text.byteLength (passed ++ waiting) := by
      rw [Views.byteLength, Views.plain, hbody, Lexeme.concat, List.flatMap_nil, List.append_nil]
    rw [identifiersFrom, Lexeme.locateFrom, List.filter_nil, substituteFrom, hend, cut_plain hbody,
      List.flatMap_nil, List.append_nil, Fragment.views_append]
    rfl
  | cons l lexemes ih =>
    have hconcat : Lexeme.concat (l :: lexemes) = l.symbols ++ Lexeme.concat lexemes := rfl
    rw [hconcat] at hbody
    rw [List.flatMap_cons]
    -- A lexeme that names no parameter is passed over.
    have hpass : Expansion.substituteLexeme (parameters.zip values) l = Fragment.plain l.symbols →
        substituteFrom parameters (values.map Fragment.views) (Views.plain body)
            (identifiersFrom (Text.byteLength (passed ++ waiting ++ l.symbols)) lexemes)
            result.views (Text.byteLength passed) =
          .ok (result ++ Fragment.plain waiting ++
            (Expansion.substituteLexeme (parameters.zip values) l ++
              lexemes.flatMap (Expansion.substituteLexeme (parameters.zip values)))).views := by
      intro hplain
      rw [hplain, List.append_assoc passed, ih (by rw [hbody]; simp), plain_append]
      simp only [List.append_assoc]
    cases hl : l.isIdentifier with
    | false =>
      rw [identifiersFrom_other hl, ← Text.byteLength_append]
      exact hpass (substituteLexeme_of_none (by simp [hl]))
    | true =>
      rw [identifiersFrom_identifier hl, ← Text.byteLength_append, substituteFrom]
      cases hindex : parameters.idxOf? l.symbols with
      | none =>
        refine hpass (substituteLexeme_of_none fun _ => ?_)
        rw [lookup_zip, hindex, Option.bind_none]
      | some index =>
        obtain ⟨value, hvalue, hlookup⟩ := exists_value hlength hindex
        have hview : (values.map Fragment.views)[index]? = some value.views := by
          rw [List.getElem?_map, hvalue, Option.map_some]
        have hbody' : body =
            passed ++ waiting ++ l.symbols ++ [] ++ Lexeme.concat lexemes := by
          rw [hbody, List.append_nil, List.append_assoc _ l.symbols]
        have hnext := ih hbody' (result ++ Fragment.plain waiting ++ value)
        rw [List.append_nil, Fragment.views_append, Fragment.views_append] at hnext
        simp only [cut_plain hbody, hview, bind, Except.bind]
        rw [hnext, substituteLexeme_of_some hl hlookup]
        simp [Fragment.plain]

/-- **Values in a body.** Each parameter that is found has a value, and no cut of the body fails. -/
theorem substitute_eq {d : Definition} {values : List Fragment}
    (hlength : values.length = d.parameters.length) :
    substitute d (values.map Fragment.views) = .ok (Expansion.substitute d values).views := by
  rw [substitute]
  split_ifs with hempty
  · -- Without parameters nothing is looked up.
    have hplain : ∀ l : Lexeme Char,
        Expansion.substituteLexeme (d.parameters.zip values) l = Fragment.plain l.symbols := by
      intro l
      apply substituteLexeme_of_none
      rw [List.isEmpty_iff.mp hempty]
      exact fun _ => rfl
    have hbody : Expansion.substitute d values = Fragment.plain d.body := by
      calc Expansion.substitute d values
          = (Lexeme.split d.body).flatMap fun l => Fragment.plain l.symbols :=
            List.flatMap_congr fun l _ => hplain l
        _ = Fragment.plain (Lexeme.concat (Lexeme.split d.body)) := List.map_flatMap.symm
        _ = Fragment.plain d.body := by rw [concat_split]
    rw [hbody, Fragment.views_plain]
  · have hbody : d.body = [] ++ [] ++ Lexeme.concat (Lexeme.split d.body) := (concat_split _).symm
    exact substituteFrom_eq hlength hbody []

theorem whole_substitute (d : Definition) {values : List Fragment}
    (h : ∀ value ∈ values, value.Whole) : (Expansion.substitute d values).Whole := by
  rw [Expansion.substitute, List.flatMap_def]
  apply Fragment.Whole.flatten
  intro f hf
  obtain ⟨l, -, rfl⟩ := List.mem_map.mp hf
  rw [Expansion.substituteLexeme]
  split_ifs
  · cases hlookup : (d.parameters.zip values).lookup l.symbols with
    | none => exact .of_plain _
    | some value =>
      rw [lookup_zip] at hlookup
      obtain ⟨index, -, hindex⟩ := Option.bind_eq_some_iff.mp hlookup
      exact h value (List.mem_of_getElem? hindex)
  · exact .of_plain _

end Offsets

end TextExpander
