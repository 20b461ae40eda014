import TextExpander.Proofs.Interchange
import TextExpander.Proofs.Words

/-!
# Parameters

The values of a call take the place of the parameters in a body all at once: what a lexeme of the
body becomes is settled by the lexeme and the values alone. So nothing is looked for in a value, and
nothing that a value puts beside another one makes a new parameter. The expansion by offsets copies
the body in cuts that go from one parameter to the next; it comes to the same.

It follows that a definition may call its parameters what it likes. If a parameter gets a new name,
in the list and wherever the body has it, the same lexemes of the body stand for the same values. No
value and no other definition can tell, since what is put together from body and values does not
hold the name any more. The new name must be an identifier, or the body would fall into other
lexemes, and the definition must not use it already.

## Main definitions

* `Replacement`: what stands in the place of a lexeme of a body.
* `Text.renamed`, `Lexeme.renameAll`: one name in the place of another.
* `Definition.renameParameter`: a definition with another name for one of its parameters.

## Main results

* `values_replace_parameters_at_once`: a body with values in it, lexeme by lexeme.
* `Lexeme.split_renameAll`: a body falls into the same lexemes after a renaming.
* `Expansion.substitute_renameParameter`: it gives the same for the same values.
* `parameter_names_do_not_matter`: expansion with another name for a parameter.
-/

namespace TextExpander

/-! ### Values in a body -/

/-- What stands in the place of a lexeme of a body, given the parameters and their values. -/
inductive Replacement (parameters : List Text) (values : List Fragment) :
    Lexeme Char → Fragment → Prop
  /-- An identifier gives way to the value of the first parameter of its name. -/
  | value {l : Lexeme Char} {i : Nat} {value : Fragment} : l.kind = .identifier →
      parameters[i]? = some l.symbols → (∀ j < i, parameters[j]? ≠ some l.symbols) →
      values[i]? = some value → Replacement parameters values l value
  /-- What names no parameter stays. -/
  | itself {l : Lexeme Char} : (l.kind = .identifier → l.symbols ∉ parameters) →
      Replacement parameters values l (Fragment.plain l.symbols)

theorem idxOf?_eq_some_iff_getElem? {parameters : List Text} {name : Text} {i : Nat} :
    parameters.idxOf? name = some i ↔
      parameters[i]? = some name ∧ ∀ j < i, parameters[j]? ≠ some name := by
  rw [List.idxOf?_eq_some_iff]
  constructor
  · rintro ⟨hi, hname, hfirst⟩
    refine ⟨List.getElem?_eq_some_iff.mpr ⟨hi, hname⟩, fun j hj hother => ?_⟩
    exact hfirst j hj (List.getElem?_eq_some_iff.mp hother).2
  · rintro ⟨hname, hfirst⟩
    obtain ⟨hi, hname⟩ := List.getElem?_eq_some_iff.mp hname
    exact ⟨hi, hname, fun j hj hother =>
      hfirst j hj (List.getElem?_eq_some_iff.mpr ⟨hj.trans hi, hother⟩)⟩

theorem Lexeme.isIdentifier_eq_true_iff {l : Lexeme Char} :
    l.isIdentifier = true ↔ l.kind = .identifier :=
  beq_iff_eq

/-- With as many values as parameters, the names without a value are those of no parameter. -/
theorem lookup_zip_eq_none_iff {parameters : List Text} {values : List Fragment} {name : Text}
    (hlength : values.length = parameters.length) :
    (parameters.zip values).lookup name = none ↔ name ∉ parameters := by
  rw [← List.idxOf?_eq_none_iff]
  constructor
  · intro hnone
    by_contra hsome
    obtain ⟨i, hi⟩ := Option.ne_none_iff_exists'.mp hsome
    obtain ⟨value, -, hvalue⟩ := Offsets.exists_value hlength hi
    rw [hnone] at hvalue
    cases hvalue
  · intro hnone
    rw [Offsets.lookup_zip, hnone, Option.bind_none]

/-- The replacement of a lexeme is what the substitution puts there. -/
theorem replacement_iff {parameters : List Text} {values : List Fragment}
    (hlength : values.length = parameters.length) {l : Lexeme Char} {f : Fragment} :
    Replacement parameters values l f ↔
      Expansion.substituteLexeme (parameters.zip values) l = f := by
  constructor
  · rintro (⟨hl, hname, hfirst, hvalue⟩ | hnone)
    · apply Offsets.substituteLexeme_of_some (Lexeme.isIdentifier_eq_true_iff.mpr hl)
      rw [Offsets.lookup_zip, idxOf?_eq_some_iff_getElem?.mpr ⟨hname, hfirst⟩, Option.bind_some,
        hvalue]
    · apply Offsets.substituteLexeme_of_none
      intro hl
      exact (lookup_zip_eq_none_iff hlength).mpr (hnone (Lexeme.isIdentifier_eq_true_iff.mp hl))
  · rintro rfl
    by_cases hl : l.kind = .identifier
    · have hl' := Lexeme.isIdentifier_eq_true_iff.mpr hl
      cases hi : parameters.idxOf? l.symbols with
      | none =>
        have hnone := List.idxOf?_eq_none_iff.mp hi
        rw [Offsets.substituteLexeme_of_none fun _ => (lookup_zip_eq_none_iff hlength).mpr hnone]
        exact .itself fun _ => hnone
      | some i =>
        obtain ⟨value, hvalue, hlookup⟩ := Offsets.exists_value hlength hi
        obtain ⟨hname, hfirst⟩ := idxOf?_eq_some_iff_getElem?.mp hi
        rw [Offsets.substituteLexeme_of_some hl' hlookup]
        exact .value hl hname hfirst hvalue
    · rw [Offsets.substituteLexeme_of_none fun hl' =>
        absurd (Lexeme.isIdentifier_eq_true_iff.mp hl') hl]
      exact .itself fun hl' => absurd hl' hl

/-- **Values take the place of parameters at once.** For a definition with any parameters and any
body, and as many values as parameters, there is one fragment for each lexeme of the body: the value
of the first parameter of that name, or the lexeme itself. The body with the values in it is these
fragments one after the other. So it is if the body is copied by offsets, in what stands there and
in what the scanner sees. -/
theorem values_replace_parameters_at_once (d : Definition) (values : List Fragment)
    (hlength : values.length = d.parameters.length) :
    ∃ pieces : List Fragment,
      (∀ fs, List.Forall₂ (Replacement d.parameters values) (Lexeme.split d.body) fs ↔
        fs = pieces) ∧
      Expansion.substitute d values = pieces.flatten ∧
      Offsets.substitute d (values.map Fragment.views) =
        .ok ⟨(pieces.map Fragment.text).flatten, (pieces.map Fragment.scan).flatten⟩ := by
  let put := Expansion.substituteLexeme (d.parameters.zip values)
  have hput : Replacement d.parameters values = fun l f => put l = f := by
    funext l f
    exact propext (replacement_iff hlength)
  have hsubstitute : Expansion.substitute d values = ((Lexeme.split d.body).map put).flatten :=
    List.flatMap_def
  refine ⟨(Lexeme.split d.body).map put, fun fs => ?_, hsubstitute, ?_⟩
  · calc List.Forall₂ (Replacement d.parameters values) (Lexeme.split d.body) fs
        ↔ List.Forall₂ (· = ·) ((Lexeme.split d.body).map put) fs := by
          rw [hput, List.forall₂_map_left_iff]
      _ ↔ fs = (Lexeme.split d.body).map put := by rw [List.forall₂_eq_eq_eq, eq_comm]
  · rw [Offsets.substitute_eq hlength, hsubstitute, Fragment.views, Fragment.text_flatten,
      Fragment.scan_flatten]

/-- One value is the name of a parameter, one holds such a name and a comma and is protected, and a
parameter that is listed twice has its first value. -/
theorem values_that_look_like_parameters :
    let d : Definition :=
      ⟨['m'], [['a'], ['b'], ['a']], "ba(b)a é,b".toList, ⟨⟨['d']⟩, 1⟩⟩
    let values := [Fragment.plain ['b'], Fragment.literal "a,é".toList, Fragment.plain ['c']]
    values.length = d.parameters.length ∧
      Offsets.substitute d (values.map Fragment.views) =
        .ok ⟨"ba(a,é)b é,a,é".toList, "ba(####)b é,####".toList⟩ := by
  intro d values
  have hlength : values.length = d.parameters.length := rfl
  obtain ⟨pieces, hpieces, -, hoffsets⟩ := values_replace_parameters_at_once d values hlength
  have hsplit : Lexeme.split d.body =
      [⟨.identifier, ['b', 'a']⟩, ⟨.other, ['(']⟩, ⟨.identifier, ['b']⟩, ⟨.other, [')']⟩,
        ⟨.identifier, ['a']⟩, ⟨.other, [' ']⟩, ⟨.word, ['é']⟩, ⟨.other, [',']⟩,
        ⟨.identifier, ['b']⟩] := by
    decide +kernel
  have hkeep : ∀ {l : Lexeme Char}, (l.kind = .identifier → l.symbols ∉ d.parameters) →
      Replacement d.parameters values l (Fragment.plain l.symbols) := .itself
  have ha : Replacement d.parameters values ⟨.identifier, ['a']⟩ (Fragment.plain ['b']) :=
    .value (i := 0) rfl rfl (by decide) rfl
  have hb : Replacement d.parameters values ⟨.identifier, ['b']⟩ (Fragment.literal "a,é".toList) :=
    .value (i := 1) rfl rfl (by decide) rfl
  rw [hsplit] at hpieces
  have hall := (hpieces _).mp <| .cons (hkeep (by decide)) <| .cons (hkeep (by decide)) <|
    .cons hb <| .cons (hkeep (by decide)) <| .cons ha <| .cons (hkeep (by decide)) <|
    .cons (hkeep (by decide)) <| .cons (hkeep (by decide)) <| .cons hb .nil
  rw [hoffsets, ← hall]
  exact ⟨hlength, by decide⟩

/-! ### Another name -/

namespace Text

/-- The name `q` in the place of the name `p`. -/
def renamed (p q name : Text) : Text :=
  if name = p then q else name

theorem renamed_self (p q : Text) : renamed p q p = q :=
  if_pos rfl

theorem renamed_of_ne {p name : Text} (h : name ≠ p) (q : Text) : renamed p q name = name :=
  if_neg h

/-- Where nothing is called `q`, different names stay different. -/
theorem renamed_inj {p q a b : Text} (ha : a ≠ q) (hb : b ≠ q)
    (h : renamed p q a = renamed p q b) : a = b := by
  by_cases hap : a = p
  · by_cases hbp : b = p
    · rw [hap, hbp]
    · rw [hap, renamed_self, renamed_of_ne hbp] at h
      exact absurd h.symm hb
  · by_cases hbp : b = p
    · rw [hbp, renamed_self, renamed_of_ne hap] at h
      exact absurd h ha
    · rwa [renamed_of_ne hap, renamed_of_ne hbp] at h

end Text

namespace Lexeme

/-- A lexeme with the name `q` in the place of the name `p`. -/
def rename (p q : Text) (l : Lexeme Char) : Lexeme Char :=
  if l.isIdentifier then ofRun (Text.renamed p q l.symbols) else l

/-- A text with the name `q` wherever the name `p` is an identifier of it. -/
def renameAll (p q t : Text) : Text :=
  concat ((split t).map (rename p q))

theorem isIdentifier_renamed {p q run : Text} (hq : Text.isIdentifier q = true)
    (hrun : Text.isIdentifier run = true) : Text.isIdentifier (Text.renamed p q run) = true := by
  rw [Text.renamed]
  split_ifs
  · exact hq
  · exact hrun

/-- A run gives way to a run of the same class. -/
theorem rename_ofRun {p q : Text} (hq : Text.isIdentifier q = true) {b : Bool} {run : Text}
    (hne : run ≠ []) (hrun : ∀ c ∈ run, Text.isWordChar c = b) :
    ∃ run', run' ≠ [] ∧ (∀ c ∈ run', Text.isWordChar c = b) ∧
      rename p q (ofRun run) = ofRun run' := by
  rw [rename, isIdentifier_ofRun]
  split_ifs with hid
  · have hid' := isIdentifier_renamed (p := p) hq hid
    refine ⟨_, fun hnil => ?_, ?_, rfl⟩
    · rw [show (ofRun run).symbols = run from rfl] at hnil
      rw [hnil] at hid'
      cases hid'
    · rw [eq_true_of_isIdentifier (fun c => Text.isWordChar_of_isAsciiWord) hid hrun]
      exact Text.isWordChar_of_isIdentifier hid'
  · exact ⟨run, hne, hrun, rfl⟩

/-- **The lexemes of a text after a renaming.** The text falls into the same lexemes, with the one
name in the place of the other. The class of the first character is kept, so that the lexemes are
borders again. -/
theorem split_renameAll {p q : Text} (hq : Text.isIdentifier q = true) (t : Text) :
    split (renameAll p q t) = (split t).map (rename p q) ∧
      (renameAll p q t).head?.map Text.isWordChar = t.head?.map Text.isWordChar := by
  induction t using run_induction Text.isWordChar with
  | nil => exact ⟨rfl, rfl⟩
  | run b run rest hne hrun hrest ih =>
    obtain ⟨run', hne', hrun', hrename⟩ := rename_ofRun (p := p) hq hne hrun
    have hall : renameAll p q (run ++ rest) = run' ++ renameAll p q rest := by
      rw [renameAll, split_append hne hrun hrest, List.map_cons, hrename]
      rfl
    have hhead : ∀ {s : Text}, s ≠ [] → (∀ c ∈ s, Text.isWordChar c = b) → ∀ u : Text,
        (s ++ u).head?.map Text.isWordChar = some b := by
      intro s hs hclass u
      obtain ⟨c, s, rfl⟩ := List.exists_cons_of_ne_nil hs
      exact congrArg some (hclass c List.mem_cons_self)
    have hrest' : ∀ c ∈ (renameAll p q rest).head?, Text.isWordChar c = !b := by
      intro c hc
      have hmap := ih.2
      rw [Option.mem_def.mp hc, Option.map_some, eq_comm, Option.map_eq_some_iff] at hmap
      obtain ⟨d, hd, hclass⟩ := hmap
      rw [← hclass, hrest d hd]
    refine ⟨?_, ?_⟩
    · rw [hall, split_append hne' hrun' hrest', ih.1, split_append hne hrun hrest, List.map_cons,
        hrename]
    · rw [hall, hhead hne' hrun', hhead hne hrun]

theorem isIdentifier_symbols {l : Lexeme Char} {t : Text} (h : l ∈ split t)
    (hl : l.isIdentifier = true) : Text.isIdentifier l.symbols = true := by
  obtain ⟨run, -, rfl⟩ := List.mem_map.mp h
  rwa [isIdentifier_ofRun] at hl

theorem symbols_mem_identifiers {l : Lexeme Char} {t : Text} (h : l ∈ split t)
    (hl : l.isIdentifier = true) : l.symbols ∈ identifiers t := by
  refine mem_identifiers_iff.mpr ⟨l, h, ?_⟩
  rw [isNamed, hl, chars, Symbol.chars_text, BEq.rfl]
  rfl

end Lexeme

/-- A definition with the name `q` for its parameter `p`. -/
def Definition.renameParameter (d : Definition) (p q : Text) : Definition :=
  { d with
    parameters := d.parameters.map (Text.renamed p q)
    body := Lexeme.renameAll p q d.body }

namespace Expansion

/-- Values are found under new names where they were found under the old ones, as long as different
names stay different. -/
theorem lookup_zip_map {rename : Text → Text} {parameters : List Text} {name : Text}
    (h : ∀ parameter ∈ parameters, rename parameter = rename name → parameter = name)
    (values : List Fragment) :
    ((parameters.map rename).zip values).lookup (rename name) =
      (parameters.zip values).lookup name := by
  induction parameters generalizing values with
  | nil => rfl
  | cons parameter parameters ih =>
    cases values with
    | nil => rfl
    | cons value values =>
      have hsame : (rename name == rename parameter) = (name == parameter) := by
        rw [Bool.eq_iff_iff, beq_iff_eq, beq_iff_eq]
        constructor
        · intro heq
          exact (h parameter List.mem_cons_self heq.symm).symm
        · exact congrArg rename
      rw [List.map_cons, List.zip_cons_cons, List.zip_cons_cons, List.lookup_cons,
        List.lookup_cons, hsame, ih fun x hx => h x (List.mem_cons_of_mem _ hx)]

/-- A lexeme of a body stands for the same under its new name. -/
theorem substituteLexeme_rename {d : Definition} {p q : Text} (hp : p ∈ d.parameters)
    (hq : Text.isIdentifier q = true) (hfree : q ∉ d.parameters)
    (hbody : q ∉ Lexeme.identifiers d.body) {values : List Fragment}
    (hlength : values.length = d.parameters.length) {l : Lexeme Char}
    (hl : l ∈ Lexeme.split d.body) :
    substituteLexeme ((d.parameters.map (Text.renamed p q)).zip values) (Lexeme.rename p q l) =
      substituteLexeme (d.parameters.zip values) l := by
  cases hid : l.isIdentifier with
  | false => simp only [Lexeme.rename, substituteLexeme, hid, Bool.false_eq_true, if_false]
  | true =>
    have hname : l.symbols ≠ q := fun heq => hbody (heq ▸ Lexeme.symbols_mem_identifiers hl hid)
    have hinj : ∀ x ∈ d.parameters,
        Text.renamed p q x = Text.renamed p q l.symbols → x = l.symbols :=
      fun x hx => Text.renamed_inj (fun heq => hfree (heq ▸ hx)) hname
    have hid' : (Lexeme.ofRun (Text.renamed p q l.symbols)).isIdentifier = true := by
      rw [Lexeme.isIdentifier_ofRun]
      exact Lexeme.isIdentifier_renamed hq (Lexeme.isIdentifier_symbols hl hid)
    have hlookup := lookup_zip_map hinj values
    rw [Lexeme.rename, if_pos hid]
    cases hvalue : (d.parameters.zip values).lookup l.symbols with
    | some value =>
      rw [Offsets.substituteLexeme_of_some hid hvalue]
      exact Offsets.substituteLexeme_of_some hid' (hlookup.trans hvalue)
    | none =>
      -- Every parameter has a value, so the lexeme keeps its name.
      have hne : l.symbols ≠ p := fun heq =>
        (lookup_zip_eq_none_iff hlength).mp hvalue (heq ▸ hp)
      rw [Offsets.substituteLexeme_of_none fun _ => hvalue,
        Offsets.substituteLexeme_of_none fun _ => hlookup.trans hvalue]
      exact congrArg Fragment.plain (Text.renamed_of_ne hne q)

/-- **The same values give the same**, whatever the parameters are called. -/
theorem substitute_renameParameter {d : Definition} {p q : Text} (hp : p ∈ d.parameters)
    (hq : Text.isIdentifier q = true) (hfree : q ∉ d.parameters)
    (hbody : q ∉ Lexeme.identifiers d.body) {values : List Fragment}
    (hlength : values.length = d.parameters.length) :
    substitute (d.renameParameter p q) values = substitute d values := by
  let renamed := substituteLexeme ((d.parameters.map (Text.renamed p q)).zip values)
  calc substitute (d.renameParameter p q) values
      = (Lexeme.split (Lexeme.renameAll p q d.body)).flatMap renamed := rfl
    _ = (Lexeme.split d.body).flatMap fun l => renamed (Lexeme.rename p q l) := by
        rw [(Lexeme.split_renameAll hq d.body).1, List.flatMap_map]
    _ = substitute d values :=
        List.flatMap_congr fun l hl => substituteLexeme_rename hp hq hfree hbody hlength hl

end Expansion

/-! ### Tables -/

theorem Callee.Alike.refl (callee : Callee) : callee.Alike callee := by
  cases callee with
  | glue => exact .glue
  | user d => exact .user rfl rfl fun _ _ => rfl

/-- A definition may give way to one that no expansion tells apart from it. -/
theorem Table.alike_put {t : Table} {d d' : Definition} (hd : t.get? d.name = some d)
    (hname : d'.name = d.name) (h : Callee.Alike (.user d') (.user d)) : (t.put d').Alike t := by
  intro name
  rw [callee?, callee?, get?_put, hname]
  split_ifs with hglue heq
  · exact .some .glue
  · rw [← heq, hd]
    exact .some h
  · cases t.get? name with
    | none => exact .none
    | some e => exact .some (.refl (.user e))

/-- **Parameter names do not matter.** A definition of a table gets another name for one of its
parameters, in its list of parameters and wherever the old name is an identifier of its body. If the
new name is an identifier, and neither a parameter nor an identifier of the body already, then under
every limit every text has the same expansion as before, or the same fault. -/
theorem parameter_names_do_not_matter (table : Table) (d : Definition) (p q : Text)
    (hd : table.get? d.name = some d) (hp : p ∈ d.parameters)
    (hq : Text.isIdentifier q = true) (hfree : q ∉ d.parameters)
    (hbody : q ∉ Lexeme.identifiers d.body) (limit : Nat) (t : Text) :
    expand (table.put (d.renameParameter p q)) limit t = expand table limit t := by
  have hname : (d.renameParameter p q).name = d.name := rfl
  have hcount : (d.renameParameter p q).parameters.length = d.parameters.length :=
    List.length_map _
  have halike : Callee.Alike (.user (d.renameParameter p q)) (.user d) :=
    .user rfl hcount fun values hvalues =>
      Expansion.substitute_renameParameter hp hq hfree hbody (hvalues.trans hcount)
  exact (Table.alike_put hd hname halike).expand_eq limit t

/-- The parameter gets the name of another macro. A value has that name as well, and calls the macro
in the body; another value has the old name, which is that of a third macro. -/
theorem parameter_takes_the_name_of_a_macro :
    let d : Definition := ⟨['f'], [['x']], "x(x) xy".toList, ⟨⟨['d']⟩, 1⟩⟩
    let table := ((Table.empty.put d).put ⟨['x'], [['z']], "<z>".toList, ⟨⟨['d']⟩, 2⟩⟩).put
      ⟨['y'], [['z']], "[z]".toList, ⟨⟨['d']⟩, 3⟩⟩
    (table.get? d.name = some d ∧ ['x'] ∈ d.parameters ∧ Text.isIdentifier ['y'] = true ∧
      ['y'] ∉ d.parameters ∧ ['y'] ∉ Lexeme.identifiers d.body) ∧
      (d.renameParameter ['x'] ['y']).body = "y(y) xy".toList ∧
      expand (table.put (d.renameParameter ['x'] ['y'])) 2 "f(y), f(x)".toList =
        .ok "[y] xy, <x> xy".toList := by
  intro d table
  have hd : table.get? d.name = some d := rfl
  have hbody : ['y'] ∉ Lexeme.identifiers d.body := by decide +kernel
  have hrun : expand table 2 "f(y), f(x)".toList = .ok "[y] xy, <x> xy".toList := by decide +kernel
  have hrenamed := parameter_names_do_not_matter table d ['x'] ['y'] hd List.mem_cons_self rfl
    (by decide) hbody 2 "f(y), f(x)".toList
  exact ⟨⟨hd, List.mem_cons_self, rfl, by decide, hbody⟩, by decide +kernel, hrenamed.trans hrun⟩

end TextExpander
