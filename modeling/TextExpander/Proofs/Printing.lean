import TextExpander.Proofs.Balance
import TextExpander.Proofs.Borders
import TextExpander.Proofs.DefineLines

/-!
# Definitions as they are written

A definition can be written down in two ways: with its body on lines of its own, or all on one
line. Both are read back as the definition, whatever the body is, as long as it is one that could
have been read at all.

The reader goes through the text in one pass, so the proof follows it: the header, the parentheses
around the parameters, the parameters between commas, the lines without an `endmacro`, and the line
that has one. What the two layouts put around the body is white space, which the reader trims.

## Main definitions

* `Definition.signatureLine`: the first line of a definition.

## Main results

* `Definition.signature_signatureLine`: the signature is read back.
* `Lexeme.cutAt_append`: a text is cut at the first name, if that is where it stands.
* `Definition.readBody_lines`: a body on lines of its own.
* `printed_definitions_are_read_back`: the definition is read back from either layout.
-/

namespace TextExpander

theorem Text.joinLines_concat_nil {lines : List Text} (h : lines ≠ []) :
    joinLines (lines ++ [[]]) = joinLines lines ++ ['\n'] := by
  induction lines with
  | nil => exact absurd rfl h
  | cons line lines ih =>
    by_cases hlines : lines = []
    · rw [hlines]
      simp [joinLines]
    · have hconcat : lines ++ [[]] ≠ [] := by simp
      rw [List.cons_append, joinLines_cons hconcat, ih hlines, joinLines_cons hlines]
      simp

theorem Text.isSpace_of_isIdentifier {name : Text} (h : isIdentifier name = true) {c : Char}
    (hc : c ∈ name) : isSpace c = false := by
  by_contra hspace
  rw [Bool.not_eq_false] at hspace
  exact notMem_of_isIdentifier h (isWordChar_of_isSpace hspace) hc

/-! ### The parameters -/

namespace Definition

theorem checkParameters_of_nodup {seen list : List Text}
    (hids : ∀ q ∈ list, Text.isIdentifier q = true) (hdistinct : (seen.reverse ++ list).Nodup) :
    checkParameters seen list = .ok (seen.reverse ++ list) := by
  induction list generalizing seen with
  | nil => simp [checkParameters]
  | cons q list ih =>
    have hnew : q ∉ seen := by
      intro hmem
      exact (List.nodup_append.mp hdistinct).2.2 q (List.mem_reverse.mpr hmem) q
        List.mem_cons_self rfl
    rw [checkParameters, hids q List.mem_cons_self, if_neg (by simp),
      if_neg (by simpa using hnew), ih fun r hr => hids r (List.mem_cons_of_mem q hr)]
    · simp
    · simpa using hdistinct

theorem trim_parameter {q : Text} (h : Text.isIdentifier q = true) : Symbol.trim q = q :=
  Symbol.trim_of_forall fun _ hc => Text.isSpace_of_isIdentifier h hc

/-- The space after each comma belongs to the parameter behind it. -/
theorem intercalate_comma_space (p : Text) (rest : List Text) :
    [',', ' '].intercalate (p :: rest) = [','].intercalate (p :: rest.map (' ' :: ·)) := by
  induction rest generalizing p with
  | nil => rfl
  | cons q rest ih =>
    have hspace : ∀ list : List Text,
        [','].intercalate ((' ' :: q) :: list) = ' ' :: [','].intercalate (q :: list) := by
      intro list
      cases list with
      | nil => simp
      | cons r list => simp [List.intercalate_cons_cons]
    rw [List.intercalate_cons_cons, ih, List.map_cons, List.intercalate_cons_cons, hspace]
    simp

theorem forall_mem_intercalate {P : Char → Prop} {sep : Text} (hsep : ∀ c ∈ sep, P c)
    {list : List Text} (hlist : ∀ t ∈ list, ∀ c ∈ t, P c) : ∀ c ∈ sep.intercalate list, P c := by
  induction list with
  | nil => simp [List.intercalate]
  | cons t list ih =>
    have ht := hlist t List.mem_cons_self
    have hrest := ih fun u hu => hlist u (List.mem_cons_of_mem t hu)
    cases list with
    | nil => simpa using ht
    | cons u list =>
      rw [List.intercalate_cons_cons]
      intro c hc
      rcases List.mem_append.mp hc with hc | hc
      · rcases List.mem_append.mp hc with hc | hc
        · exact ht c hc
        · exact hsep c hc
      · exact hrest c hc

theorem isBlank_parameters {p : Text} (hp : Text.isIdentifier p = true) (rest : List Text) :
    Symbol.isBlank ([',', ' '].intercalate (p :: rest)) = false := by
  obtain ⟨c, p, rfl⟩ := List.exists_cons_of_ne_nil (show p ≠ [] by rintro rfl; cases hp)
  have hc : Symbol.isSpace c = false := Text.isSpace_of_isIdentifier hp List.mem_cons_self
  have hstart : ∃ tail, [',', ' '].intercalate ((c :: p) :: rest) = c :: tail := by
    cases rest with
    | nil => exact ⟨p, by simp⟩
    | cons q rest => exact ⟨_, by rw [List.intercalate_cons_cons]; rfl⟩
  obtain ⟨tail, htail⟩ := hstart
  rw [htail, Symbol.isBlank, List.all_cons, hc, Bool.false_and]

theorem map_trim_parameters {list : List Text} (h : ∀ q ∈ list, Text.isIdentifier q = true) :
    (list.map (' ' :: ·)).map Symbol.trim = list := by
  have hspace : ∀ c ∈ [' '], Symbol.isSpace c = true := List.forall_mem_singleton.mpr (by decide)
  have htrim : ∀ q ∈ list, (Symbol.trim ∘ (' ' :: ·)) q = id q := by
    intro q hq
    exact (Symbol.trim_append_left hspace q).trans (trim_parameter (h q hq))
  rw [List.map_map, List.map_congr_left htrim, List.map_id]

/-- Parameters between commas and spaces. -/
theorem parseParameters_intercalate {parameters : List Text}
    (hids : ∀ q ∈ parameters, Text.isIdentifier q = true) (hdistinct : parameters.Nodup) :
    parseParameters ([',', ' '].intercalate parameters) = .ok parameters := by
  cases parameters with
  | nil => rfl
  | cons p rest =>
    have hp : Text.isIdentifier p = true := hids p List.mem_cons_self
    have hrest : ∀ q ∈ rest, Text.isIdentifier q = true :=
      fun q hq => hids q (List.mem_cons_of_mem p hq)
    have hpieces : ∀ piece ∈ p :: rest.map (' ' :: ·), ',' ∉ piece := by
      intro piece hpiece
      rcases List.mem_cons.mp hpiece with rfl | hpiece
      · exact Text.notMem_of_isIdentifier hp (by decide)
      · obtain ⟨q, hq, rfl⟩ := List.mem_map.mp hpiece
        have hcomma : ',' ∉ q := Text.notMem_of_isIdentifier (hrest q hq) (by decide)
        simpa using hcomma
    rw [parseParameters, isBlank_parameters hp, if_neg Bool.false_ne_true,
      intercalate_comma_space, List.splitOn_intercalate ',' hpieces (List.cons_ne_nil _ _),
      List.map_cons, trim_parameter hp, map_trim_parameters hrest]
    exact checkParameters_of_nodup hids hdistinct

end Definition

/-! ### The header -/

/-- The header of a line that starts with `define`, a name and a parenthesis. -/
theorem Directive.header_define {name : Text} (h : Text.isIdentifier name = true) (after : Text) :
    ∃ before, header (defineKeyword ++ ' ' :: (name ++ '(' :: after)) =
      .ok ⟨name, before, after⟩ := by
  let n : Naming :=
    { indent := [], gap := [' '], name, rest := '(' :: after
      indent_blanks := by simp [Blanks]
      gap_blanks := by simp [Blanks]
      gap_ne_nil := List.cons_ne_nil _ _
      isName := Text.isIdentifier_iff.mp h
      ends := by
        intro c hc
        obtain rfl : '(' = c := Option.some.inj hc
        decide }
  have hopens : Opens n.rest [] after := ⟨by simp [Blanks], rfl⟩
  exact ⟨_, header_of_opens n hopens⟩

namespace Definition

/-- The first line of a definition: its name, and its parameters between commas. -/
def signatureLine (d : Definition) : Text :=
  Directive.defineKeyword ++
    ' ' :: (d.name ++ '(' :: ([',', ' '].intercalate d.parameters ++ [')']))

/-- **The signature is read back**, and what follows it on its line is left. -/
theorem signature_signatureLine {d : Definition} (h : d.WellFormed) (rest : Text) :
    signature (d.signatureLine ++ rest) = .ok ⟨d.name, d.parameters, rest⟩ := by
  have hline : d.signatureLine ++ rest = Directive.defineKeyword ++
      ' ' :: (d.name ++ '(' :: ([',', ' '].intercalate d.parameters ++ ')' :: rest)) := by
    simp [signatureLine]
  have hplain : ∀ c ∈ [',', ' '].intercalate d.parameters, c ≠ '(' ∧ c ≠ ')' := by
    have hsep : ∀ c ∈ [',', ' '], c ≠ '(' ∧ c ≠ ')' := by simp
    refine forall_mem_intercalate hsep fun q hq c hc => ⟨?_, ?_⟩
    · rintro rfl
      exact Text.notMem_of_isIdentifier (h.parameters_identifiers q hq) (by decide) hc
    · rintro rfl
      exact Text.notMem_of_isIdentifier (h.parameters_identifiers q hq) (by decide) hc
  have hclose : Parens.close? ([',', ' '].intercalate d.parameters ++ ')' :: rest) =
      some ([',', ' '].intercalate d.parameters, rest) :=
    Parens.close?_of_neutral (Parens.neutral_of_forall hplain) rfl rest
  obtain ⟨before, hheader⟩ := Directive.header_define h.name_identifier
    ([',', ' '].intercalate d.parameters ++ ')' :: rest)
  have hfree : reserved.contains d.name = false := by simpa using h.name_free
  rw [signature, hline, hheader]
  simp only [hfree, Bool.false_eq_true, if_false, hclose,
    parseParameters_intercalate h.parameters_identifiers h.parameters_distinct]

end Definition

/-! ### The end of a definition -/

/-- A text is cut at a name that is a whole word, if it does not stand in what comes before. -/
theorem Lexeme.cutAt_append {name part rest : Text} (hname : Text.isIdentifier name = true)
    (hpart : ∀ c ∈ part.getLast?, Text.isWordChar c = false)
    (hrest : ∀ c ∈ rest.head?, Text.isWordChar c = false) (hopen : name ∉ identifiers part) :
    cutAt name (part ++ (name ++ rest)) = some (part, rest) := by
  have hne : name ≠ [] := by
    rintro rfl
    cases hname
  have hbefore : ∀ l ∈ split part, (!l.isNamed name) = true := by
    intro l hl
    by_contra hnamed
    exact hopen (mem_identifiers_iff.mpr ⟨l, hl, by simpa using hnamed⟩)
  have hnamed : (ofRun name).isNamed name = true := by
    rw [isNamed, isIdentifier_ofRun, hname]
    simp [chars, ofRun]
  rw [cutAt, split_of_word hne (Text.isWordChar_of_isIdentifier hname) hpart hrest,
    List.span_eq_takeWhile_dropWhile, List.takeWhile_append_of_pos hbefore,
    List.dropWhile_append_of_pos hbefore, List.takeWhile_cons_of_neg (by simp [hnamed]),
    List.dropWhile_cons_of_neg (by simp [hnamed]), List.append_nil]
  simp only [Offsets.concat_split]

namespace Definition

/-! ### The body -/

theorem checkPart_of_plain {part : Text} (h : Directive.Plain part) (name : Text)
    (here : Location) : checkPart name here part = .ok () := by
  simp [checkPart, nested?, h.not_include, h.not_definition]

/-- **A body on lines of its own.** The lines before the `endmacro` are the parts, as long as they
are only text, and reading ends with its line. -/
theorem readBody_lines (name : Text) (home : Location) {ending : SourceLine}
    (hending : ending.text = Directive.endKeyword) (further : List SourceLine)
    {lines : List SourceLine} (here : Location) {segment : Text}
    (hparts : ∀ part ∈ segment :: lines.map SourceLine.text, Directive.Plain part) :
    readBody name home here segment (lines ++ ending :: further) =
      (.ok ⟨segment :: lines.map SourceLine.text ++ [[]], []⟩, lines.length + 1) := by
  induction lines generalizing here segment with
  | nil =>
    have hsegment := hparts segment List.mem_cons_self
    have hend : Directive.cutAtEnd? ending.text = some ([], []) := by
      rw [hending]
      decide
    rw [List.nil_append, readBody_cons hsegment.cutAtEnd? (checkPart_of_plain hsegment name here),
      readBody_of_cut hend, checkPart_of_plain (by decide)]
    rfl
  | cons line lines ih =>
    have hsegment := hparts segment List.mem_cons_self
    have hrest : ∀ part ∈ line.text :: lines.map SourceLine.text, Directive.Plain part :=
      fun part hpart => hparts part (List.mem_cons_of_mem segment hpart)
    rw [List.cons_append, readBody_cons hsegment.cutAtEnd? (checkPart_of_plain hsegment name here),
      ih line.location hrest]
    rfl

/-- A definition whose signature and body are read is the definition, if the parts of the body make
it up with white space around it. -/
theorem parse_of_parts {d : Definition} (hd : d.WellFormed) (depth : Nat) {rest : Text}
    {following : List SourceLine} {b : Body} {used : Nat}
    (hbody : readBody d.name d.location d.location rest following = (.ok b, used))
    (htrim : Symbol.trim (Text.joinLines b.parts) = d.body) :
    parse ⟨d.signatureLine ++ rest, d.location, depth⟩ following =
      (.ok ⟨d, if Symbol.isBlank b.rest then none else some b.rest⟩, used) := by
  rw [parse, signature_signatureLine hd]
  simp only [hbody]
  simp only [Except.map, htrim]

/-! ### The two layouts -/

theorem joinLines_body (d : Definition) : Text.joinLines (d.body.splitOn '\n') = d.body :=
  List.intercalate_splitOn '\n'

/-- A line of a body has no `endmacro`, since the body has none. -/
theorem WellFormed.plain_line {d : Definition} (hd : d.WellFormed) {line : Text}
    (hline : line ∈ d.body.splitOn '\n')
    (h : Directive.includePath? line = none ∧ Directive.startsDefinition line = false) :
    Directive.Plain line where
  not_include := h.1
  not_definition := h.2
  no_end := by
    intro hmem
    apply hd.body_open
    rw [← d.joinLines_body, Lexeme.identifiers_joinLines]
    exact List.mem_flatMap.mpr ⟨line, hline, hmem⟩

theorem WellFormed.trim_between {d : Definition} (hd : d.WellFormed) {before after : Text}
    (hbefore : ∀ c ∈ before, Symbol.isSpace c = true)
    (hafter : ∀ c ∈ after, Symbol.isSpace c = true) :
    Symbol.trim (before ++ (d.body ++ after)) = d.body := by
  rw [Symbol.trim_append_left hbefore, Symbol.trim_append_right hafter, hd.body_trimmed]

/-- The lines of the body between the line of the header and that of the end. -/
theorem WellFormed.trim_lines {d : Definition} (hd : d.WellFormed) :
    Symbol.trim (Text.joinLines ([] :: d.body.splitOn '\n' ++ [[]])) = d.body := by
  have hfeed : ∀ c ∈ ['\n'], Symbol.isSpace c = true := List.forall_mem_singleton.mpr (by decide)
  rw [Text.joinLines_concat_nil (List.cons_ne_nil _ _),
    Text.joinLines_cons (List.splitOn_ne_nil _ _), joinLines_body]
  exact hd.trim_between hfeed hfeed

/-- **A body on the line of its header.** -/
theorem readBody_line (name : Text) (home here : Location) {body t : Text}
    (hbody : Directive.Plain body) (ht : Directive.startsWithWord t = false)
    (following : List SourceLine) :
    readBody name home here (' ' :: (body ++ ' ' :: (Directive.endKeyword ++ t))) following =
      (.ok ⟨[' ' :: (body ++ [' '])], t⟩, 0) := by
  have hpart : Directive.Plain (' ' :: (body ++ [' '])) :=
    hbody.between_blanks (by decide) (by decide)
  have hend : ∀ c ∈ (' ' :: (body ++ [' '])).getLast?, Text.isWordChar c = false := by
    rw [← List.cons_append, List.getLast?_concat]
    rintro c hc
    obtain rfl := Option.mem_some.mp hc
    decide
  have htail : ∀ c ∈ t.head?, Text.isWordChar c = false := by
    intro c hc
    rw [Directive.startsWithWord, Option.mem_def.mp hc] at ht
    exact ht
  have hcut : Directive.cutAtEnd? (' ' :: (body ++ ' ' :: (Directive.endKeyword ++ t))) =
      some (' ' :: (body ++ [' ']), t) := by
    rw [show ' ' :: (body ++ ' ' :: (Directive.endKeyword ++ t)) =
      ' ' :: (body ++ [' ']) ++ (Directive.endKeyword ++ t) by simp]
    exact Lexeme.cutAt_append (by decide) hend htail hpart.no_end
  rw [readBody_of_cut hcut, checkPart_of_plain hpart]
  rfl

end Definition

/-- **Definitions are read back as they are written.** The definition has a name and parameters that
are allowed, and a body without white space at its ends, without an `endmacro`, and without a line
that is a directive. Written with the body on lines of its own and `endmacro` on the next one, it is
read back, and reading goes on at the line after that. Written on one line, if the body has one line
only, it is read back as well, and what follows the `endmacro` is the text after it, if it is not
blank. -/
theorem printed_definitions_are_read_back (d : Definition) (hd : d.WellFormed)
    (hplain : ∀ line ∈ d.body.splitOn '\n',
      Directive.includePath? line = none ∧ Directive.startsDefinition line = false) (depth : Nat) :
    (∀ (lines further : List SourceLine) (outer : OpenFiles),
      lines.map SourceLine.text = d.body.splitOn '\n' ++ [Directive.endKeyword] →
        Definition.parse ⟨d.signatureLine, d.location, depth⟩ (lines ++ further) =
            (.ok ⟨d, none⟩, lines.length) ∧
          OpenFiles.skip lines.length ((lines ++ further) :: outer) = further :: outer) ∧
      ('\n' ∉ d.body → ∀ (t : Text) (following : List SourceLine),
        Directive.startsWithWord t = false →
          Definition.parse
              ⟨d.signatureLine ++ ' ' :: (d.body ++ ' ' :: (Directive.endKeyword ++ t)), d.location,
                depth⟩ following =
            (.ok ⟨d, if Symbol.isBlank t then none else some t⟩, 0)) := by
  constructor
  · intro lines further outer hlines
    obtain ⟨front, last, rfl, hfront, hlast⟩ := List.map_eq_append_iff.mp hlines
    obtain ⟨ending, rfl, hending⟩ := List.map_eq_singleton_iff.mp hlast
    have hparts : ∀ part ∈ [] :: front.map SourceLine.text, Directive.Plain part := by
      rw [hfront]
      intro part hpart
      rcases List.mem_cons.mp hpart with rfl | hpart
      · decide
      · exact hd.plain_line hpart (hplain part hpart)
    have hbody := Definition.readBody_lines d.name d.location hending further d.location hparts
    rw [hfront] at hbody
    have hparse := Definition.parse_of_parts hd depth hbody hd.trim_lines
    rw [List.append_nil] at hparse
    refine ⟨?_, ?_⟩
    · rw [List.append_assoc, List.length_append]
      exact hparse
    · simp [OpenFiles.skip]
  · intro hline t following ht
    have hlines : d.body.splitOn '\n' = [d.body] := List.splitOn_eq_singleton hline
    have hbody : d.body ∈ d.body.splitOn '\n' := hlines ▸ List.mem_singleton_self d.body
    have hspace : ∀ c ∈ [' '], Symbol.isSpace c = true := List.forall_mem_singleton.mpr (by decide)
    have hread := Definition.readBody_line d.name d.location d.location
      (hd.plain_line hbody (hplain d.body hbody)) ht following
    refine Definition.parse_of_parts hd depth hread ?_
    rw [Text.joinLines_singleton]
    exact hd.trim_between hspace hspace

/-- A body of three lines, with parentheses that do not match and a word that goes on after the
keyword, and a body of one line with text after it. -/
theorem printed_bodies_are_read_back :
    let line : Nat → Text → SourceLine := fun n t => ⟨t, ⟨⟨['m']⟩, n⟩, 0⟩
    let d : Definition := ⟨['f'], [['x'], "y_1".toList], "(x,\n\nendmacros é".toList, ⟨⟨['m']⟩, 3⟩⟩
    let e : Definition := ⟨['g'], [], "x)".toList, ⟨⟨['m']⟩, 8⟩⟩
    Definition.parse (line 3 "define f(x, y_1)".toList)
        [line 4 "(x,".toList, line 5 [], line 6 "endmacros é".toList, line 7 "endmacro".toList,
          line 8 "endmacro".toList] = (.ok ⟨d, none⟩, 4) ∧
      Definition.parse (line 8 "define g() x) endmacro, z".toList) [] =
        (.ok ⟨e, some ", z".toList⟩, 0) := by
  intro line d e
  have hd : d.WellFormed :=
    ⟨by decide, by decide, by decide, by decide, by decide, by decide⟩
  have he : e.WellFormed :=
    ⟨by decide, by decide, by decide, by decide, by decide, by decide⟩
  constructor
  · have hlines : d.body.splitOn '\n' = ["(x,".toList, [], "endmacros é".toList] := by decide
    have h := printed_definitions_are_read_back d hd (by rw [hlines]; decide) 0
    exact (h.1 [line 4 "(x,".toList, line 5 [], line 6 "endmacros é".toList,
      line 7 "endmacro".toList] [line 8 "endmacro".toList] [] (by rw [hlines]; rfl)).1
  · have h := printed_definitions_are_read_back e he (by decide) 0
    exact h.2 (by decide) ", z".toList [] (by decide)

end TextExpander
