import TextExpander.Proofs.IncludeLines
import TextExpander.Proofs.MaximalWords

/-!
# Lines that begin a definition

A `define` line has a name and a parenthesis after it, or only the name, or not even that. The
header is read from the front of the line, part by part. In the grammar there is a rule for the line
up to the parenthesis and another one for the line up to the name, and the second is tried where the
first fails.

Every line is of one of three forms (`Directive.Form`), and both ways of reading say which. The
parts of a line are told apart by their characters: blanks do not start the keyword or a name, and
the character after a name is not of a word. So no part can be cut in another way, and the two rules
cannot take different words for the name.

## Main definitions

* `Directive.Naming`: a `define` line that has a name, by its parts.
* `Directive.Opens`: the blanks, and what follows the parenthesis that comes after them.
* `Directive.Nameless`: a line that has no name.
* `Directive.Form`: the forms of a line.
* `Grammar.defineHeader`, `Grammar.defineName`, `Grammar.defineKeyword`: the rules of the grammar.
* `Grammar.readHeader`: what the outcomes of the first two rules say.

## Main results

* `Directive.form`: every line is of one of the forms.
* `Directive.Naming.eq_of_line_eq`: a line has a name in one way.
* `Grammar.readHeader_eq_header`: the rules and the header say the same.
* `definition_lines_are_classified`: the forms, the rules and the header of a line.
-/

namespace TextExpander

namespace Directive

/-! ### The forms of a line -/

/-- The parts of a `define` line that has a name: blanks, the keyword, at least one blank, the name,
and the rest of the line. The word that the name is does not go on in the rest. -/
@[ext]
structure Naming where
  /-- What stands before the keyword. -/
  indent : Text
  /-- What stands between the keyword and the name. -/
  gap : Text
  /-- The name. -/
  name : Text
  /-- What comes after the name. -/
  rest : Text
  indent_blanks : Blanks indent
  gap_blanks : Blanks gap
  gap_ne_nil : gap ≠ []
  isName : Text.IsName name
  ends : ∀ c ∈ rest.head?, Text.isWordChar c = false

/-- The line up to the end of the name. -/
def Naming.front (n : Naming) : Text :=
  n.indent ++ (defineKeyword ++ (n.gap ++ n.name))

/-- The line. -/
def Naming.line (n : Naming) : Text :=
  n.indent ++ (defineKeyword ++ (n.gap ++ (n.name ++ n.rest)))

/-- What comes after the name starts with blanks and a parenthesis. -/
def Opens (rest blanks after : Text) : Prop :=
  Blanks blanks ∧ rest = blanks ++ '(' :: after

/-- A line that has no name after `define`. -/
inductive Nameless : Text → Prop
  /-- The keyword does not stand there. -/
  | noKeyword {line : Text} : defineKeyword.isPrefixOf? (line.dropWhile isBlank) = none →
      Nameless line
  /-- There is no blank after it. -/
  | noGap {indent rest : Text} : Blanks indent → (∀ c ∈ rest.head?, isBlank c = false) →
      Nameless (indent ++ (defineKeyword ++ rest))
  /-- The word after the blanks is no identifier, or there is none. -/
  | noName {indent gap word rest : Text} : Blanks indent → Blanks gap → gap ≠ [] →
      (∀ c ∈ (word ++ rest).head?, isBlank c = false) →
      (∀ c ∈ word, Text.isWordChar c = true) → (∀ c ∈ rest.head?, Text.isWordChar c = false) →
      Text.isIdentifier word = false →
      Nameless (indent ++ (defineKeyword ++ (gap ++ (word ++ rest))))

/-- The forms of a line. -/
inductive Form : Text → Prop
  /-- There is a name, and a parenthesis after it. -/
  | opened (n : Naming) {blanks after : Text} : Opens n.rest blanks after → Form n.line
  /-- There is a name, and no parenthesis after it. -/
  | named (n : Naming) : (∀ blanks after, ¬ Opens n.rest blanks after) → Form n.line
  /-- There is no name. -/
  | nameless {line : Text} : Nameless line → Form line

theorem Naming.isIdentifier (n : Naming) : Text.isIdentifier n.name = true :=
  Text.isIdentifier_iff.mpr n.isName

theorem Naming.isBlank_name (n : Naming) :
    ∀ c ∈ (n.name ++ n.rest).head?, isBlank c = false :=
  isBlank_of_isIdentifier n.isIdentifier n.rest

theorem Naming.exists_gap (n : Naming) : ∃ c gap, n.gap = c :: gap ∧ isBlank c = true := by
  obtain ⟨c, gap, hgap⟩ := List.exists_cons_of_ne_nil n.gap_ne_nil
  exact ⟨c, gap, hgap, blanks_iff.mp n.gap_blanks c (hgap ▸ List.mem_cons_self)⟩

theorem isBlank_defineKeyword (rest : Text) :
    ∀ c ∈ (defineKeyword ++ rest).head?, isBlank c = false :=
  isBlank_of_isIdentifier (by decide) rest

theorem isBlank_opening (after : Text) : ∀ c ∈ ('(' :: after).head?, isBlank c = false := by
  intro c hc
  obtain rfl : '(' = c := Option.some.inj hc
  rfl

/-- **Every line is of one of the forms.** Its blanks, the keyword, the blanks after it and the word
after them are split off one after the other. -/
theorem form (line : Text) : Form line := by
  cases lineStart defineKeyword line with
  | missing hprefix => exact .nameless (.noKeyword hprefix)
  | @found indent later hindent _ =>
    obtain ⟨gap, later, rfl, hgap, hlater⟩ := Text.exists_run isBlank later
    obtain ⟨word, rest, rfl, hword, hrest⟩ := Text.exists_run Text.isWordChar later
    rw [← blanks_iff] at hindent hgap
    by_cases hne : gap = []
    · subst hne
      exact .nameless (.noGap hindent hlater)
    cases hname : Text.isIdentifier word with
    | false => exact .nameless (.noName hindent hgap hne hlater hword hrest hname)
    | true =>
      let n : Naming :=
        { indent, gap, name := word, rest
          indent_blanks := hindent
          gap_blanks := hgap
          gap_ne_nil := hne
          isName := Text.isIdentifier_iff.mp hname
          ends := hrest }
      by_cases hopens : ∃ blanks after, Opens rest blanks after
      · obtain ⟨blanks, after, hopens⟩ := hopens
        exact .opened n hopens
      · exact .named n fun blanks after h => hopens ⟨blanks, after, h⟩

/-- **A line has a name in one way.** -/
theorem Naming.eq_of_line_eq {n m : Naming} (h : n.line = m.line) : n = m := by
  obtain ⟨hindent, hkeyword⟩ := Text.run_unique h (blanks_iff.mp n.indent_blanks)
    (isBlank_defineKeyword _) (blanks_iff.mp m.indent_blanks) (isBlank_defineKeyword _)
  obtain ⟨hgap, hword⟩ := Text.run_unique (List.append_cancel_left hkeyword)
    (blanks_iff.mp n.gap_blanks) n.isBlank_name (blanks_iff.mp m.gap_blanks) m.isBlank_name
  obtain ⟨hname, hrest⟩ := Text.run_unique hword (Text.isWordChar_of_isIdentifier n.isIdentifier)
    n.ends (Text.isWordChar_of_isIdentifier m.isIdentifier) m.ends
  exact Naming.ext hindent hgap hname hrest

theorem Opens.unique {rest blanks after blanks' after' : Text} (h : Opens rest blanks after)
    (h' : Opens rest blanks' after') : blanks = blanks' ∧ after = after' := by
  obtain ⟨hblanks, hafter⟩ := Text.run_unique (h.2.symm.trans h'.2) (blanks_iff.mp h.1)
    (isBlank_opening after) (blanks_iff.mp h'.1) (isBlank_opening after')
  exact ⟨hblanks, (List.cons.inj hafter).2⟩

/-! ### The header -/

theorem afterKeyword?_naming (n : Naming) :
    afterKeyword? defineKeyword n.line = some (n.gap ++ (n.name ++ n.rest)) := by
  have hword : startsWithWord (n.gap ++ (n.name ++ n.rest)) = false := by
    obtain ⟨c, gap, hgap, hblank⟩ := n.exists_gap
    rw [hgap]
    exact isWordChar_of_isBlank hblank
  rw [Naming.line, afterKeyword?_append (blanks_iff.mp n.indent_blanks) (isBlank_defineKeyword _),
    hword]
  rfl

/-- A line that has a name is a `define` line. -/
theorem startsDefinition_naming (n : Naming) : startsDefinition n.line = true := by
  rw [startsDefinition, afterKeyword?_naming]
  rfl

/-- What comes after the name decides. -/
theorem header_naming (n : Naming) :
    (∀ after, n.rest.dropWhile isBlank = '(' :: after →
        header n.line =
          .ok ⟨n.name, n.line.take (n.line.length - (after.length + 1)), after⟩) ∧
      ((∀ after, n.rest.dropWhile isBlank ≠ '(' :: after) →
        header n.line = .error (.missingParameters n.name)) := by
  have hgap := Text.dropWhile_run (blanks_iff.mp n.gap_blanks) n.isBlank_name
  have hwords := Text.isWordChar_of_isIdentifier n.isIdentifier
  have hblank : (n.gap ++ (n.name ++ n.rest)).head?.any isBlank = true := by
    obtain ⟨c, gap, hc, hblank⟩ := n.exists_gap
    rw [hc]
    exact hblank
  rw [header, afterKeyword?_naming]
  simp only [hgap, hblank, Text.takeWhile_run hwords n.ends, Text.dropWhile_run hwords n.ends,
    n.isIdentifier, Bool.and_self, if_true]
  constructor
  · intro after hafter
    simp only [hafter]
  · intro hother
    split
    · next after hafter => exact absurd hafter (hother after)
    · rfl

theorem header_of_opens (n : Naming) {blanks after : Text} (h : Opens n.rest blanks after) :
    header n.line = .ok ⟨n.name, n.front ++ blanks, after⟩ := by
  have hline : n.line = n.front ++ blanks ++ '(' :: after := by
    rw [Naming.line, Naming.front, h.2]
    simp only [List.append_assoc]
  have hlength : n.line.length - (after.length + 1) = (n.front ++ blanks).length := by
    rw [hline, List.length_append, List.length_cons, Nat.add_sub_cancel]
  have hafter : n.rest.dropWhile isBlank = '(' :: after := by
    rw [h.2, Text.dropWhile_run (blanks_iff.mp h.1) (isBlank_opening after)]
  rw [(header_naming n).1 after hafter, hlength, hline, List.take_left]

theorem header_of_not_opens (n : Naming) (h : ∀ blanks after, ¬ Opens n.rest blanks after) :
    header n.line = .error (.missingParameters n.name) := by
  obtain ⟨blanks, later, hrest, hblanks, hlater⟩ := Text.exists_run isBlank n.rest
  refine (header_naming n).2 fun after hafter => h blanks after ⟨blanks_iff.mpr hblanks, ?_⟩
  rw [hrest, Text.dropWhile_run hblanks hlater] at hafter
  rw [hrest, hafter]

/-- There is no name where there is no blank after the keyword, or no identifier after the
blanks. -/
theorem header_eq_missingName {line : Text}
    (h : ∀ rest, afterKeyword? defineKeyword line = some rest →
      (rest.head?.any isBlank &&
        Text.isIdentifier ((rest.dropWhile isBlank).takeWhile Text.isWordChar)) = false) :
    header line = .error .missingName := by
  rw [header]
  cases hrest : afterKeyword? defineKeyword line with
  | none => rfl
  | some rest =>
    simp only [h rest hrest, Bool.false_eq_true, if_false]

theorem header_of_nameless {line : Text} (h : Nameless line) :
    header line = .error .missingName := by
  refine header_eq_missingName fun after hafter => ?_
  cases h with
  | noKeyword hprefix =>
    rw [afterKeyword?_of_isPrefixOf? hprefix] at hafter
    cases hafter
  | @noGap indent rest hindent hrest =>
    rw [afterKeyword?_append (blanks_iff.mp hindent) (isBlank_defineKeyword rest)] at hafter
    obtain rfl : rest = after := Option.some.inj (Option.ite_none_left_eq_some.mp hafter).2
    cases rest with
    | nil => rfl
    | cons c rest =>
      rw [List.head?_cons, Option.any_some, hrest c rfl, Bool.false_and]
  | @noName indent gap word rest hindent hgap hne hlater hword hrest hname =>
    rw [afterKeyword?_append (blanks_iff.mp hindent) (isBlank_defineKeyword _)] at hafter
    obtain rfl := Option.some.inj (Option.ite_none_left_eq_some.mp hafter).2
    rw [Text.dropWhile_run (blanks_iff.mp hgap) hlater, Text.takeWhile_run hword hrest, hname,
      Bool.and_false]

end Directive

/-! ### The grammar -/

/-- A part of a `define` line that leaves a token. -/
inductive HeaderPart where
  /-- The name. -/
  | name
  /-- The parenthesis that opens the parameter list. -/
  | opening
  deriving DecidableEq, Repr

namespace Grammar

open Peg (Token)
open Directive (Naming Opens Nameless)

/-- The line up to the keyword, which is a whole word. -/
def defineKeyword : Peg HeaderPart :=
  directive Directive.defineKeyword (.not (.char Text.isWordChar))

/-- The line up to the name. -/
def defineName : Peg HeaderPart :=
  directive Directive.defineKeyword
    (.seq (.plus (.char Directive.isBlank)) (name .name Text.isWordChar))

/-- The line up to the parenthesis. -/
def defineHeader : Peg HeaderPart :=
  directive Directive.defineKeyword
    (.seq (.plus (.char Directive.isBlank))
      (.seq (name .name Text.isWordChar)
        (.seq (.star (.char Directive.isBlank)) (.token .opening (.char (· == '('))))))

/-- The tokens of an outcome. There are none where the expression fails. -/
def tokensOf (outcome : Peg.Outcome HeaderPart) : List (Token HeaderPart) :=
  outcome.elim [] Prod.fst

/-- What the two rules say about a line: the name and the offset of the parenthesis, if the rule for
the whole leaves both; else that there are no parameters, if the rule for the name leaves it. -/
def readHeader (whole named : Peg.Outcome HeaderPart) :
    Except Directive.HeaderFault (Text × Nat) :=
  let last (kind : HeaderPart) := ((tokensOf whole).filter fun a => a.kind = kind).getLast?
  match last .name, last .opening with
  | some name, some opening => .ok (name.text, opening.start)
  | _, _ =>
    match (tokensOf named).find? fun a => a.kind = .name with
    | some name => .error (.missingParameters name.text)
    | none => .error .missingName

/-- A line starts with the keyword exactly if the rule for it matches. -/
theorem accepts_defineKeyword_iff {line : Text} :
    defineKeyword.Accepts line ↔ Directive.startsDefinition line = true := by
  rw [Directive.startsDefinition]
  cases Directive.lineStart Directive.defineKeyword line with
  | missing hprefix =>
    rw [Directive.afterKeyword?_of_isPrefixOf? hprefix]
    constructor
    · rintro ⟨r, hr⟩
      cases hr.unique (parses_directive_fail hprefix)
    · rintro ⟨⟩
  | @found indent rest hindent hkeyword =>
    have hword := parses_directive hindent hkeyword (parses_not_word (κ := HeaderPart)
      (Text.byteLength (indent ++ Directive.defineKeyword)) rest)
    rw [Directive.afterKeyword?_append hindent hkeyword]
    cases hgoes : Directive.startsWithWord rest with
    | true =>
      rw [hgoes] at hword
      constructor
      · rintro ⟨r, hr⟩
        cases hr.unique hword
      · rintro ⟨⟩
    | false =>
      rw [hgoes] at hword
      exact ⟨fun _ => rfl, fun _ => ⟨_, hword⟩⟩

/-! ### A line that has a name -/

/-- The number of bytes before the name. -/
def nameOffset (n : Naming) : Nat :=
  Text.byteLength (n.indent ++ Directive.defineKeyword) + Text.byteLength n.gap

/-- The token of the name. -/
def nameToken (n : Naming) : Token HeaderPart :=
  ⟨.name, n.name, nameOffset n, nameOffset n + Text.byteLength n.name⟩

theorem parses_naming (n : Naming) {e : Peg HeaderPart} {r : Peg.Outcome HeaderPart}
    (he : e.Parses ⟨nameOffset n, n.name ++ n.rest⟩ r) :
    (directive Directive.defineKeyword (.seq (.plus (.char Directive.isBlank)) e)).Parses
      ⟨0, n.line⟩ r := by
  have hgap := (Peg.reads_char (κ := HeaderPart) Directive.isBlank).plus n.gap_ne_nil
    (Directive.blanks_iff.mp n.gap_blanks) n.isBlank_name
    (Text.byteLength (n.indent ++ Directive.defineKeyword))
  exact parses_directive (Directive.blanks_iff.mp n.indent_blanks)
    (Directive.isBlank_defineKeyword _) (.seq_silent hgap he)

/-- The name is read. -/
theorem parses_naming_name (n : Naming) :
    (name HeaderPart.name Text.isWordChar).Parses ⟨nameOffset n, n.name ++ n.rest⟩
      (some ([nameToken n], ⟨nameOffset n + Text.byteLength n.name, n.rest⟩)) :=
  parses_name (fun _ => Text.isWordChar_of_isAsciiWord) _ n.isIdentifier n.ends _

theorem parses_defineName_naming (n : Naming) :
    defineName.Parses ⟨0, n.line⟩
      (some ([nameToken n], ⟨nameOffset n + Text.byteLength n.name, n.rest⟩)) :=
  parses_naming n (parses_naming_name n)

/-- With a parenthesis, the whole is read. -/
theorem parses_defineHeader_of_opens (n : Naming) {blanks after : Text}
    (h : Opens n.rest blanks after) :
    ∃ stop, defineHeader.Parses ⟨0, n.line⟩ (some
      ([nameToken n, ⟨.opening, ['('], Text.byteLength (n.front ++ blanks), stop⟩],
        ⟨stop, after⟩)) := by
  have hname := parses_naming_name n
  have hstar := (Peg.reads_char (κ := HeaderPart) Directive.isBlank).star
    (Directive.blanks_iff.mp h.1) (Directive.isBlank_opening after)
    (nameOffset n + Text.byteLength n.name)
  have hoffset : nameOffset n + Text.byteLength n.name + Text.byteLength blanks =
      Text.byteLength (n.front ++ blanks) := by
    simp only [nameOffset, Naming.front, Text.byteLength_append, Nat.add_assoc]
  rw [← h.2, hoffset] at hstar
  exact ⟨_, parses_naming n (.seq hname (.seq_silent hstar (.token (.char rfl) rfl)))⟩

/-- Without one it is not. -/
theorem parses_defineHeader_of_not_opens (n : Naming)
    (h : ∀ blanks after, ¬ Opens n.rest blanks after) :
    defineHeader.Parses ⟨0, n.line⟩ none := by
  obtain ⟨blanks, later, hrest, hblanks, hlater⟩ := Text.exists_run Directive.isBlank n.rest
  have hother : ∀ c ∈ later.head?, (c == '(') = false := by
    intro c hc
    rw [beq_eq_false_iff_ne]
    rintro rfl
    obtain ⟨after, rfl⟩ := List.head?_eq_some_iff.mp hc
    exact h blanks after ⟨Directive.blanks_iff.mpr hblanks, hrest⟩
  have hstar := (Peg.reads_char (κ := HeaderPart) Directive.isBlank).star hblanks hlater
    (nameOffset n + Text.byteLength n.name)
  rw [← hrest] at hstar
  exact parses_naming n (.seq_fail_second (parses_naming_name n)
    (.seq_silent hstar (.token_fail ((Peg.reads_char _).fail hother _))))

/-! ### A line that has none -/

/-- A word that is no identifier is not read as a name, and neither is no word. -/
theorem parses_name_of_word {word rest : Text} (hname : Text.isIdentifier word = false)
    (hword : ∀ c ∈ word, Text.isWordChar c = true)
    (hrest : ∀ c ∈ rest.head?, Text.isWordChar c = false) (n : Nat) :
    (name HeaderPart.name Text.isWordChar).Parses ⟨n, word ++ rest⟩ none := by
  have hlibrary : ∀ c, Text.isAsciiWord c = true → Text.isWordChar c = true :=
    fun _ => Text.isWordChar_of_isAsciiWord
  by_cases hne : word = []
  · have hstart : ∀ c ∈ rest.head?, Text.isIdentifierStart c = false := by
      intro c hc
      rw [← Bool.not_eq_true]
      intro hstart
      have hascii := Text.isAsciiWord_iff.mpr (.inl (Text.isIdentifierStart_iff.mp hstart))
      exact absurd ((hlibrary c hascii).symm.trans (hrest c hc)) (by decide)
    rw [hne, List.nil_append]
    exact .token_fail (.seq_fail ((Peg.reads_char _).fail hstart n))
  · exact parses_name_fail hlibrary _ hname hne hword n

/-- A rule for the line that goes on with a name fails. -/
theorem parses_of_nameless {line : Text} (h : Nameless line) {e : Peg HeaderPart}
    (he : ∀ i, (name HeaderPart.name Text.isWordChar).Parses i none → e.Parses i none) :
    (directive Directive.defineKeyword (.seq (.plus (.char Directive.isBlank)) e)).Parses
      ⟨0, line⟩ none := by
  cases h with
  | noKeyword hprefix => exact parses_directive_fail hprefix
  | noGap hindent hrest =>
    exact parses_directive (Directive.blanks_iff.mp hindent) (Directive.isBlank_defineKeyword _)
      (.seq_fail ((Peg.reads_char _).plus_fail hrest _))
  | noName hindent hgap hne hlater hword hrest hname =>
    have hplus := (Peg.reads_char (κ := HeaderPart) Directive.isBlank).plus hne
      (Directive.blanks_iff.mp hgap) hlater
    exact parses_directive (Directive.blanks_iff.mp hindent) (Directive.isBlank_defineKeyword _)
      (.seq_silent (hplus _) (he _ (parses_name_of_word hname hword hrest _)))

/-! ### The two rules and the header -/

/-- **The rules and the header say the same.** -/
theorem readHeader_eq_header (line : Text) :
    ∃ whole named, defineHeader.Parses ⟨0, line⟩ whole ∧ defineName.Parses ⟨0, line⟩ named ∧
      readHeader whole named = (Directive.header line).map fun h => (h.name, h.opening) := by
  cases Directive.form line with
  | opened n h =>
    obtain ⟨stop, hwhole⟩ := parses_defineHeader_of_opens n h
    refine ⟨_, _, hwhole, parses_defineName_naming n, ?_⟩
    rw [Directive.header_of_opens n h]
    rfl
  | named n h =>
    refine ⟨_, _, parses_defineHeader_of_not_opens n h, parses_defineName_naming n, ?_⟩
    rw [Directive.header_of_not_opens n h]
    rfl
  | nameless h =>
    refine ⟨_, _, parses_of_nameless h fun _ => .seq_fail, parses_of_nameless h fun _ => id, ?_⟩
    rw [Directive.header_of_nameless h]
    rfl

end Grammar

/-! ### The answer -/

namespace Directive

/-- The lines that have a header. -/
theorem header_eq_ok_iff {line : Text} {h : Header} :
    header line = .ok h ↔
      ∃ (n : Naming) (blanks : Text), n.line = line ∧ Opens n.rest blanks h.after ∧
        h.name = n.name ∧ h.before = n.front ++ blanks ∧
        h.opening = Text.byteLength (n.front ++ blanks) := by
  constructor
  · intro hheader
    cases form line with
    | @opened n blanks after hopens =>
      rw [header_of_opens n hopens] at hheader
      cases hheader
      exact ⟨n, blanks, rfl, hopens, rfl, rfl, rfl⟩
    | named n hopens => cases (header_of_not_opens n hopens).symm.trans hheader
    | nameless hnone => cases (header_of_nameless hnone).symm.trans hheader
  · rintro ⟨n, blanks, rfl, hopens, hname, hbefore, -⟩
    rw [header_of_opens n hopens, ← hname, ← hbefore]

/-- The lines that have a name and no header. -/
theorem header_eq_missingParameters_iff {line name : Text} :
    header line = .error (.missingParameters name) ↔
      ∃ n : Naming, n.line = line ∧ n.name = name ∧
        ∀ blanks after, ¬ Opens n.rest blanks after := by
  constructor
  · intro hheader
    cases form line with
    | opened n hopens => cases (header_of_opens n hopens).symm.trans hheader
    | named n hopens =>
      cases (header_of_not_opens n hopens).symm.trans hheader
      exact ⟨n, rfl, rfl, hopens⟩
    | nameless hnone => cases (header_of_nameless hnone).symm.trans hheader
  · rintro ⟨n, rfl, rfl, hopens⟩
    exact header_of_not_opens n hopens

/-- The lines that have no name. -/
theorem header_eq_missingName_iff {line : Text} :
    header line = .error .missingName ↔ ∀ n : Naming, n.line ≠ line := by
  constructor
  · rintro hheader n rfl
    by_cases hopens : ∃ blanks after, Opens n.rest blanks after
    · obtain ⟨blanks, after, hopens⟩ := hopens
      cases (header_of_opens n hopens).symm.trans hheader
    · have hnone := header_of_not_opens n fun blanks after h => hopens ⟨blanks, after, h⟩
      cases hnone.symm.trans hheader
  · intro hnone
    cases form line with
    | opened n _ => exact absurd rfl (hnone n)
    | named n _ => exact absurd rfl (hnone n)
    | nameless hnameless => exact header_of_nameless hnameless

end Directive

/-- **`define` lines are classified.** A line has a header exactly if it is made of blanks, the
keyword, at least one blank, a name, blanks and a parenthesis, with anything after it; it lacks
parameters exactly if it has a name and what follows the name is not blanks and a parenthesis; and
it lacks a name in every other case. The name, and the place of the parenthesis, are those of the
one way in which the line can be cut, and a line with a name starts with the keyword. The rules of
the grammar give the same answers. -/
theorem definition_lines_are_classified (line : Text) :
    (∀ h, Directive.header line = .ok h ↔
        ∃ (n : Directive.Naming) (blanks : Text), n.line = line ∧
          Directive.Opens n.rest blanks h.after ∧ h.name = n.name ∧
          h.before = n.front ++ blanks ∧ h.opening = Text.byteLength (n.front ++ blanks)) ∧
      (∀ name, Directive.header line = .error (.missingParameters name) ↔
        ∃ n : Directive.Naming, n.line = line ∧ n.name = name ∧
          ∀ blanks after, ¬ Directive.Opens n.rest blanks after) ∧
      (Directive.header line = .error .missingName ↔ ∀ n : Directive.Naming, n.line ≠ line) ∧
      (∀ n m : Directive.Naming, n.line = line → m.line = line → n = m) ∧
      (∀ (n : Directive.Naming) (blanks after blanks' after' : Text), n.line = line →
        Directive.Opens n.rest blanks after → Directive.Opens n.rest blanks' after' →
        blanks = blanks' ∧ after = after') ∧
      (Directive.header line ≠ .error .missingName → Directive.startsDefinition line = true) ∧
      (Grammar.defineKeyword.Accepts line ↔ Directive.startsDefinition line = true) ∧
      ∃ whole named, (∀ r, Grammar.defineHeader.Parses ⟨0, line⟩ r ↔ r = whole) ∧
        (∀ r, Grammar.defineName.Parses ⟨0, line⟩ r ↔ r = named) ∧
        Grammar.readHeader whole named =
          (Directive.header line).map fun h => (h.name, h.opening) := by
  refine ⟨fun h => Directive.header_eq_ok_iff,
    fun name => Directive.header_eq_missingParameters_iff, Directive.header_eq_missingName_iff,
    ?_, ?_, ?_, Grammar.accepts_defineKeyword_iff, ?_⟩
  · rintro n m hn hm
    exact Directive.Naming.eq_of_line_eq (hn.trans hm.symm)
  · rintro n blanks after blanks' after' - h h'
    exact h.unique h'
  · intro hheader
    cases Directive.form line with
    | opened n _ => exact Directive.startsDefinition_naming n
    | named n _ => exact Directive.startsDefinition_naming n
    | nameless hnone => exact absurd (Directive.header_of_nameless hnone) hheader
  · obtain ⟨whole, named, hwhole, hnamed, hread⟩ := Grammar.readHeader_eq_header line
    exact ⟨whole, named, fun r => ⟨fun hr => hr.unique hwhole, fun hr => hr ▸ hwhole⟩,
      fun r => ⟨fun hr => hr.unique hnamed, fun hr => hr ▸ hnamed⟩, hread⟩

/-- A name does not end inside a word, though the rest of the word is in another script. -/
example : Directive.header "define hé(a)".toList = .error .missingName := by
  decide +kernel

end TextExpander
