import TextExpander.Proofs.Directives
import TextExpander.Proofs.Peg

/-!
# Lines that include a file

An `include` line has a keyword and a path in quotes, and blanks around them. Inside the quotes a
backslash takes the character after it with it, so a quote can be part of the path, and two of the
characters that may follow a backslash stand for others.

The form of such a line is said here by its parts: the path is made of items, and for each item
there is the character that it stands for. The grammar of the line reads it from the front instead
and takes nothing back. It takes as many plain characters at a time as there are, so its tokens are
not the items. But what an item starts with settles which kind it is, and whether there is one: the
grammar stops at a quote, at the end of the line, and at a backslash with nothing after it, and no
path goes on there.

## Main definitions

* `Directive.PathItem`, `Directive.Quoted`, `Directive.Includes`: the form of an `include` line, and
  the path in it.
* `Directive.escapeMarks`: a path as it is written.
* `Directive.LineStart`: whether a keyword comes after the blanks that a line starts with.
* `Grammar.directive`: a line with a keyword after its blanks.
* `Grammar.includeDirective`: the grammar of an `include` line.

## Main results

* `Grammar.readsItems`: the items at the front of a text are read.
* `Directive.includePath?_eq_some_iff`: the lines that have a path.
* `Grammar.parses_includeDirective`: what the grammar makes of a line.
* `include_lines_name_their_path`: the lines, the grammar and the path.
-/

namespace TextExpander

namespace Directive

/-! ### The form of a line -/

/-- Spaces and tabs. -/
def Blanks (t : Text) : Prop :=
  ∀ c ∈ t, c = ' ' ∨ c = '\t'

/-- An item of a path in quotes, and the character that it stands for. -/
inductive PathItem : Text → Char → Prop
  /-- A character that is neither a quote nor a backslash stands for itself. -/
  | plain {c : Char} : c ≠ '"' → c ≠ '\\' → PathItem [c] c
  /-- A line feed. -/
  | lineFeed : PathItem ['\\', 'n'] '\n'
  /-- A tab. -/
  | tab : PathItem ['\\', 't'] '\t'
  /-- Any other character after a backslash stands for itself. -/
  | escaped {c : Char} : c ≠ 'n' → c ≠ 't' → PathItem ['\\', c] c

/-- A path in quotes, with blanks around it. -/
def Quoted (t path : Text) : Prop :=
  ∃ (before after : Text) (items : List Text), Blanks before ∧ Blanks after ∧
    List.Forall₂ PathItem items path ∧
    t = before ++ '"' :: (items.flatten ++ '"' :: after)

/-- The line includes the file of this path: blanks, the keyword, and the path in quotes with blanks
around it. -/
def Includes (line path : Text) : Prop :=
  ∃ indent quoted : Text, Blanks indent ∧ Quoted quoted path ∧
    line = indent ++ (includeKeyword ++ quoted)

/-- A path with a backslash before each quote and each backslash. -/
def escapeMarks (path : Text) : Text :=
  path.flatMap fun c => if c = '"' ∨ c = '\\' then ['\\', c] else [c]

theorem blanks_iff {t : Text} : Blanks t ↔ ∀ c ∈ t, isBlank c = true := by
  simp [Blanks, isBlank]

/-! ### The keyword -/

section Keyword

variable {keyword line indent rest : Text}

theorem afterKeyword?_of_isPrefixOf? (h : keyword.isPrefixOf? (line.dropWhile isBlank) = none) :
    afterKeyword? keyword line = none := by
  rw [afterKeyword?, h]
  rfl

/-- What follows a keyword that is a whole word, and comes after nothing but blanks. -/
theorem afterKeyword?_append (hindent : ∀ c ∈ indent, isBlank c = true)
    (hkeyword : ∀ c ∈ (keyword ++ rest).head?, isBlank c = false) :
    afterKeyword? keyword (indent ++ (keyword ++ rest)) =
      if startsWithWord rest then none else some rest := by
  rw [afterKeyword?, Text.dropWhile_run hindent hkeyword,
    List.isPrefixOf?_eq_some_iff_append_eq.mpr rfl]
  cases hword : startsWithWord rest <;> simp [hword]

/-- How a line starts: with blanks and the keyword, which may go on as another word, or not. -/
inductive LineStart (keyword : Text) : Text → Prop
  /-- The keyword comes after the blanks. -/
  | found {indent rest : Text} : (∀ c ∈ indent, isBlank c = true) →
      (∀ c ∈ (keyword ++ rest).head?, isBlank c = false) →
      LineStart keyword (indent ++ (keyword ++ rest))
  /-- Something else does, or nothing. -/
  | missing {line : Text} : keyword.isPrefixOf? (line.dropWhile isBlank) = none →
      LineStart keyword line

theorem lineStart (keyword line : Text) : LineStart keyword line := by
  obtain ⟨indent, t, rfl, hindent, ht⟩ := Text.exists_run isBlank line
  cases hprefix : keyword.isPrefixOf? t with
  | none => exact .missing (by rw [Text.dropWhile_run hindent ht, hprefix])
  | some rest =>
    obtain rfl := List.isPrefixOf?_eq_some_iff_append_eq.mp hprefix
    exact .found hindent ht

/-- An identifier does not start with a blank. -/
theorem isBlank_of_isIdentifier (h : Text.isIdentifier keyword = true) (rest : Text) :
    ∀ c ∈ (keyword ++ rest).head?, isBlank c = false := by
  intro c hc
  cases keyword with
  | nil => cases h
  | cons d keyword =>
    obtain rfl : d = c := Option.some.inj hc
    rw [← Bool.not_eq_true]
    exact fun hblank => Text.notMem_of_isIdentifier h (isWordChar_of_isBlank hblank)
      List.mem_cons_self

end Keyword

/-! ### The items of a path -/

/-- Where the items of a path end: there is nothing left, or a backslash with nothing after it, or a
quote. -/
inductive PathEnd : Text → Prop
  /-- Nothing is left. -/
  | nothing : PathEnd []
  /-- A backslash that has nothing to take with it. -/
  | backslash : PathEnd ['\\']
  /-- The closing quote. -/
  | quote (after : Text) : PathEnd ('"' :: after)

theorem readPath_item {item : Text} {c : Char} (h : PathItem item c) (passed rest : Text) :
    readPath passed (item ++ rest) = readPath (c :: passed) rest := by
  cases h with
  | plain hquote hescape => exact readPath_plain hquote hescape passed rest
  | lineFeed => exact readPath_escape passed 'n' rest
  | tab => exact readPath_escape passed 't' rest
  | escaped hn ht =>
    rw [List.cons_append, List.singleton_append, readPath_escape, unescape, if_neg hn, if_neg ht]

theorem readPath_items {items : List Text} {path : Text} (h : List.Forall₂ PathItem items path)
    (passed rest : Text) :
    readPath passed (items.flatten ++ rest) = readPath (path.reverse ++ passed) rest := by
  induction h generalizing passed with
  | nil => rfl
  | cons hitem _ ih =>
    rw [List.flatten_cons, List.append_assoc, readPath_item hitem, ih, List.reverse_cons,
      List.append_assoc]
    rfl

/-! ### The path in quotes -/

section Quoted

variable {before t : Text} (hbefore : ∀ c ∈ before, isBlank c = true)

include hbefore

theorem quotedPath?_of_quote :
    quotedPath? (before ++ '"' :: t) =
      (readPath [] t).bind fun read => if read.2.all isBlank then some read.1 else none := by
  have hquote : ∀ c ∈ ('"' :: t).head?, isBlank c = false := by
    intro c hc
    obtain rfl := Option.some.inj hc
    rfl
  rw [quotedPath?, Text.dropWhile_run hbefore hquote]
  rfl

theorem quotedPath?_of_other (hblank : ∀ c ∈ t.head?, isBlank c = false)
    (hquote : ∀ c ∈ t.head?, c ≠ '"') : quotedPath? (before ++ t) = none := by
  rw [quotedPath?, Text.dropWhile_run hbefore hblank]
  cases t with
  | nil => rfl
  | cons c t =>
    split
    · exact absurd (List.cons.inj ‹_›).1 (hquote c rfl)
    · rfl

end Quoted

theorem startsWithWord_of_quoted {t path : Text} (h : Quoted t path) :
    startsWithWord t = false := by
  obtain ⟨before, after, items, hbefore, -, -, rfl⟩ := h
  cases before with
  | nil => rfl
  | cons c before =>
    exact isWordChar_of_isBlank (blanks_iff.mp hbefore c List.mem_cons_self)

/-- A path in quotes is read. -/
theorem quotedPath?_of_quoted {t path : Text} (h : Quoted t path) : quotedPath? t = some path := by
  obtain ⟨before, after, items, hbefore, hafter, hitems, rfl⟩ := h
  have hall : after.all isBlank = true := List.all_eq_true.mpr (blanks_iff.mp hafter)
  rw [quotedPath?_of_quote (blanks_iff.mp hbefore), readPath_items hitems, List.append_nil,
    readPath, List.reverse_reverse, Option.bind_some, hall, if_pos rfl]

end Directive

/-! ### The grammar -/

/-- A part of a path that leaves a token. -/
inductive PathPart where
  /-- Plain characters. -/
  | characters
  /-- A backslash and the character after it. -/
  | escape
  deriving DecidableEq, Repr

namespace Grammar

open Peg (Token)

/-- What follows a keyword after the blanks that a line starts with. -/
def directive {κ : Type} (keyword : Text) (e : Peg κ) : Peg κ :=
  .seq .start (.seq (.star (.char Directive.isBlank)) (.seq (.literal keyword) e))

/-- A quote or a backslash. -/
def isMark (c : Char) : Bool :=
  c == '"' || c == '\\'

/-- As many plain characters as there are, or an escape. -/
def pathPart : Peg PathPart :=
  .choice
    (.token .characters (.plus (.seq (.not (.char isMark)) (.char fun _ => true))))
    (.token .escape (.seq (.char (· == '\\')) (.char fun _ => true)))

/-- A path in quotes. -/
def path : Peg PathPart :=
  .seq (.char (· == '"')) (.seq (.star pathPart) (.char (· == '"')))

/-- A path in quotes between blanks, and the end of the line. -/
def quotedPath : Peg PathPart :=
  .seq (.star (.char Directive.isBlank))
    (.seq path (.seq (.star (.char Directive.isBlank)) .stop))

/-- An `include` line. -/
def includeDirective : Peg PathPart :=
  directive Directive.includeKeyword (.seq (.not (.char Text.isWordChar)) quotedPath)

/-- The characters that a token stands for. -/
def resolve (token : Token PathPart) : Text :=
  match token.kind with
  | .characters => token.text
  | .escape => [Directive.unescape (token.text.getD 1 '\\')]

/-- The path that the tokens stand for. -/
def resolveAll (read : List (Token PathPart) × Peg.Place) : Text :=
  read.1.flatMap resolve

section Directives

variable {κ : Type} {keyword line : Text} {e : Peg κ}

theorem parses_directive_fail
    (h : keyword.isPrefixOf? (line.dropWhile Directive.isBlank) = none) :
    (directive keyword e).Parses ⟨0, line⟩ none := by
  obtain ⟨indent, t, rfl, hindent, ht⟩ := Text.exists_run Directive.isBlank line
  rw [Text.dropWhile_run hindent ht] at h
  have hliteral := Peg.parses_literal (κ := κ) keyword t (0 + Text.byteLength indent)
  rw [h] at hliteral
  exact .seq_silent .start (.seq_silent ((Peg.reads_char _).star hindent ht 0) (.seq_fail hliteral))

theorem parses_directive {indent rest : Text} {r : Peg.Outcome κ}
    (hindent : ∀ c ∈ indent, Directive.isBlank c = true)
    (hkeyword : ∀ c ∈ (keyword ++ rest).head?, Directive.isBlank c = false)
    (he : e.Parses ⟨Text.byteLength (indent ++ keyword), rest⟩ r) :
    (directive keyword e).Parses ⟨0, indent ++ (keyword ++ rest)⟩ r := by
  have hstar := (Peg.reads_char (κ := κ) Directive.isBlank).star hindent hkeyword 0
  have hliteral := Peg.parses_literal (κ := κ) keyword (keyword ++ rest) (Text.byteLength indent)
  rw [Nat.zero_add] at hstar
  rw [List.isPrefixOf?_eq_some_iff_append_eq.mpr rfl, Option.map_some,
    ← Text.byteLength_append] at hliteral
  exact .seq_silent .start (.seq_silent hstar (.seq_silent hliteral he))

end Directives

/-! ### The path -/

theorem pathItem_unescape (c : Char) : Directive.PathItem ['\\', c] (Directive.unescape c) := by
  rw [Directive.unescape]
  split_ifs with hn ht
  · rw [hn]
    exact .lineFeed
  · rw [ht]
    exact .tab
  · exact .escaped hn ht

theorem pathItem_of_isMark {c : Char} (h : isMark c = false) : Directive.PathItem [c] c := by
  rw [isMark, Bool.or_eq_false_iff, beq_eq_false_iff_ne, beq_eq_false_iff_ne] at h
  exact .plain h.1 h.2

/-- Where the items end, no part of a path is read. -/
theorem parses_pathPart_fail {t : Text} (h : Directive.PathEnd t) (n : Nat) :
    pathPart.Parses ⟨n, t⟩ none := by
  have hplain : ∀ c ∈ t.head?, (!isMark c) = false := by
    intro c hc
    cases h with
    | nothing => cases hc
    | backslash | quote =>
      obtain rfl := Option.some.inj hc
      rfl
  refine .choice_second (.token_fail ((Peg.reads_char_not isMark).plus_fail hplain n))
    (.token_fail ?_)
  cases h with
  | nothing => exact .seq_fail .char_stop
  | backslash => exact .seq_fail_second (.char rfl) .char_stop
  | quote after => exact .seq_fail (.char_other rfl)

/-- The grammar reads the items at the front of a text, up to where the items end. -/
def ReadsItems (n : Nat) (t : Text) : Prop :=
  ∃ (ts : List (Token PathPart)) (items : List Text) (rest : Text) (m : Nat),
    (Peg.star pathPart).Parses ⟨n, t⟩ (some (ts, ⟨m, rest⟩)) ∧
    List.Forall₂ Directive.PathItem items (ts.flatMap resolve) ∧ t = items.flatten ++ rest ∧
    Directive.PathEnd rest

theorem ReadsItems.of_pathEnd {t : Text} (h : Directive.PathEnd t) (n : Nat) : ReadsItems n t :=
  ⟨[], [], t, n, .star_done (parses_pathPart_fail h n), .nil, rfl, h⟩

/-- A token in front. -/
theorem ReadsItems.cons {n m : Nat} {part rest : Text} {kind : PathPart} {items : List Text}
    (hpart : pathPart.Parses ⟨n, part ++ rest⟩ (some ([⟨kind, part, n, m⟩], ⟨m, rest⟩)))
    (hitems : List.Forall₂ Directive.PathItem items (resolve ⟨kind, part, n, m⟩))
    (hflat : items.flatten = part) (h : ReadsItems m rest) : ReadsItems n (part ++ rest) := by
  obtain ⟨ts, more, left, k, hstar, hmore, rfl, hend⟩ := h
  refine ⟨⟨kind, part, n, m⟩ :: ts, items ++ more, left, k, .star_more hpart hstar,
    List.rel_append hitems hmore, ?_, hend⟩
  rw [List.flatten_append, hflat, List.append_assoc]

theorem ReadsItems.escape {n : Nat} {c : Char} {rest : Text}
    (h : ReadsItems (n + '\\'.utf8Size + c.utf8Size) rest) :
    ReadsItems n ('\\' :: c :: rest) := by
  have hplain : ∀ d ∈ ('\\' :: c :: rest).head?, (!isMark d) = false := by
    intro d hd
    obtain rfl := Option.some.inj hd
    rfl
  have hpart : pathPart.Parses ⟨n, ['\\', c] ++ rest⟩ (some
      ([⟨.escape, ['\\', c], n, n + '\\'.utf8Size + c.utf8Size⟩],
        ⟨n + '\\'.utf8Size + c.utf8Size, rest⟩)) :=
    .choice_second (.token_fail ((Peg.reads_char_not isMark).plus_fail hplain n))
      (.token (.seq (.char rfl) (.char rfl)) rfl)
  exact .cons hpart (.cons (pathItem_unescape c) .nil) rfl h

theorem ReadsItems.characters {n : Nat} {run rest : Text} (hne : run ≠ [])
    (hrun : ∀ c ∈ run, (!isMark c) = true) (hrest : ∀ c ∈ rest.head?, (!isMark c) = false)
    (h : ReadsItems (n + Text.byteLength run) rest) : ReadsItems n (run ++ rest) := by
  have hpart : pathPart.Parses ⟨n, run ++ rest⟩ (some
      ([⟨.characters, run, n, n + Text.byteLength run⟩], ⟨n + Text.byteLength run, rest⟩)) :=
    .choice (.token ((Peg.reads_char_not isMark).plus hne hrun hrest n) rfl)
  have hitems : List.Forall₂ Directive.PathItem (run.map fun c => [c]) run := by
    rw [List.forall₂_map_left_iff, List.forall₂_same]
    exact fun c hc => pathItem_of_isMark (Bool.not_eq_true' (isMark c) ▸ hrun c hc)
  exact .cons hpart hitems (List.flatMap_def.symm.trans (List.flatMap_singleton' run)) h

/-- **The items at the front of a text are read.** The induction is on the length of the text: it
starts with plain characters, with an escape, or where the items end. -/
theorem readsItems (n : Nat) (t : Text) : ReadsItems n t := by
  induction hlength : t.length using Nat.strongRecOn generalizing n t with
  | ind k ih =>
    obtain ⟨run, rest, rfl, hrun, hrest⟩ := Text.exists_run (fun c => !isMark c) t
    by_cases hne : run = []
    · subst hne
      cases rest with
      | nil => exact .of_pathEnd .nothing n
      | cons c rest =>
        have hmark : isMark c = true := Bool.not_eq_false' (isMark c) ▸ hrest c rfl
        rw [isMark, Bool.or_eq_true, beq_iff_eq, beq_iff_eq] at hmark
        obtain rfl | rfl := hmark
        · exact .of_pathEnd (.quote rest) n
        · cases rest with
          | nil => exact .of_pathEnd .backslash n
          | cons d rest =>
            refine .escape (ih rest.length ?_ _ rest rfl)
            rw [← hlength, List.nil_append, List.length_cons, List.length_cons]
            omega
    · have hpos := List.length_pos_iff.mpr hne
      refine .characters hne hrun hrest (ih rest.length ?_ _ rest rfl)
      rw [← hlength, List.length_append]
      omega

/-! ### The line -/

/-- A word that has been read does not go on. -/
theorem parses_not_word {κ : Type} (n : Nat) (rest : Text) :
    (Peg.not (.char Text.isWordChar) : Peg κ).Parses ⟨n, rest⟩
      (if Directive.startsWithWord rest then none else some ([], ⟨n, rest⟩)) := by
  cases rest with
  | nil => exact .not .char_stop
  | cons c rest =>
    rw [show Directive.startsWithWord (c :: rest) = Text.isWordChar c from rfl]
    cases hc : Text.isWordChar c with
    | false => exact .not (.char_other hc)
    | true => exact .not_fail (.char hc)

/-- After the closing quote there are only blanks. -/
theorem parses_blanks_stop (n : Nat) (t : Text) :
    (Peg.seq (.star (.char Directive.isBlank)) .stop : Peg PathPart).Parses ⟨n, t⟩
      (if t.all Directive.isBlank then some ([], ⟨n + Text.byteLength t, []⟩) else none) := by
  obtain ⟨blanks, rest, rfl, hblanks, hrest⟩ := Text.exists_run Directive.isBlank t
  have hstar := (Peg.reads_char (κ := PathPart) Directive.isBlank).star hblanks hrest n
  cases rest with
  | nil =>
    rw [List.append_nil] at hstar ⊢
    rw [if_pos (List.all_eq_true.mpr hblanks)]
    exact .seq_silent hstar .stop
  | cons c rest =>
    rw [if_neg (by simp [hrest c rfl])]
    exact .seq_silent hstar .stop_fail

/-- What the grammar makes of a path in quotes, with blanks around it. -/
theorem parses_quotedPath (n : Nat) (t : Text) :
    ∃ outcome, quotedPath.Parses ⟨n, t⟩ outcome ∧
      outcome.map resolveAll = Directive.quotedPath? t ∧
      ∀ p ∈ Directive.quotedPath? t, Directive.Quoted t p := by
  obtain ⟨before, t, rfl, hbefore, ht⟩ := Text.exists_run Directive.isBlank t
  have hskip := (Peg.reads_char (κ := PathPart) Directive.isBlank).star hbefore ht n
  by_cases hquote : ∃ quoted, t = '"' :: quoted
  · obtain ⟨quoted, rfl⟩ := hquote
    obtain ⟨ts, items, rest, m, hstar, hitems, rfl, hend⟩ :=
      readsItems (n + Text.byteLength before + '"'.utf8Size) quoted
    have hopening : (Peg.char (· == '"') : Peg PathPart).Parses
        ⟨n + Text.byteLength before, '"' :: (items.flatten ++ rest)⟩ (some ([], ⟨_, _⟩)) :=
      .char rfl
    rw [Directive.quotedPath?_of_quote hbefore, Directive.readPath_items hitems]
    cases hend with
    | nothing =>
      exact ⟨none, .seq_silent hskip (.seq_fail (.seq_silent hopening
        (.seq_fail_second hstar .char_stop))), rfl, by simp [Directive.readPath]⟩
    | backslash =>
      exact ⟨none, .seq_silent hskip (.seq_fail (.seq_silent hopening
        (.seq_fail_second hstar (.char_other rfl)))), rfl, by simp [Directive.readPath]⟩
    | quote after =>
      have hpath : path.Parses _ (some (ts ++ [], ⟨_, after⟩)) :=
        .seq_silent hopening (.seq hstar (.char rfl))
      have hafter := parses_blanks_stop (m + '"'.utf8Size) after
      have hread : Directive.readPath ((ts.flatMap resolve).reverse ++ []) ('"' :: after) =
          some (ts.flatMap resolve, after) := by
        rw [List.append_nil, Directive.readPath, List.reverse_reverse]
      rw [hread, Option.bind_some]
      cases hall : after.all Directive.isBlank with
      | false =>
        rw [hall] at hafter
        exact ⟨none, .seq_silent hskip (.seq_fail_second hpath hafter), rfl, by simp⟩
      | true =>
        rw [hall] at hafter
        refine ⟨_, .seq_silent hskip (.seq hpath hafter), ?_, ?_⟩
        · simp [resolveAll]
        · intro p hp
          obtain rfl := Option.some.inj hp
          exact ⟨before, after, items, Directive.blanks_iff.mpr hbefore,
            Directive.blanks_iff.mpr (List.all_eq_true.mp hall), hitems, rfl⟩
  · have hother : ∀ c ∈ t.head?, c ≠ '"' := by
      rintro c hc rfl
      exact hquote (List.head?_eq_some_iff.mp hc)
    rw [Directive.quotedPath?_of_other hbefore ht hother]
    have hfail : (Peg.char (· == '"') : Peg PathPart).Parses
        ⟨n + Text.byteLength before, t⟩ none :=
      (Peg.reads_char _).fail (fun c hc => beq_eq_false_iff_ne.mpr (hother c hc)) _
    exact ⟨none, .seq_silent hskip (.seq_fail (.seq_fail hfail)), rfl, by simp⟩

/-- **What the grammar makes of a line.** It reads the path that the line has, and fails if the line
has none; and a line that has a path has the form of an `include` line. -/
theorem parses_includeDirective (line : Text) :
    ∃ outcome, includeDirective.Parses ⟨0, line⟩ outcome ∧
      outcome.map resolveAll = Directive.includePath? line ∧
      ∀ p ∈ Directive.includePath? line, Directive.Includes line p := by
  rw [Directive.includePath?_eq_bind]
  cases Directive.lineStart Directive.includeKeyword line with
  | missing hprefix =>
    rw [Directive.afterKeyword?_of_isPrefixOf? hprefix]
    exact ⟨none, parses_directive_fail hprefix, rfl, by simp⟩
  | @found indent rest hindent hkeyword =>
    have hword := parses_not_word (κ := PathPart)
      (Text.byteLength (indent ++ Directive.includeKeyword)) rest
    rw [Directive.afterKeyword?_append hindent hkeyword]
    cases hgoes : Directive.startsWithWord rest with
    | true =>
      rw [hgoes] at hword
      exact ⟨none, parses_directive hindent hkeyword (.seq_fail hword), rfl, by simp⟩
    | false =>
      rw [hgoes] at hword
      obtain ⟨outcome, hparses, hvalue, hform⟩ := parses_quotedPath
        (Text.byteLength (indent ++ Directive.includeKeyword)) rest
      refine ⟨outcome, parses_directive hindent hkeyword (.seq_silent hword hparses), hvalue, ?_⟩
      intro p hp
      exact ⟨indent, rest, Directive.blanks_iff.mpr hindent, hform p hp, rfl⟩

end Grammar

/-! ### The path of a line -/

/-- **The lines that have a path** are those of the form of an `include` line. -/
theorem Directive.includePath?_eq_some_iff {line path : Text} :
    includePath? line = some path ↔ Includes line path := by
  constructor
  · intro h
    obtain ⟨-, -, -, hform⟩ := Grammar.parses_includeDirective line
    exact hform path h
  · rintro ⟨indent, quoted, hindent, hquoted, rfl⟩
    rw [includePath?_eq_bind, afterKeyword?_append (blanks_iff.mp hindent)
      (isBlank_of_isIdentifier (by decide) quoted), startsWithWord_of_quoted hquoted]
    exact quotedPath?_of_quoted hquoted

/-- A path with its marks escaped is one item for each of its characters. -/
theorem Directive.pathItems_escapeMarks (path : Text) :
    ∃ items, List.Forall₂ PathItem items path ∧ items.flatten = escapeMarks path := by
  refine ⟨path.map fun c => if c = '"' ∨ c = '\\' then ['\\', c] else [c], ?_,
    List.flatMap_def.symm⟩
  rw [List.forall₂_map_left_iff, List.forall₂_same]
  intro c _
  split_ifs with hmark
  · rcases hmark with rfl | rfl <;> exact .escaped (by decide) (by decide)
  · rw [not_or] at hmark
    exact .plain hmark.1 hmark.2

/-- **`include` lines name their path.** A line has a path exactly if it is made of blanks, the
keyword, blanks, items in quotes and blanks, and the path is what the items stand for. The grammar
of such lines reads each line that has a path, its tokens stand for the path, and it fails on every
other line. Every path can be written, with a backslash before each quote and each backslash. -/
theorem include_lines_name_their_path (line path : Text) :
    (Directive.includePath? line = some path ↔ Directive.Includes line path) ∧
      (∃ outcome, (∀ r, Grammar.includeDirective.Parses ⟨0, line⟩ r ↔ r = outcome) ∧
        outcome.map Grammar.resolveAll = Directive.includePath? line) ∧
      Directive.includePath? ("include \"".toList ++ Directive.escapeMarks path ++ ['"']) =
        some path := by
  refine ⟨Directive.includePath?_eq_some_iff, ?_, ?_⟩
  · obtain ⟨outcome, hparses, hvalue, -⟩ := Grammar.parses_includeDirective line
    exact ⟨outcome, fun r => ⟨fun hr => hr.unique hparses, fun hr => hr ▸ hparses⟩, hvalue⟩
  · obtain ⟨items, hitems, hflat⟩ := Directive.pathItems_escapeMarks path
    have hblanks : Directive.Blanks [] := by simp [Directive.Blanks]
    have hspace : Directive.Blanks [' '] := by simp [Directive.Blanks]
    exact Directive.includePath?_eq_some_iff.mpr ⟨[], _, hblanks,
      ⟨[' '], [], items, hspace, hblanks, hitems, rfl⟩, by rw [hflat]; rfl⟩

/-- An escaped quote does not end the path. -/
example : Directive.includePath? "include \"a\\\"b\\\\\" ".toList = some "a\"b\\".toList := by
  decide +kernel

end TextExpander
