import TextExpander.Proofs.Bodies
import TextExpander.Proofs.Peg

/-!
# The maximal words of a text

A text is cut into words and what stands between them, and no cut goes through a word. There is
one such cut: a piece goes on for as long as its characters are of one class, so each piece is
settled by what is left of the text (`Runs.unique`).

The lexical grammar finds this cut, for every class of word characters that has the ASCII letters,
the digits and the underscore in it. The rule for identifiers is tried first and may read a part of
a word only; then a word character follows, the rule fails, and the rule for words reads all of it.

## Main definitions

* `Text.IsName`: the form of an identifier.
* `MaximalWords`: the cut of a text into words and what stands between them.
* `Grammar.text`, `Grammar.loneIdentifier`: the lexical grammar.
* `Lexeme.tokens`: the lexemes of a text as tokens.

## Main results

* `maximalWords_iff_runs`: the pieces are the runs of the text.
* `Grammar.parses_lexeme`: the grammar reads one run.
* `Grammar.parses_runs`: it reads all of them.
* `lexemes_are_the_maximal_words`: what the grammar and the lexemes give.
-/

namespace TextExpander

/-! ### Names -/

namespace Text

/-- A letter from `A` to `Z` or from `a` to `z`, or an underscore. -/
def NameStart (c : Char) : Prop :=
  ('A' ≤ c ∧ c ≤ 'Z') ∨ ('a' ≤ c ∧ c ≤ 'z') ∨ c = '_'

/-- The same, or a digit from `0` to `9`. -/
def NameChar (c : Char) : Prop :=
  NameStart c ∨ ('0' ≤ c ∧ c ≤ '9')

/-- A letter or underscore, and then letters, digits and underscores. -/
def IsName (t : Text) : Prop :=
  ∃ c rest, t = c :: rest ∧ NameStart c ∧ ∀ d ∈ rest, NameChar d

theorem isIdentifierStart_iff {c : Char} : isIdentifierStart c = true ↔ NameStart c := by
  rw [isIdentifierStart, Bool.or_eq_true, isAlpha_iff, beq_iff_eq, or_assoc, NameStart]

theorem isAsciiWord_iff {c : Char} : isAsciiWord c = true ↔ NameChar c := by
  rw [NameChar, ← isIdentifierStart_iff, ← isDigit_iff, isAsciiWord, isIdentifierStart,
    Char.isAlphanum, Bool.or_right_comm, Bool.or_eq_true (c.isAlpha || c == '_')]

theorem isIdentifier_iff {t : Text} : isIdentifier t = true ↔ IsName t := by
  cases t with
  | nil => simp [isIdentifier, IsName]
  | cons c rest =>
    rw [isIdentifier, Bool.and_eq_true, List.all_eq_true, isIdentifierStart_iff]
    constructor
    · rintro ⟨hc, hrest⟩
      exact ⟨c, rest, rfl, hc, fun d hd => isAsciiWord_iff.mp (hrest d hd)⟩
    · rintro ⟨_, _, heq, hc, hrest⟩
      obtain ⟨rfl, rfl⟩ := List.cons.inj heq
      exact ⟨hc, fun d hd => isAsciiWord_iff.mpr (hrest d hd)⟩

end Text

open Peg (Token)

/-! ### The cut of a text -/

/-- The tokens are the words of a text that starts at `start`, and what stands between them. -/
structure MaximalWords (word : Char → Bool) (start : Nat) (t : Text)
    (ts : List (Token LexemeKind)) : Prop where
  /-- The pieces make up the text. -/
  concat : ts.flatMap Token.text = t
  /-- No piece is empty. -/
  nonempty : ∀ a ∈ ts, a.text ≠ []
  /-- The first piece starts where the text does. -/
  starts : ∀ a ∈ ts.head?, a.start = start
  /-- Each piece starts where the one before it ends. -/
  contiguous : ts.IsChain fun a b => a.stop = b.start
  /-- The last piece ends where the text does. -/
  stops : ∀ a ∈ ts.getLast?, a.stop = start + Text.byteLength t
  /-- A piece is as long as its text. -/
  length : ∀ a ∈ ts, a.stop = a.start + Text.byteLength a.text
  /-- What stands between words has no word character. -/
  others : ∀ a ∈ ts, a.kind = .other → ∀ c ∈ a.text, word c = false
  /-- Words have no other characters. -/
  words : ∀ a ∈ ts, a.kind ≠ .other → ∀ c ∈ a.text, word c = true
  /-- Of two neighbours one is a word and one is not. -/
  alternate : ts.IsChain fun a b => a.kind = .other ↔ b.kind ≠ .other
  /-- The identifiers are the words that have the form of one. -/
  identifiers : ∀ a ∈ ts, a.kind ≠ .other → (a.kind = .identifier ↔ Text.IsName a.text)

/-- The kind of a run, of word characters or of others. -/
def runKind (isWord : Bool) (run : Text) : LexemeKind :=
  if isWord then if Text.isIdentifier run then .identifier else .word else .other

theorem runKind_eq_other_iff {b : Bool} {run : Text} : runKind b run = .other ↔ b = false := by
  cases b <;> cases h : Text.isIdentifier run <;> simp [runKind, h]

/-- The tokens are the runs of a text that starts at `start`. -/
inductive Runs (word : Char → Bool) : Nat → Text → List (Token LexemeKind) → Prop
  /-- Nothing is left. -/
  | nil {start : Nat} : Runs word start [] []
  /-- A run that does not go on, and what comes next. -/
  | run {start : Nat} {b : Bool} {run rest : Text} {ts : List (Token LexemeKind)} : run ≠ [] →
      (∀ c ∈ run, word c = b) → (∀ c ∈ rest.head?, word c = !b) →
      Runs word (start + Text.byteLength run) rest ts →
      Runs word start (run ++ rest)
        (⟨runKind b run, run, start, start + Text.byteLength run⟩ :: ts)

section Cut

variable {word : Char → Bool} {start : Nat} {t : Text} {ts us : List (Token LexemeKind)}

/-- A run that does not go on is read off the text. -/
theorem takeWhile_run {b : Bool} {run rest : Text} (hrun : ∀ c ∈ run, word c = b)
    (hrest : ∀ c ∈ rest.head?, word c = !b) :
    (run ++ rest).takeWhile (fun c => word c == b) = run := by
  refine Text.takeWhile_run (fun c hc => beq_iff_eq.mpr (hrun c hc)) fun c hc => ?_
  rw [hrest c hc]
  cases b <;> rfl

/-- **There is one way to cut a text into runs.** -/
theorem Runs.unique (hts : Runs word start t ts) (hus : Runs word start t us) : ts = us := by
  induction hts generalizing us with
  | nil =>
    generalize hnil : ([] : Text) = t at hus
    cases hus with
    | nil => rfl
    | run hne => exact absurd (List.append_eq_nil_iff.mp hnil.symm).1 hne
  | @run start b run rest ts hne hrun hrest _ ih =>
    generalize ht : run ++ rest = t at hus
    cases hus with
    | nil => exact absurd (List.append_eq_nil_iff.mp ht).1 hne
    | @run _ b' run' rest' us hne' hrun' hrest' hus =>
      -- The two runs have the same first character, so they are of the same class.
      have hb : b = b' := by
        obtain ⟨c, run, rfl⟩ := List.exists_cons_of_ne_nil hne
        obtain ⟨c', run', rfl⟩ := List.exists_cons_of_ne_nil hne'
        obtain ⟨rfl, -⟩ := List.cons.inj ht
        exact (hrun c List.mem_cons_self).symm.trans (hrun' c List.mem_cons_self)
      subst hb
      have heq : run = run' := by
        rw [← takeWhile_run hrun hrest, ht, takeWhile_run hrun' hrest']
      subst heq
      obtain rfl := List.append_cancel_left ht
      rw [ih hus]

/-! A cut into maximal words, read from its front. -/

theorem MaximalWords.word_eq {a : Token LexemeKind} (h : MaximalWords word start t ts)
    (ha : a ∈ ts) : ∀ c ∈ a.text, word c = decide (a.kind ≠ .other) := by
  intro c hc
  by_cases hkind : a.kind = .other
  · simp [hkind, h.others a ha hkind c hc]
  · simp [hkind, h.words a ha hkind c hc]

/-- The first character tells the kind of the first piece. -/
theorem MaximalWords.exists_first {a : Token LexemeKind} (h : MaximalWords word start t (a :: ts)) :
    ∃ c rest, t = c :: rest ∧ (word c = true ↔ a.kind ≠ .other) := by
  obtain ⟨c, rest, htext⟩ := List.exists_cons_of_ne_nil (h.nonempty a List.mem_cons_self)
  refine ⟨c, rest ++ ts.flatMap Token.text, ?_, ?_⟩
  · rw [← h.concat, List.flatMap_cons, htext, List.cons_append]
  · rw [h.word_eq List.mem_cons_self c (htext ▸ List.mem_cons_self), decide_eq_true_iff]

theorem MaximalWords.tail {a : Token LexemeKind} (h : MaximalWords word start t (a :: ts)) :
    MaximalWords word (start + Text.byteLength a.text) (ts.flatMap Token.text) ts := by
  have hstop : a.stop = start + Text.byteLength a.text := by
    rw [h.length a List.mem_cons_self, h.starts a rfl]
  refine ⟨rfl, fun b hb => h.nonempty b (List.mem_cons_of_mem a hb), fun b hb => ?_,
    h.contiguous.tail, fun b hb => ?_, fun b hb => h.length b (List.mem_cons_of_mem a hb),
    fun b hb => h.others b (List.mem_cons_of_mem a hb),
    fun b hb => h.words b (List.mem_cons_of_mem a hb), h.alternate.tail,
    fun b hb => h.identifiers b (List.mem_cons_of_mem a hb)⟩
  · rw [← hstop]
    exact ((List.isChain_cons.mp h.contiguous).1 b hb).symm
  · have hlast : b ∈ (a :: ts).getLast? := by
      cases ts with
      | nil => cases hb
      | cons a' ts => rwa [List.getLast?_cons_cons]
    rw [h.stops b hlast, ← h.concat, List.flatMap_cons, Text.byteLength_append, Nat.add_assoc]

theorem MaximalWords.runs (h : MaximalWords word start t ts) : Runs word start t ts := by
  induction ts generalizing start t with
  | nil =>
    obtain rfl : [] = t := h.concat
    exact .nil
  | cons a ts ih =>
    have hrest : ∀ c ∈ (ts.flatMap Token.text).head?, word c = !decide (a.kind ≠ .other) := by
      intro c hc
      cases ts with
      | nil => cases hc
      | cons b ts =>
        obtain ⟨d, rest, htext, hd⟩ := h.tail.exists_first
        obtain rfl : d = c := by simpa [htext] using hc
        have hkinds := (List.isChain_cons.mp h.alternate).1 b rfl
        rw [Bool.eq_iff_iff, hd, ← hkinds]
        simp
    have hnext := Runs.run (h.nonempty a List.mem_cons_self) (h.word_eq List.mem_cons_self) hrest
      (ih h.tail)
    have hkind : runKind (decide (a.kind ≠ .other)) a.text = a.kind := by
      have hname := h.identifiers a List.mem_cons_self
      rw [← Text.isIdentifier_iff] at hname
      cases hk : a.kind <;> simp_all [runKind]
    have htoken : (⟨runKind (decide (a.kind ≠ .other)) a.text, a.text, start,
        start + Text.byteLength a.text⟩ : Token LexemeKind) = a := by
      rw [hkind, ← h.starts a rfl, ← h.length a List.mem_cons_self]
    have htext : a.text ++ ts.flatMap Token.text = t := h.concat
    rwa [htoken, htext] at hnext

theorem Runs.maximalWords (h : Runs word start t ts) : MaximalWords word start t ts := by
  induction h with
  | nil => constructor <;> simp
  | @run start b run rest ts hne hrun hrest _ ih =>
    have hword : runKind b run ≠ .other → b = true := fun hkind => by
      rw [← Bool.not_eq_false]
      exact fun hb => hkind (runKind_eq_other_iff.mpr hb)
    exact {
      concat := by rw [List.flatMap_cons, ih.concat]
      nonempty := List.forall_mem_cons.mpr ⟨hne, ih.nonempty⟩
      starts := by simp
      contiguous := List.isChain_cons.mpr ⟨fun a ha => (ih.starts a ha).symm, ih.contiguous⟩
      stops := by
        intro a ha
        cases ts with
        | nil =>
          obtain rfl := by simpa using ha
          obtain rfl : [] = rest := ih.concat
          rw [List.append_nil]
        | cons a' ts =>
          rw [List.getLast?_cons_cons] at ha
          rw [ih.stops a ha, Text.byteLength_append, Nat.add_assoc]
      length := List.forall_mem_cons.mpr ⟨rfl, ih.length⟩
      others := by
        refine List.forall_mem_cons.mpr ⟨fun hkind c hc => ?_, ih.others⟩
        rw [hrun c hc]
        exact runKind_eq_other_iff.mp hkind
      words := by
        refine List.forall_mem_cons.mpr ⟨fun hkind c hc => ?_, ih.words⟩
        rw [hrun c hc]
        exact hword hkind
      alternate := by
        refine List.isChain_cons.mpr ⟨fun a ha => ?_, ih.alternate⟩
        cases ts with
        | nil => cases ha
        | cons a' ts =>
          obtain rfl : a' = a := by simpa using ha
          obtain ⟨c, later, rfl, hc⟩ := ih.exists_first
          rw [runKind_eq_other_iff, ← hc, hrest c rfl]
          simp
      identifiers := by
        refine List.forall_mem_cons.mpr ⟨fun hkind => ?_, ih.identifiers⟩
        rw [← Text.isIdentifier_iff]
        cases hid : Text.isIdentifier run <;> simp [runKind, hword hkind, hid] }

/-- **The pieces are the runs.** -/
theorem maximalWords_iff_runs : MaximalWords word start t ts ↔ Runs word start t ts :=
  ⟨MaximalWords.runs, Runs.maximalWords⟩

end Cut

/-! ### The lexical grammar -/

namespace Grammar

/-- A token of a word that has the form of a name: it does not go on. -/
def name {κ : Type} (kind : κ) (word : Char → Bool) : Peg κ :=
  .token kind
    (.seq (.char Text.isIdentifierStart)
      (.seq (.star (.char Text.isAsciiWord)) (.not (.char word))))

/-- A word that is an identifier. -/
def identifier (word : Char → Bool) : Peg LexemeKind :=
  name .identifier word

/-- A word. -/
def wordRun (word : Char → Bool) : Peg LexemeKind :=
  .token .word (.plus (.char word))

/-- What stands between words. -/
def other (word : Char → Bool) : Peg LexemeKind :=
  .token .other (.plus (.seq (.not (.char word)) (.char fun _ => true)))

/-- An identifier, else a word, else what stands between words. -/
def lexeme (word : Char → Bool) : Peg LexemeKind :=
  .choice (.choice (identifier word) (wordRun word)) (other word)

/-- A text from end to end. -/
def text (word : Char → Bool) : Peg LexemeKind :=
  .seq .start (.seq (.star (lexeme word)) .stop)

/-- An identifier and nothing else. -/
def loneIdentifier (word : Char → Bool) : Peg LexemeKind :=
  .seq .start (.seq (identifier word) .stop)

theorem parses_lexeme_stop (word : Char → Bool) (n : Nat) :
    (lexeme word).Parses ⟨n, []⟩ none :=
  .choice_second
    (.choice_second (.token_fail (.seq_fail .char_stop)) (.token_fail (.seq_fail .char_stop)))
    (.token_fail (.seq_fail ((Peg.reads_char_not word).stop n)))

section Reading

variable {κ : Type} {word : Char → Bool} {run rest : Text} {b : Bool}
  (hword : ∀ c, Text.isAsciiWord c = true → word c = true)

include hword

/-- A name that is a whole word is read. -/
theorem parses_name (kind : κ) (hname : Text.isIdentifier run = true)
    (hrest : ∀ c ∈ rest.head?, word c = false) (n : Nat) :
    (name kind word).Parses ⟨n, run ++ rest⟩ (some
      ([⟨kind, run, n, n + Text.byteLength run⟩], ⟨n + Text.byteLength run, rest⟩)) := by
  cases run with
  | nil => cases hname
  | cons c run =>
    rw [Text.isIdentifier, Bool.and_eq_true, List.all_eq_true] at hname
    have hascii : ∀ d ∈ rest.head?, Text.isAsciiWord d = false := by
      intro d hd
      rw [← Bool.not_eq_true]
      intro hascii
      exact absurd ((hword d hascii).symm.trans (hrest d hd)) (by decide)
    have hstar : (Peg.star (.char Text.isAsciiWord) : Peg κ).Parses
        ⟨n + c.utf8Size, run ++ rest⟩ (some ([], ⟨n + c.utf8Size + Text.byteLength run, rest⟩)) :=
      (Peg.reads_char Text.isAsciiWord).star hname.2 hascii (n + c.utf8Size)
    rw [Text.byteLength_cons, ← Nat.add_assoc]
    exact .token (.seq (.char hname.1) (.seq hstar (.not ((Peg.reads_char word).fail hrest _)))) rfl

/-- A run that is no name is not. It may start as one, but then it is a word, and goes on with
another word character. -/
theorem parses_name_fail (kind : κ) (hname : Text.isIdentifier run = false) (hne : run ≠ [])
    (hrun : ∀ c ∈ run, word c = b) (n : Nat) :
    (name kind word).Parses ⟨n, run ++ rest⟩ none := by
  obtain ⟨c, run, rfl⟩ := List.exists_cons_of_ne_nil hne
  cases hc : Text.isIdentifierStart c with
  | false => exact .token_fail (.seq_fail (.char_other hc))
  | true =>
    have hascii : Text.isAsciiWord c = true :=
      Text.isAsciiWord_iff.mpr (.inl (Text.isIdentifierStart_iff.mp hc))
    obtain rfl : b = true := (hrun c List.mem_cons_self).symm.trans (hword c hascii)
    rw [Text.isIdentifier, hc, Bool.true_and] at hname
    obtain ⟨front, d, later, rfl, hfront, hd⟩ : ∃ front d later, run = front ++ d :: later ∧
        (∀ a ∈ front, Text.isAsciiWord a = true) ∧ Text.isAsciiWord d = false := by
      obtain ⟨a, ha, hother⟩ := List.all_eq_false.mp hname
      have hsome : (run.find? fun a => !Text.isAsciiWord a).isSome = true := by
        rw [List.find?_isSome]
        exact ⟨a, ha, by simpa using hother⟩
      obtain ⟨d, hfind⟩ := Option.isSome_iff_exists.mp hsome
      obtain ⟨hd, front, later, hrun, hfront⟩ := List.find?_eq_some_iff_append.mp hfind
      exact ⟨front, d, later, hrun, by simpa using hfront, by simpa using hd⟩
    have hstop : ∀ a ∈ (d :: (later ++ rest)).head?, Text.isAsciiWord a = false := by
      intro a ha
      obtain rfl : d = a := Option.some.inj ha
      exact hd
    have hstar := (Peg.reads_char (κ := κ) Text.isAsciiWord).star hfront hstop
      (n + c.utf8Size)
    have hother : word d = true := hrun d (by simp)
    rw [List.cons_append, List.append_assoc, List.cons_append]
    exact .token_fail (.seq_fail_second (.char hc)
      (.seq_fail_second hstar (.not_fail (.char hother))))

/-- **One run is read.** -/
theorem parses_lexeme (hne : run ≠ []) (hrun : ∀ c ∈ run, word c = b)
    (hrest : ∀ c ∈ rest.head?, word c = !b) (n : Nat) :
    (lexeme word).Parses ⟨n, run ++ rest⟩ (some
      ([⟨runKind b run, run, n, n + Text.byteLength run⟩], ⟨n + Text.byteLength run, rest⟩)) := by
  cases hname : Text.isIdentifier run with
  | true =>
    obtain rfl : b = true := Lexeme.eq_true_of_isIdentifier hword hname hrun
    rw [runKind, if_pos rfl, if_pos hname]
    exact .choice (.choice (parses_name hword _ hname hrest n))
  | false =>
    have hfail : (identifier word).Parses ⟨n, run ++ rest⟩ none :=
      parses_name_fail hword _ hname hne hrun n
    cases b with
    | true =>
      rw [runKind, if_pos rfl, hname]
      exact .choice (.choice_second hfail
        (.token ((Peg.reads_char word).plus hne hrun hrest n) rfl))
    | false =>
      have hother : (wordRun word).Parses ⟨n, run ++ rest⟩ none := by
        obtain ⟨c, run, rfl⟩ := List.exists_cons_of_ne_nil hne
        exact .token_fail (.seq_fail (.char_other (hrun c List.mem_cons_self)))
      have hplus := (Peg.reads_char_not (κ := LexemeKind) word).plus hne
        (fun c hc => by rw [hrun c hc, Bool.not_false])
        (fun c hc => by rw [hrest c hc, Bool.not_not]) n
      exact .choice_second (.choice_second hfail hother) (.token hplus rfl)

/-- **The grammar reads the runs of a text**, one after the other. -/
theorem parses_runs {n : Nat} {t : Text} {ts : List (Token LexemeKind)}
    (h : Runs word n t ts) :
    (Peg.star (lexeme word)).Parses ⟨n, t⟩ (some (ts, ⟨n + Text.byteLength t, []⟩)) := by
  induction h with
  | nil => exact .star_done (parses_lexeme_stop word _)
  | @run start b run rest ts hne hrun hrest _ ih =>
    rw [Text.byteLength_append, ← Nat.add_assoc]
    exact .star_more (parses_lexeme hword hne hrun hrest start) ih

theorem parses_text {t : Text} {ts : List (Token LexemeKind)} (h : Runs word 0 t ts) :
    (text word).Parses ⟨0, t⟩ (some (ts, ⟨Text.byteLength t, []⟩)) := by
  have hruns := parses_runs hword h
  rw [Nat.zero_add] at hruns
  have hstop := Peg.Parses.seq hruns .stop
  rw [List.append_nil] at hstop
  exact .seq .start hstop

/-- A text that is no identifier has none at its front, or goes on after it. -/
theorem parses_loneIdentifier_fail {t : Text} (hname : Text.isIdentifier t = false) :
    (loneIdentifier word).Parses ⟨0, t⟩ none := by
  refine .seq_fail_second .start ?_
  cases t with
  | nil => exact .seq_fail (.token_fail (.seq_fail .char_stop))
  | cons c t =>
    obtain ⟨run, rest, ht, hne, hrun, hrest⟩ := Lexeme.exists_run word c t
    rw [ht]
    cases hrunname : Text.isIdentifier run with
    | false => exact .seq_fail (parses_name_fail hword _ hrunname hne hrun 0)
    | true =>
      obtain ⟨d, later, rfl⟩ : ∃ d later, rest = d :: later := by
        refine List.exists_cons_of_ne_nil fun hnil => ?_
        rw [ht, hnil, List.append_nil, hrunname] at hname
        cases hname
      rw [Lexeme.eq_true_of_isIdentifier hword hrunname hrun] at hrest
      exact .seq_fail_second (parses_name hword _ hrunname hrest 0) .stop_fail

/-- A text is an identifier exactly if the grammar finds one and nothing else. -/
theorem accepts_loneIdentifier_iff {t : Text} :
    (loneIdentifier word).Accepts t ↔ Text.isIdentifier t = true := by
  constructor
  · rintro ⟨r, hr⟩
    rw [← Bool.not_eq_false]
    intro hname
    cases hr.unique (parses_loneIdentifier_fail hword hname)
  · intro hname
    have hnothing : ∀ c ∈ ([] : Text).head?, word c = false := by simp
    have hread := parses_name hword LexemeKind.identifier hname hnothing 0
    rw [List.append_nil] at hread
    exact ⟨_, .seq .start (.seq hread .stop)⟩

end Reading

end Grammar

/-! ### Lexemes -/

/-- A text can be cut into runs. -/
theorem exists_runs (word : Char → Bool) (start : Nat) (t : Text) : ∃ ts, Runs word start t ts := by
  induction t using Lexeme.run_induction word generalizing start with
  | nil => exact ⟨[], .nil⟩
  | run b run rest hne hrun hrest ih =>
    obtain ⟨ts, hts⟩ := ih (start + Text.byteLength run)
    exact ⟨_, .run hne hrun hrest hts⟩

namespace Lexeme

/-- A lexeme with its offsets, as a token. -/
def token (l : Lexeme Char × Nat × Nat) : Token LexemeKind :=
  ⟨l.1.kind, l.1.symbols, l.2.1, l.2.2⟩

/-- The lexemes of a text, as tokens. -/
def tokens (t : Text) : List (Token LexemeKind) :=
  (locate t).map token

theorem kindOf_eq_runKind {b : Bool} {run : Text} (hne : run ≠ [])
    (hrun : ∀ c ∈ run, Text.isWordChar c = b) : kindOf run = runKind b run := by
  rw [kindOf, Symbol.chars_text]
  cases hname : Text.isIdentifier run with
  | true =>
    obtain rfl := eq_true_of_isIdentifier (fun c => Text.isWordChar_of_isAsciiWord) hname hrun
    rw [runKind, hname]
    rfl
  | false =>
    have hany : run.any Symbol.isWord = b := by
      obtain ⟨c, hc⟩ := List.exists_mem_of_ne_nil run hne
      cases b with
      | true => exact List.any_eq_true.mpr ⟨c, hc, hrun c hc⟩
      | false => exact List.any_eq_false.mpr fun d hd => Bool.eq_false_iff.mp (hrun d hd)
    rw [hany, runKind, hname]
    rfl

/-- The lexemes are the runs. -/
theorem runs_locateFrom (start : Nat) (t : Text) :
    Runs Text.isWordChar start t ((locateFrom start (split t)).map token) := by
  induction t using run_induction Text.isWordChar generalizing start with
  | nil => exact .nil
  | run b run rest hne hrun hrest ih =>
    have hnext := Runs.run hne hrun hrest (ih (start + Text.byteLength run))
    rw [← kindOf_eq_runKind hne hrun] at hnext
    rw [split_append hne hrun hrest, locateFrom, List.map_cons, Symbol.byteLength_text]
    exact hnext

theorem runs_tokens (t : Text) : Runs Text.isWordChar 0 t (tokens t) :=
  runs_locateFrom 0 t

end Lexeme

/-- A text is an identifier exactly if it is cut into one piece, of that kind. -/
theorem Runs.eq_singleton_iff {word : Char → Bool}
    (hword : ∀ c, Text.isAsciiWord c = true → word c = true) {start : Nat} {t : Text}
    {ts : List (Token LexemeKind)} (h : Runs word start t ts) :
    ts = [⟨.identifier, t, start, start + Text.byteLength t⟩] ↔ Text.isIdentifier t = true := by
  constructor
  · rintro rfl
    have hname := h.maximalWords.identifiers _ List.mem_cons_self LexemeKind.noConfusion
    exact Text.isIdentifier_iff.mpr (hname.mp rfl)
  · intro hname
    have hwords : ∀ c ∈ t, word c = true := fun c hc =>
      hword c (Text.isAsciiWord_of_isIdentifier hname c hc)
    have hne : t ≠ [] := fun hnil => by simp [hnil, Text.isIdentifier] at hname
    have hrest : Runs word (start + Text.byteLength t) [] [] := .nil
    have hone := Runs.run hne hwords (by simp) hrest
    rw [List.append_nil, runKind, if_pos rfl, if_pos hname] at hone
    exact h.unique hone

/-- **The lexemes are the maximal words**, and what stands between them. For every class of word
characters that has the ASCII letters, the digits and the underscore in it, the lexical grammar
reads a text to its end, gives the one cut of the text into words and what stands between them, and
takes the text for an identifier exactly if the cut has one piece, of that kind. The lexemes of the
library are what the grammar gives for its own class of word characters. -/
theorem lexemes_are_the_maximal_words (word : Char → Bool)
    (hword : ∀ c, Text.NameChar c → word c = true) (t : Text) :
    (∃ ts, (∀ outcome, (Grammar.text word).Parses ⟨0, t⟩ outcome ↔
          outcome = some (ts, ⟨Text.byteLength t, []⟩)) ∧
        (∀ us, MaximalWords word 0 t us ↔ us = ts) ∧
        ((Grammar.loneIdentifier word).Accepts t ↔
          ts = [⟨.identifier, t, 0, Text.byteLength t⟩])) ∧
      (Grammar.text Text.isWordChar).Parses ⟨0, t⟩
        (some (Lexeme.tokens t, ⟨Text.byteLength t, []⟩)) ∧
      MaximalWords Text.isWordChar 0 t (Lexeme.tokens t) ∧
      (Text.isIdentifier t = true ↔
        Lexeme.tokens t = [⟨.identifier, t, 0, Text.byteLength t⟩]) := by
  have hascii : ∀ c, Text.isAsciiWord c = true → word c = true := fun c hc =>
    hword c (Text.isAsciiWord_iff.mp hc)
  have hlibrary : ∀ c, Text.isAsciiWord c = true → Text.isWordChar c = true :=
    fun c => Text.isWordChar_of_isAsciiWord
  refine ⟨?_, Grammar.parses_text hlibrary (Lexeme.runs_tokens t),
    (Lexeme.runs_tokens t).maximalWords, ?_⟩
  · obtain ⟨ts, hts⟩ := exists_runs word 0 t
    have hparses := Grammar.parses_text hascii hts
    refine ⟨ts, fun outcome => ⟨fun h => h.unique hparses, fun h => h ▸ hparses⟩,
      fun us => maximalWords_iff_runs.trans ⟨fun h => h.unique hts, fun h => h ▸ hts⟩, ?_⟩
    have hone := hts.eq_singleton_iff hascii
    rw [Nat.zero_add] at hone
    rw [Grammar.accepts_loneIdentifier_iff hascii, hone]
  · have hone := (Lexeme.runs_tokens t).eq_singleton_iff hlibrary
    rw [Nat.zero_add] at hone
    exact hone.symm

/-- A word that starts as an identifier and goes on in another script, a number with a letter, and
an identifier. -/
theorem lexemes_of_a_word_a_number_and_an_identifier :
    let t : Text := "fooé(1a,_b2".toList
    (∀ c, Text.NameChar c → Text.isWordChar c = true) ∧
      (Grammar.text Text.isWordChar).Parses ⟨0, t⟩ (some
        ([⟨.word, "fooé".toList, 0, 5⟩, ⟨.other, ['('], 5, 6⟩, ⟨.word, ['1', 'a'], 6, 8⟩,
          ⟨.other, [','], 8, 9⟩, ⟨.identifier, ['_', 'b', '2'], 9, 12⟩], ⟨12, []⟩)) ∧
      ¬ (Grammar.loneIdentifier Text.isWordChar).Accepts t := by
  intro t
  have hword : ∀ c, Text.NameChar c → Text.isWordChar c = true := fun c hc =>
    Text.isWordChar_of_isAsciiWord (Text.isAsciiWord_iff.mpr hc)
  have htokens : Lexeme.tokens t =
      [⟨.word, "fooé".toList, 0, 5⟩, ⟨.other, ['('], 5, 6⟩, ⟨.word, ['1', 'a'], 6, 8⟩,
        ⟨.other, [','], 8, 9⟩, ⟨.identifier, ['_', 'b', '2'], 9, 12⟩] := by
    decide +kernel
  obtain ⟨⟨ts, -, hcut, hlone⟩, hparses, hmaximal, -⟩ :=
    lexemes_are_the_maximal_words Text.isWordChar hword t
  refine ⟨hword, htokens ▸ hparses, ?_⟩
  rw [hlone, ← (hcut _).mp hmaximal, htokens]
  decide

end TextExpander
