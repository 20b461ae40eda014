import Mathlib.Data.List.SplitBy
import Mathlib.Data.List.TakeWhile
import TextExpander.Proofs.Cuts
import TextExpander.Proofs.OpenCall

/-!
# Candidates

The candidates of a text are found by cutting it into its lexemes and looking at what follows each
identifier. The outline of a text is found by going through it symbol by symbol. To compare the two
the candidates are collected symbol by symbol as well. Then the first candidate is the call that
`Outline.findCall` finds, and the candidates after the closing parenthesis of a call are those of
the text that follows, since no word goes on across a parenthesis.

## Main definitions

* `Offsets.candidatesFrom`: the candidates, collected symbol by symbol.

## Main results

* `Lexeme.run_induction`: induction on the runs of a text.
* `Offsets.candidates_eq`: the candidates by lexemes are those collected symbol by symbol.
* `Offsets.candidatesFrom_of_findCall`: the first candidate is the first call.
* `Offsets.candidatesFrom_append_cons`: candidates on the two sides of a symbol outside words.
-/

namespace TextExpander

/-! ### Identifiers are words -/

namespace Text

theorem isAlpha_iff {c : Char} :
    c.isAlpha = true ↔ ('A' ≤ c ∧ c ≤ 'Z') ∨ ('a' ≤ c ∧ c ≤ 'z') := by
  have hranges : c.isAlpha = (decide ('A'.val ≤ c.val ∧ c.val ≤ 'Z'.val) ||
      decide ('a'.val ≤ c.val) && decide (c.val ≤ 'z'.val)) := rfl
  rw [hranges, Bool.or_eq_true, Bool.and_eq_true, decide_eq_true_eq, decide_eq_true_eq,
    decide_eq_true_eq]
  rfl

theorem isDigit_iff {c : Char} : c.isDigit = true ↔ '0' ≤ c ∧ c ≤ '9' := by
  simp only [Char.isDigit, Bool.and_eq_true, decide_eq_true_eq, Char.le_def, ge_iff_le]

theorem toNat_lt_of_isAsciiWord {c : Char} (h : isAsciiWord c = true) : c.toNat < 0x80 := by
  have hbelow {d : Char} (hle : c ≤ d) (hd : d.toNat < 0x80) : c.toNat < 0x80 :=
    Nat.lt_of_le_of_lt (UInt32.le_iff_toNat_le.mp hle) hd
  rw [isAsciiWord, Char.isAlphanum, Bool.or_eq_true, Bool.or_eq_true, isAlpha_iff, isDigit_iff,
    beq_iff_eq] at h
  rcases h with ((⟨-, h⟩ | ⟨-, h⟩) | ⟨-, h⟩) | rfl
  · exact hbelow h (by decide)
  · exact hbelow h (by decide)
  · exact hbelow h (by decide)
  · decide

theorem isWordChar_of_isAsciiWord {c : Char} (h : isAsciiWord c = true) : isWordChar c = true := by
  rw [isWordChar, if_pos (toNat_lt_of_isAsciiWord h), h]

/-- An identifier is a word in ASCII. -/
theorem isAsciiWord_of_isIdentifier {t : Text} (h : isIdentifier t = true) :
    ∀ c ∈ t, isAsciiWord c = true := by
  cases t with
  | nil => cases h
  | cons d t =>
    rw [isIdentifier, Bool.and_eq_true, List.all_eq_true] at h
    have hd : isAsciiWord d = true := by
      have hstart : (d.isAlpha || d == '_') = true := h.1
      rw [isAsciiWord, Char.isAlphanum, Bool.or_right_comm, hstart, Bool.true_or]
    exact List.forall_mem_cons.mpr ⟨hd, h.2⟩

/-- An identifier is a word. -/
theorem isWordChar_of_isIdentifier {t : Text} (h : isIdentifier t = true) :
    ∀ c ∈ t, isWordChar c = true :=
  fun c hc => isWordChar_of_isAsciiWord (isAsciiWord_of_isIdentifier h c hc)

end Text

/-! ### Runs -/

namespace Lexeme

variable {α : Type} [Symbol α]

/-- A run that does not go on is the first lexeme. -/
theorem split_append {run rest : List α} {b : Bool} (hne : run ≠ [])
    (hrun : ∀ a ∈ run, Symbol.isWord a = b) (hrest : ∀ a ∈ rest.head?, Symbol.isWord a = !b) :
    split (run ++ rest) = ofRun run :: split rest := by
  have hchain : run.IsChain fun x y => sameRun x y := by
    apply List.Pairwise.isChain
    apply List.pairwise_of_forall_mem_list
    intro x hx y hy
    rw [sameRun, hrun x hx, hrun y hy, beq_self_eq_true]
  have hborder : ∀ x ∈ run.getLast?, ∀ y ∈ rest.head?, sameRun x y = false := by
    intro x hx y hy
    rw [sameRun, hrun x (List.mem_of_mem_getLast? hx), hrest y hy]
    cases b <;> rfl
  rw [split, List.splitBy_append hborder, List.splitBy_of_isChain hne hchain, split,
    List.map_append]
  rfl

theorem isIdentifier_ofRun (run : Text) :
    (ofRun run).isIdentifier = Text.isIdentifier run := by
  rw [isIdentifier, ofRun, kindOf, Symbol.chars_text]
  cases Text.isIdentifier run with
  | true => rfl
  | false =>
    rw [if_neg Bool.false_ne_true]
    split_ifs <;> rfl

/-- A text that is not empty starts with a run, of characters in a class or of others. -/
theorem exists_run (p : Char → Bool) (c : Char) (t : Text) :
    ∃ run rest, c :: t = run ++ rest ∧ run ≠ [] ∧ (∀ d ∈ run, p d = p c) ∧
      ∀ d ∈ rest.head?, p d = !p c := by
  let same : Char → Bool := fun d => p d == p c
  refine ⟨(c :: t).takeWhile same, (c :: t).dropWhile same,
    List.takeWhile_append_dropWhile.symm, ?_, fun d hd => ?_, fun d hd => ?_⟩
  · simp [same]
  · have hsame : same d = true := List.mem_takeWhile_imp hd
    exact beq_iff_eq.mp hsame
  · have hother : same d = false := by
      have hhead := List.head?_dropWhile_not same (c :: t)
      rwa [Option.mem_def.mp hd] at hhead
    exact Bool.eq_not.mpr (beq_eq_false_iff_ne.mp hother)

/-- Induction on the runs of a text, of characters in a class and of others. -/
@[elab_as_elim]
theorem run_induction (p : Char → Bool) {motive : Text → Prop} (t : Text) (nil : motive [])
    (run : ∀ (b : Bool) (run rest : Text), run ≠ [] → (∀ c ∈ run, p c = b) →
      (∀ c ∈ rest.head?, p c = !b) → motive rest → motive (run ++ rest)) : motive t := by
  induction hn : t.length using Nat.strongRecOn generalizing t with
  | ind n ih =>
    cases t with
    | nil => exact nil
    | cons c t =>
      obtain ⟨first, rest, ht, hne, hfirst, hrest⟩ := exists_run p c t
      have hlength : rest.length < n := by
        have hpos := List.length_pos_iff.mpr hne
        rw [← hn, ht, List.length_append]
        omega
      rw [ht]
      exact run (p c) first rest hne hfirst hrest (ih _ hlength rest rfl)

/-- An identifier is a run of word characters, of any class that has all that stands in one. -/
theorem eq_true_of_isIdentifier {p : Char → Bool}
    (hp : ∀ c, Text.isAsciiWord c = true → p c = true) {b : Bool} {run : Text}
    (hname : Text.isIdentifier run = true) (hrun : ∀ c ∈ run, p c = b) : b = true := by
  cases run with
  | nil => cases hname
  | cons c run =>
    have hc : c ∈ c :: run := List.mem_cons_self
    exact (hrun c hc).symm.trans (hp c (Text.isAsciiWord_of_isIdentifier hname c hc))

end Lexeme

namespace Offsets

variable {α : Type} [Symbol α] {resolve : Text → Option Callee}

/-! ### Candidates symbol by symbol -/

/-- The candidate that a word is, given where it starts, its characters, last first, and the
character that follows it. -/
def candidateBefore (resolve : Text → Option Callee) (start : Nat) (word : Text)
    (next : Option Char) : Option Candidate :=
  if next = some '(' then
    (Outline.refer resolve word.reverse).map
      (Candidate.mk word.reverse start (start + Text.byteLength word))
  else none

/-- The candidates of a text, collected symbol by symbol. The characters of the word that stands
right before the text are given, last first; this word starts at `start`. -/
def candidatesFrom (resolve : Text → Option Callee) :
    (start : Nat) → (word : Text) → Text → List Candidate
  | _, _, [] => []
  | start, word, c :: rest =>
    if Text.isWordChar c then candidatesFrom resolve start (c :: word) rest
    else (candidateBefore resolve start word (some c)).toList ++
      candidatesFrom resolve (start + Text.byteLength word + c.utf8Size) [] rest

theorem candidatesFrom_word {c : Char} (h : Text.isWordChar c = true) (start : Nat)
    (word rest : Text) :
    candidatesFrom resolve start word (c :: rest) =
      candidatesFrom resolve start (c :: word) rest := by
  rw [candidatesFrom, if_pos h]

theorem start_of_candidateBefore {start : Nat} {word : Text} {next : Option Char}
    {candidate : Candidate} (h : candidate ∈ candidateBefore resolve start word next) :
    candidate.start = start := by
  rw [candidateBefore] at h
  split_ifs at h
  · obtain ⟨callee, -, rfl⟩ := Option.map_eq_some_iff.mp h
    rfl
  · cases h

theorem candidatesFrom_end {c : Char} (h : Text.isWordChar c = false) (start : Nat)
    (word rest : Text) :
    candidatesFrom resolve start word (c :: rest) =
      (candidateBefore resolve start word (some c)).toList ++
        candidatesFrom resolve (start + Text.byteLength word + c.utf8Size) [] rest := by
  rw [candidatesFrom, if_neg (by simp [h])]

theorem candidatesFrom_call {word : Text} {callee : Callee}
    (h : Outline.refer resolve word.reverse = some callee) (start : Nat) (rest : Text) :
    candidatesFrom resolve start word ('(' :: rest) =
      ⟨word.reverse, start, start + Text.byteLength word, callee⟩ ::
        candidatesFrom resolve (start + Text.byteLength word + 1) [] rest := by
  have hbefore : candidateBefore resolve start word (some '(') =
      some ⟨word.reverse, start, start + Text.byteLength word, callee⟩ := by
    rw [candidateBefore, if_pos rfl, h]
    rfl
  rw [candidatesFrom_end (by decide), hbefore]
  rfl

theorem candidatesFrom_other {c : Char} {word : Text} (hword : Text.isWordChar c = false)
    (h : c = '(' → Outline.refer resolve word.reverse = none) (start : Nat) (rest : Text) :
    candidatesFrom resolve start word (c :: rest) =
      candidatesFrom resolve (start + Text.byteLength word + c.utf8Size) [] rest := by
  have hbefore : candidateBefore resolve start word (some c) = none := by
    rw [candidateBefore]
    split_ifs with hc
    · rw [h (Option.some.inj hc), Option.map_none]
    · rfl
  rw [candidatesFrom_end hword, hbefore]
  rfl

/-! ### The first call -/

theorem candidatesFrom_of_findCall_none {passed word xs : List α}
    (h : Outline.findCall resolve passed word xs = none) (start : Nat) :
    candidatesFrom resolve start (Symbol.chars word) (Symbol.chars xs) = [] := by
  induction xs generalizing passed word start with
  | nil => rfl
  | cons a xs ih =>
    rw [Symbol.chars_cons]
    rcases Outline.symbol_cases resolve word a with hword | ⟨callee, ha, hcallee⟩ | ⟨hword, hnone⟩
    · rw [Outline.findCall_word hword] at h
      rw [candidatesFrom_word hword]
      exact ih h start
    · rw [Outline.findCall_call ha hcallee] at h
      cases h
    · rw [Outline.findCall_other hword hnone] at h
      rw [candidatesFrom_other hword]
      · exact ih h _
      · rw [← Symbol.chars_reverse, Outline.refer_chars]
        exact hnone

/-- **The first candidate is the first call.** What follows are the candidates after its
parenthesis. -/
theorem candidatesFrom_of_findCall {passed word xs : List α} {site : CallSite α Callee}
    (h : Outline.findCall resolve passed word xs = some site) {base start : Nat}
    (hstart : start = base + Symbol.byteLength passed) :
    ∃ name a, passed.reverse ++ word.reverse ++ xs = site.before ++ name ++ a :: site.after ∧
      Symbol.shown a = '(' ∧ Outline.refer resolve name = some site.callee ∧
      candidatesFrom resolve start (Symbol.chars word) (Symbol.chars xs) =
        ⟨Symbol.chars name, base + Symbol.byteLength site.before,
            base + Symbol.byteLength (site.before ++ name), site.callee⟩ ::
          candidatesFrom resolve (base + Symbol.byteLength (site.before ++ name) + 1) []
            (Symbol.chars site.after) := by
  induction xs generalizing passed word start with
  | nil => cases h
  | cons a xs ih =>
    rw [Symbol.chars_cons]
    rcases Outline.symbol_cases resolve word a with hword | ⟨callee, ha, hcallee⟩ | ⟨hword, hnone⟩
    · rw [Outline.findCall_word hword] at h
      obtain ⟨name, b, heq, hfound⟩ := ih h hstart
      rw [candidatesFrom_word hword]
      exact ⟨name, b, by simpa using heq, hfound⟩
    · rw [Outline.findCall_call ha hcallee] at h
      obtain rfl := Option.some.inj h
      refine ⟨word.reverse, a, rfl, ha, hcallee, ?_⟩
      rw [← Outline.refer_chars, Symbol.chars_reverse] at hcallee
      rw [ha, candidatesFrom_call hcallee]
      simp [Symbol.byteLength, hstart, Nat.add_assoc]
    · rw [Outline.findCall_other hword hnone] at h
      obtain ⟨name, b, heq, hfound⟩ := ih h rfl
      rw [← Outline.refer_chars, Symbol.chars_reverse] at hnone
      have hlength : base + Symbol.byteLength passed + Text.byteLength (Symbol.chars word) +
          (Symbol.shown a).utf8Size = base + Symbol.byteLength (a :: (word ++ passed)) := by
        simp only [Symbol.byteLength, Symbol.chars_cons, Symbol.chars_append, Text.byteLength_cons,
          Text.byteLength_append]
        omega
      rw [candidatesFrom_other hword hnone, hstart, hlength]
      exact ⟨name, b, by simpa using heq, hfound⟩

/-! ### Two sides of a symbol outside words -/

theorem candidatesFrom_append_cons {c : Char} (hc : Text.isWordChar c = false) (start : Nat)
    (word s t : Text) :
    candidatesFrom resolve start word (s ++ c :: t) =
      candidatesFrom resolve start word (s ++ [c]) ++
        candidatesFrom resolve (start + Text.byteLength word + Text.byteLength (s ++ [c])) []
          t := by
  induction s generalizing start word with
  | nil =>
    rw [List.nil_append, List.nil_append, candidatesFrom_end hc, candidatesFrom_end hc,
      candidatesFrom, List.append_nil]
    rfl
  | cons d s ih =>
    rw [List.cons_append, List.cons_append, Text.byteLength_cons]
    cases hd : Text.isWordChar d with
    | true =>
      have hlength : start + Text.byteLength (d :: word) + Text.byteLength (s ++ [c]) =
          start + Text.byteLength word + (d.utf8Size + Text.byteLength (s ++ [c])) := by
        rw [Text.byteLength_cons]
        omega
      rw [candidatesFrom_word hd, ih, candidatesFrom_word hd, hlength]
    | false =>
      have hlength : start + Text.byteLength word + d.utf8Size + Text.byteLength [] +
          Text.byteLength (s ++ [c]) =
            start + Text.byteLength word + (d.utf8Size + Text.byteLength (s ++ [c])) := by
        rw [Text.byteLength_nil]
        omega
      rw [candidatesFrom_end hd, ih, candidatesFrom_end hd, List.append_assoc, hlength]

theorem start_lt_of_mem_candidatesFrom {start : Nat} {word t : Text} {candidate : Candidate}
    (h : candidate ∈ candidatesFrom resolve start word t) :
    candidate.start < start + Text.byteLength word + Text.byteLength t := by
  induction t generalizing start word with
  | nil => cases h
  | cons c t ih =>
    have hpos : 0 < c.utf8Size := c.utf8Size_pos
    rw [Text.byteLength_cons]
    cases hc : Text.isWordChar c with
    | true =>
      rw [candidatesFrom_word hc] at h
      have hlt := ih h
      rw [Text.byteLength_cons] at hlt
      omega
    | false =>
      rw [candidatesFrom_end hc, List.mem_append] at h
      rcases h with h | h
      · have hstart : candidate.start = start := start_of_candidateBefore (Option.mem_toList.mp h)
        omega
      · have hlt := ih h
        rw [Text.byteLength_nil] at hlt
        omega

/-! ### Candidates by lexemes -/

theorem candidatesFrom_run {run : Text} (hrun : ∀ c ∈ run, Text.isWordChar c = true) (start : Nat)
    (word rest : Text) :
    candidatesFrom resolve start word (run ++ rest) =
      candidatesFrom resolve start (run.reverse ++ word) rest := by
  induction run generalizing word with
  | nil => rfl
  | cons c run ih =>
    rw [List.cons_append, candidatesFrom_word (hrun c List.mem_cons_self),
      ih fun d hd => hrun d (List.mem_cons_of_mem _ hd), List.reverse_cons, List.append_assoc]
    rfl

theorem candidatesFrom_gap {gap : Text} (hgap : ∀ c ∈ gap, Text.isWordChar c = false) (start : Nat)
    (rest : Text) :
    candidatesFrom resolve start [] (gap ++ rest) =
      candidatesFrom resolve (start + Text.byteLength gap) [] rest := by
  induction gap generalizing start with
  | nil => rfl
  | cons c gap ih =>
    rw [List.cons_append, candidatesFrom_other (hgap c List.mem_cons_self) fun _ => rfl,
      ih fun d hd => hgap d (List.mem_cons_of_mem _ hd), Text.byteLength_nil, Text.byteLength_cons,
      Nat.add_zero, Nat.add_assoc]

/-- The end of a word decides whether it is a candidate; afterwards it does not count any more. -/
theorem candidatesFrom_wordEnd {rest : Text} (hrest : ∀ c ∈ rest.head?, Text.isWordChar c = false)
    (start : Nat) (word : Text) :
    candidatesFrom resolve start word rest =
      (candidateBefore resolve start word rest.head?).toList ++
        candidatesFrom resolve (start + Text.byteLength word) [] rest := by
  cases rest with
  | nil => rfl
  | cons c rest =>
    have hc : Text.isWordChar c = false := hrest c rfl
    rw [candidatesFrom_end hc, candidatesFrom_other hc fun _ => rfl, Text.byteLength_nil]
    rfl

theorem identifiersFrom_identifier {l : Lexeme Char} (h : l.isIdentifier = true) (start : Nat)
    (lexemes : List (Lexeme Char)) :
    identifiersFrom start (l :: lexemes) =
      (l, start, start + Text.byteLength l.symbols) ::
        identifiersFrom (start + Text.byteLength l.symbols) lexemes := by
  rw [identifiersFrom, Lexeme.locateFrom, List.filter_cons, h, if_pos rfl, Symbol.byteLength_text]
  rfl

theorem identifiersFrom_other {l : Lexeme Char} (h : l.isIdentifier = false) (start : Nat)
    (lexemes : List (Lexeme Char)) :
    identifiersFrom start (l :: lexemes) =
      identifiersFrom (start + Text.byteLength l.symbols) lexemes := by
  rw [identifiersFrom, Lexeme.locateFrom, List.filter_cons, h, if_neg Bool.false_ne_true,
    Symbol.byteLength_text]
  rfl

theorem candidate?_eq (table : Table) {scan before name rest : Text}
    (hscan : scan = before ++ name ++ rest) (hname : Text.isIdentifier name = true) :
    candidate? table scan (Lexeme.ofRun name, Text.byteLength before,
        Text.byteLength before + Text.byteLength name) =
      .ok (candidateBefore table.callee? (Text.byteLength before) name.reverse rest.head?) := by
  have hcut : cut scan (Text.byteLength before + Text.byteLength name) (Text.byteLength scan) =
      .ok rest := by
    rw [← Text.byteLength_append]
    apply cut_of_parts (by rw [hscan, List.append_nil]) rfl
    rw [hscan, Text.byteLength_append]
  have hrefer : Outline.refer table.callee? name = table.callee? name := by
    rw [Outline.refer, Symbol.chars_text, if_pos hname]
  simp only [candidate?, hcut, bind, Except.bind, candidateBefore, List.reverse_reverse, hrefer,
    Text.byteLength_reverse]
  split_ifs <;> rfl

theorem candidateBefore_of_not_isIdentifier {name : Text} (h : Text.isIdentifier name = false)
    (start : Nat) (next : Option Char) :
    candidateBefore resolve start name.reverse next = none := by
  have hrefer : Outline.refer resolve name = none := by
    rw [Outline.refer, Symbol.chars_text, if_neg (by simp [h])]
  rw [candidateBefore, List.reverse_reverse, hrefer]
  split_ifs <;> rfl

/-- Lexeme by lexeme the candidates are those that are found symbol by symbol. -/
theorem mapM_candidate? (table : Table) {scan : Text} (before rest : Text)
    (hscan : scan = before ++ rest) :
    ∃ found, (identifiersFrom (Text.byteLength before) (Lexeme.split rest)).mapM
        (candidate? table scan) = .ok found ∧
      found.filterMap id = candidatesFrom table.callee? (Text.byteLength before) [] rest := by
  induction rest using Lexeme.run_induction Text.isWordChar generalizing before with
  | nil => exact ⟨[], rfl, rfl⟩
  | run b run left hne hrun hleft ih =>
    have hscan' : scan = before ++ run ++ left := by rw [hscan, List.append_assoc]
    obtain ⟨found, hfound, hcandidates⟩ := ih (before ++ run) hscan'
    rw [Text.byteLength_append] at hfound hcandidates
    rw [Lexeme.split_append hne hrun hleft]
    cases b with
    | false =>
      have hidentifier : Text.isIdentifier run = false := by
        rw [Bool.eq_false_iff]
        intro h
        exact Bool.false_ne_true
          (Lexeme.eq_true_of_isIdentifier (fun c => Text.isWordChar_of_isAsciiWord) h hrun)
      rw [← Lexeme.isIdentifier_ofRun] at hidentifier
      rw [identifiersFrom_other hidentifier, candidatesFrom_gap hrun]
      exact ⟨found, hfound, hcandidates⟩
    | true =>
      rw [candidatesFrom_run hrun, List.append_nil, candidatesFrom_wordEnd hleft,
        Text.byteLength_reverse, ← hcandidates]
      cases hidentifier : Text.isIdentifier run with
      | false =>
        rw [candidateBefore_of_not_isIdentifier hidentifier]
        rw [← Lexeme.isIdentifier_ofRun] at hidentifier
        rw [identifiersFrom_other hidentifier]
        exact ⟨found, hfound, rfl⟩
      | true =>
        have hcandidate := candidate?_eq table hscan' hidentifier
        rw [← Lexeme.isIdentifier_ofRun] at hidentifier
        rw [identifiersFrom_identifier hidentifier]
        refine ⟨_, mapM_cons_of_ok hcandidate hfound, ?_⟩
        rw [List.filterMap_cons]
        cases candidateBefore table.callee? (Text.byteLength before) run.reverse left.head? <;> rfl

/-- **The candidates of a text.** No cut in the search for them fails. -/
theorem candidates_eq (table : Table) (scan : Text) :
    candidates table scan = .ok (candidatesFrom table.callee? 0 [] scan) := by
  obtain ⟨found, hfound, hcandidates⟩ := mapM_candidate? table [] scan rfl
  have hmap : (identifiers scan).mapM (candidate? table scan) = .ok found := hfound
  rw [candidates, hmap, ← Text.byteLength_nil, ← hcandidates]
  rfl

end Offsets

end TextExpander
