import Mathlib.Data.List.DropRight
import TextExpander.Proofs.Bodies
import TextExpander.Proofs.Decoding
import TextExpander.Proofs.Frames
import TextExpander.Proofs.SelfDelimiting
import TextExpander.Proofs.Truncation
import TextExpander.Proofs.Words

/-!
# A listing of lexemes loses nothing

The listing of a source has an item for each lexeme: where its line stands, what it is, and its text
quoted. The file is the same in all items, and it may hold any characters, line feeds and digits
among them; but it is known, so it can be taken off. What is left of an item is a number with a
colon, a keyword with a blank and a quoted text, each of which tells where it ends. So the items can
be told from the listing, and with them the number of each line and the lexemes on it.

The lexemes of a line make up the line. A line without lexemes is empty, and leaves no trace but the
gap in the numbers. At the end there is no gap to be seen: sources that differ in empty lines at
their end have the same listing, and no others have.

## Main definitions

* `Listing.entriesFrom`: the lexemes of lines with the numbers of their lines.
* `Listing.textAt`: the text on a line, put together from its lexemes.

## Main results

* `Listing.selfDelimiting_lexemeItem`: number and lexeme can be told from an item.
* `Listing.textAt_entriesFrom`: each line can be told from the entries.
* `listing_of_lexemes_loses_nothing`: the sources that have the same listing.
-/

namespace TextExpander

/-! ### Bytes -/

theorem Utf8.encode_injective : Function.Injective encode :=
  Function.LeftInverse.injective decodeLossy_encode

namespace Listing

theorem bytes_writeLexemes {sink : Sink} (h : sink.limit = none) (name : Path) (source : Text) :
    (writeLexemes name source sink).1.bytes =
      sink.bytes ++ Utf8.encode (lexemes name source).flatten := by
  have hwrite : ∃ after : Sink, sink.write (lexemes name source) = (after, none) ∧
      after.limit = none := by
    rw [Sink.write]
    exact ⟨_, Sink.settle_of_unlimited (by exact h), h⟩
  obtain ⟨after, hafter, hlimit⟩ := hwrite
  have hflush : after.flush.1.bytes = after.bytes := by
    rw [Sink.flush, Sink.settle_of_unlimited (s := { after with held := 0 }) hlimit]
    rfl
  have hbytes := Sink.bytes_write_of_unlimited h (lexemes name source)
  rw [hafter] at hbytes
  rw [writeLexemes, hafter]
  exact hflush.trans hbytes

/-! ### Items -/

theorem selfDelimiting_kind : SelfDelimiting fun kind : LexemeKind => kind.name ++ [' '] := by
  refine .ended (fun kind kind' h => ?_) fun kind hmem => ?_
  · cases kind <;> cases kind' <;> first | rfl | cases h
  · cases kind <;> exact absurd hmem (by decide)

/-- **An item tells its number and its lexeme**, whatever follows it and whatever the file is. -/
theorem selfDelimiting_lexemeItem (name : Path) :
    SelfDelimiting fun e : Nat × Lexeme Char => (lexemeItem ⟨name, e.1⟩ e.2).flatten := by
  have hfields := ((((Text.selfDelimiting_decimal.before [' ']).append selfDelimiting_kind).append
    Text.selfDelimiting_quote).after (name.text ++ [':'])).before ['\n']
  have hkey : Function.Injective fun e : Nat × Lexeme Char => ((e.1, e.2.kind), e.2.symbols) := by
    rintro ⟨n, kind, symbols⟩ ⟨n', kind', symbols'⟩ h
    simp only [Prod.mk.injEq] at h
    obtain ⟨⟨rfl, rfl⟩, rfl⟩ := h
    rfl
  have hitem : (fun e : Nat × Lexeme Char => (lexemeItem ⟨name, e.1⟩ e.2).flatten) = fun e =>
      name.text ++ [':'] ++ (Text.decimal e.1 ++ [':'] ++ [' '] ++ (e.2.kind.name ++ [' ']) ++
        Text.quote e.2.symbols) ++ ['\n'] := by
    funext e
    simp [lexemeItem, Location.render]
  rw [hitem]
  -- Stated before it is compared with the goal: the projections are then reduced only once.
  have hcode := hfields.comp hkey
  exact hcode

/-! ### Entries -/

/-- The lexemes of lines with the numbers of their lines, after the first `passed` lines. -/
def entriesFrom : (passed : Nat) → List Text → List (Nat × Lexeme Char)
  | _, [] => []
  | passed, line :: rest =>
    (Lexeme.split line).map (fun l => (passed + 1, l)) ++ entriesFrom (passed + 1) rest

theorem flatten_lexemeItems (location : Location) (ls : List (Lexeme Char)) :
    (ls.flatMap (lexemeItem location)).flatten =
      ls.flatMap fun l => (lexemeItem location l).flatten := by
  induction ls with
  | nil => rfl
  | cons l ls ih => rw [List.flatMap_cons, List.flatten_append, ih, List.flatMap_cons]

theorem flatten_numberFrom (name : Path) (depth passed : Nat) (lines : List Text) :
    ((SourceLine.numberFrom name depth passed lines).flatMap fun line =>
        (Lexeme.split line.text).flatMap (lexemeItem line.location)).flatten =
      (entriesFrom passed lines).flatMap fun e => (lexemeItem ⟨name, e.1⟩ e.2).flatten := by
  induction lines generalizing passed with
  | nil => rfl
  | cons line rest ih =>
    rw [SourceLine.numberFrom, List.flatMap_cons, List.flatten_append, ih, entriesFrom,
      List.flatMap_append, List.flatMap_map, flatten_lexemeItems]

/-- The listing is made of the items of the entries. -/
theorem flatten_lexemes (name : Path) (source : Text) :
    (lexemes name source).flatten =
      (entriesFrom 0 (Text.lines source)).flatMap fun entry =>
        (lexemeItem ⟨name, entry.1⟩ entry.2).flatten := by
  rw [lexemes, SourceLine.number_eq_numberFrom, flatten_numberFrom]

theorem entriesFrom_concat_nil (passed : Nat) (lines : List Text) :
    entriesFrom passed (lines ++ [[]]) = entriesFrom passed lines := by
  induction lines generalizing passed with
  | nil => rfl
  | cons line rest ih => rw [List.cons_append, entriesFrom, entriesFrom, ih]

/-- Empty lines at the end have no entries. -/
theorem entriesFrom_rdropWhile (passed : Nat) (lines : List Text) :
    entriesFrom passed (lines.rdropWhile List.isEmpty) = entriesFrom passed lines := by
  induction lines using List.reverseRecOn with
  | nil => rfl
  | append_singleton lines line ih =>
    by_cases hline : line.isEmpty = true
    · rw [List.rdropWhile_concat_pos _ _ _ hline, ih]
      obtain rfl := List.isEmpty_iff.mp hline
      rw [entriesFrom_concat_nil]
    · rw [List.rdropWhile_concat_neg _ _ _ hline]

theorem lt_of_mem_entriesFrom {passed : Nat} {lines : List Text} {e : Nat × Lexeme Char}
    (h : e ∈ entriesFrom passed lines) : passed < e.1 := by
  induction lines generalizing passed with
  | nil => cases h
  | cons line rest ih =>
    rcases List.mem_append.mp h with h | h
    · obtain ⟨l, -, rfl⟩ := List.mem_map.mp h
      exact Nat.lt_succ_self passed
    · exact Nat.lt_of_succ_lt (ih h)

/-! ### Lines -/

/-- The text on a line, put together from its lexemes. -/
def textAt (n : Nat) (entries : List (Nat × Lexeme Char)) : Text :=
  Lexeme.concat ((entries.filter fun e => e.1 == n).map Prod.snd)

theorem textAt_append (n : Nat) (entries more : List (Nat × Lexeme Char)) :
    textAt n (entries ++ more) = textAt n entries ++ textAt n more := by
  simp [textAt, Lexeme.concat]

theorem textAt_of_forall_ne {n : Nat} {entries : List (Nat × Lexeme Char)}
    (h : ∀ e ∈ entries, e.1 ≠ n) : textAt n entries = [] := by
  have hnone : (entries.filter fun e => e.1 == n) = [] := by
    refine List.filter_eq_nil_iff.mpr fun e he heq => ?_
    exact h e he (beq_iff_eq.mp heq)
  rw [textAt, hnone]
  rfl

theorem textAt_map_self (n : Nat) (line : Text) :
    textAt n ((Lexeme.split line).map fun l => (n, l)) = line := by
  have hall : (((Lexeme.split line).map fun l => (n, l)).filter fun e => e.1 == n) =
      (Lexeme.split line).map fun l => (n, l) := by
    refine List.filter_eq_self.mpr fun e he => ?_
    obtain ⟨l, -, rfl⟩ := List.mem_map.mp he
    exact beq_self_eq_true n
  rw [textAt, hall, List.map_map]
  exact (congrArg Lexeme.concat (List.map_id _)).trans (Offsets.concat_split line)

/-- **Each line can be told from the entries**; a line beyond the last counts as empty. -/
theorem textAt_entriesFrom (lines : List Text) (passed i : Nat) :
    textAt (passed + i + 1) (entriesFrom passed lines) = lines[i]?.getD [] := by
  induction lines generalizing passed i with
  | nil => rfl
  | cons line rest ih =>
    rw [entriesFrom, textAt_append]
    cases i with
    | zero =>
      have hrest : textAt (passed + 1) (entriesFrom (passed + 1) rest) = [] :=
        textAt_of_forall_ne fun e he => Nat.ne_of_gt (lt_of_mem_entriesFrom he)
      rw [Nat.add_zero, hrest, List.append_nil, textAt_map_self]
      rfl
    | succ i =>
      have hfirst : textAt (passed + (i + 1) + 1)
          ((Lexeme.split line).map fun l => (passed + 1, l)) = [] := by
        refine textAt_of_forall_ne fun e he => ?_
        obtain ⟨l, -, rfl⟩ := List.mem_map.mp he
        show passed + 1 ≠ passed + (i + 1) + 1
        omega
      have hnumber : passed + (i + 1) + 1 = passed + 1 + i + 1 := by omega
      rw [hfirst, List.nil_append, hnumber, ih (passed + 1) i, List.getElem?_cons_succ]

end Listing

/-! ### Empty lines at the end -/

namespace Text

theorem getD_rdropWhile (lines : List Text) (i : Nat) :
    (lines.rdropWhile List.isEmpty)[i]?.getD [] = lines[i]?.getD [] := by
  induction lines using List.reverseRecOn with
  | nil => rfl
  | append_singleton lines line ih =>
    by_cases hline : line.isEmpty = true
    · rw [List.rdropWhile_concat_pos _ _ _ hline, ih]
      obtain rfl := List.isEmpty_iff.mp hline
      rcases Nat.lt_trichotomy i lines.length with hlt | rfl | hgt
      · rw [List.getElem?_append_left hlt]
      · simp
      · have hle : (lines ++ [[]]).length ≤ i := by simpa using Nat.succ_le_of_lt hgt
        rw [List.getElem?_eq_none (Nat.le_of_lt hgt), List.getElem?_eq_none hle]
    · rw [List.rdropWhile_concat_neg _ _ _ hline]

/-- A list of lines whose last line is not empty has no more lines than another with the same text
on each line. -/
theorem length_le_of_getD_eq {xs ys : List Text} (hxs : xs.rdropWhile List.isEmpty = xs)
    (h : ∀ i : Nat, xs[i]?.getD [] = ys[i]?.getD []) : xs.length ≤ ys.length := by
  by_contra hlt
  have hne : xs ≠ [] := by
    rintro rfl
    exact hlt (Nat.zero_le _)
  have hpos := List.length_pos_iff.mpr hne
  have hlast := h (xs.length - 1)
  rw [List.getElem?_eq_getElem (by omega), ← List.getLast_eq_getElem hne,
    List.getElem?_eq_none (by omega)] at hlast
  have hempty : (xs.getLast hne).isEmpty = true := List.isEmpty_iff.mpr hlast
  exact List.rdropWhile_eq_self_iff.mp hxs hne hempty

/-- **The same text on each line.** Lines beyond the last count as empty, so this is all but the
number of empty lines at the end. -/
theorem rdropWhile_eq_iff {xs ys : List Text} :
    xs.rdropWhile List.isEmpty = ys.rdropWhile List.isEmpty ↔
      ∀ i : Nat, xs[i]?.getD [] = ys[i]?.getD [] := by
  constructor
  · intro h i
    rw [← getD_rdropWhile xs, h, getD_rdropWhile]
  · intro h
    have hdropped : ∀ i : Nat, (xs.rdropWhile List.isEmpty)[i]?.getD [] =
        (ys.rdropWhile List.isEmpty)[i]?.getD [] := by
      intro i
      rw [getD_rdropWhile, getD_rdropWhile, h i]
    have hlength := Nat.le_antisymm
      (length_le_of_getD_eq (List.rdropWhile_idempotent ..) hdropped)
      (length_le_of_getD_eq (List.rdropWhile_idempotent ..) fun i => (hdropped i).symm)
    refine List.ext_getElem hlength fun i hi hi' => ?_
    have hline := hdropped i
    rwa [List.getElem?_eq_getElem hi, List.getElem?_eq_getElem hi'] at hline

end Text

/-- **A listing of lexemes loses nothing.** Two sources have the same listing under a name, byte by
byte, if and only if they have the same lines but for empty lines at the end; that is, if each line
of the one has the number and the text of a line of the other, where lines beyond the last count as
empty. -/
theorem listing_of_lexemes_loses_nothing (name : Path) (source source' : Text) (sink : Sink)
    (hsink : sink.limit = none) :
    ((Listing.writeLexemes name source sink).1.bytes =
        (Listing.writeLexemes name source' sink).1.bytes ↔
      (Text.lines source).rdropWhile List.isEmpty =
        (Text.lines source').rdropWhile List.isEmpty) ∧
    ((Listing.writeLexemes name source sink).1.bytes =
        (Listing.writeLexemes name source' sink).1.bytes ↔
      ∀ i : Nat, (Text.lines source)[i]?.getD [] = (Text.lines source')[i]?.getD []) := by
  have hsame : (Listing.writeLexemes name source sink).1.bytes =
      (Listing.writeLexemes name source' sink).1.bytes ↔
        (Text.lines source).rdropWhile List.isEmpty =
          (Text.lines source').rdropWhile List.isEmpty := by
    rw [Listing.bytes_writeLexemes hsink, Listing.bytes_writeLexemes hsink,
      List.append_cancel_left_eq, Utf8.encode_injective.eq_iff, Listing.flatten_lexemes,
      Listing.flatten_lexemes]
    constructor
    · intro h
      have hitem : ∀ e : Nat × Lexeme Char, (Listing.lexemeItem ⟨name, e.1⟩ e.2).flatten ≠ [] := by
        intro e
        rw [Listing.lexemeItem, Listing.flatten_item]
        exact List.append_ne_nil_of_right_ne_nil _ (List.cons_ne_nil _ _)
      have hentries := (Listing.selfDelimiting_lexemeItem name).flatMap_injective hitem h
      refine Text.rdropWhile_eq_iff.mpr fun i => ?_
      rw [← Listing.textAt_entriesFrom _ 0 i, hentries, Listing.textAt_entriesFrom]
    · intro h
      rw [← Listing.entriesFrom_rdropWhile, h, Listing.entriesFrom_rdropWhile]
  exact ⟨hsame, hsame.trans Text.rdropWhile_eq_iff⟩

/-- Characters that are escaped, an empty line between two others, and empty lines at the end, in a
file whose name looks like a location. -/
theorem listings_with_a_gap_and_escapes :
    let name : Path := ⟨"f:1".toList⟩
    let listing := fun source => (Listing.writeLexemes name source {}).1.bytes
    let source := "a\t1\n\n\"é\n\n\n".toList
    Sink.limit {} = none ∧ listing source = listing "a\t1\r\n\n\"é".toList ∧
      listing source ≠ listing "a\t1\n\"é".toList := by
  intro name listing source
  have hlines : Text.lines source = ["a\t1".toList, [], "\"é".toList, [], []] := by decide
  have hended : Text.lines "a\t1\r\n\n\"é".toList = ["a\t1".toList, [], "\"é".toList] := by decide
  have hnext : Text.lines "a\t1\n\"é".toList = ["a\t1".toList, "\"é".toList] := by decide
  obtain ⟨hsame, -⟩ := listing_of_lexemes_loses_nothing name source "a\t1\r\n\n\"é".toList {} rfl
  obtain ⟨-, hother⟩ := listing_of_lexemes_loses_nothing name source "a\t1\n\"é".toList {} rfl
  refine ⟨rfl, hsame.mpr ?_, fun h => ?_⟩
  · rw [hlines, hended]
    decide
  · have hsecond := hother.mp h 1
    rw [hlines, hnext] at hsecond
    exact absurd hsecond (by decide)

end TextExpander
