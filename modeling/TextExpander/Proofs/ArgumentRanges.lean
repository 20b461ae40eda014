import Mathlib.Data.List.TakeWhile
import Mathlib.Tactic.Conv
import Mathlib.Tactic.NthRewrite
import TextExpander.Proofs.Cuts
import TextExpander.Proofs.Parens

/-!
# Parentheses and arguments by offsets

Parentheses and commas are looked for byte by byte. A byte of theirs occurs in no other character,
so the search finds what a search by characters finds, and the offset that it gives is the length of
what was passed over. From there on each range is named by its parts.

## Main results

* `Offsets.closingOffset_eq`: the closing parenthesis is that of `Parens.close?`.
* `Offsets.argumentRanges_eq`: the ranges of the arguments are those of `Parens.locate`.
-/

namespace TextExpander

namespace Offsets

/-! ### The closing parenthesis -/

theorem openingByte_notMem {c : Char} (h : c ≠ '(') : openingByte ∉ String.utf8EncodeChar c :=
  fun hmem => h (Utf8.eq_of_mem_encodeChar hmem (by decide))

theorem closingByte_notMem {c : Char} (h : c ≠ ')') : closingByte ∉ String.utf8EncodeChar c :=
  fun hmem => h (Utf8.eq_of_mem_encodeChar hmem (by decide))

theorem encode_opening (t : Text) : Utf8.encode ('(' :: t) = openingByte :: Utf8.encode t := rfl

theorem encode_closing (t : Text) : Utf8.encode (')' :: t) = closingByte :: Utf8.encode t := rfl

theorem encode_comma (t : Text) : Utf8.encode (',' :: t) = commaByte :: Utf8.encode t := rfl

/-- Bytes that are no parentheses are passed over. -/
theorem closingFrom_append {bytes : List UInt8} (hopen : openingByte ∉ bytes)
    (hclose : closingByte ∉ bytes) (depth offset : Nat) (rest : List UInt8) :
    closingFrom depth offset (bytes ++ rest) = closingFrom depth (offset + bytes.length) rest := by
  induction bytes generalizing offset with
  | nil => rfl
  | cons b bytes ih =>
    rw [List.mem_cons, not_or] at hopen hclose
    rw [List.cons_append, closingFrom, if_neg (Ne.symm hopen.1), if_neg (Ne.symm hclose.1),
      ih hopen.2 hclose.2, List.length_cons, Nat.add_assoc, Nat.add_comm 1]

/-- The search byte by byte is the search by characters. The depth counts the parenthesis that is to
be closed as well, so it never goes below zero. -/
theorem closingFrom_encode (base depth : Nat) (passed t : Text) :
    closingFrom (depth + 1) (base + Text.byteLength passed) (Utf8.encode t) =
      .ok ((Parens.closeFrom depth passed t).map fun sides => base + Text.byteLength sides.1) := by
  induction t generalizing depth passed with
  | nil => rfl
  | cons c t ih =>
    have hnext : base + Text.byteLength passed + c.utf8Size =
        base + Text.byteLength (c :: passed) := by
      rw [Text.byteLength_cons]
      omega
    by_cases hopen : c = '('
    · subst hopen
      rw [encode_opening, closingFrom, if_pos rfl, Parens.closeFrom_opening rfl, ← ih, ← hnext]
      rfl
    by_cases hclose : c = ')'
    · subst hclose
      rw [encode_closing, closingFrom, if_neg (by decide), if_pos rfl,
        subtract_of_eq_add (rfl : depth + 1 = depth + 1)]
      cases depth with
      | zero =>
        rw [Parens.closeFrom_closing_zero rfl, Option.map_some, Text.byteLength_reverse]
        rfl
      | succ depth =>
        rw [Parens.closeFrom_closing_succ rfl, ← ih, ← hnext]
        rfl
    rw [Utf8.encode_cons, closingFrom_append (openingByte_notMem hopen) (closingByte_notMem hclose),
      String.length_utf8EncodeChar, hnext, ih, Parens.closeFrom_other hopen hclose]

/-- **Where a parenthesis is closed.** The search starts at an opening parenthesis, and gives the
place that the parts name. -/
theorem closingOffset_eq {t before after : Text} {opening : Nat} (ht : t = before ++ '(' :: after)
    (hopening : opening = Text.byteLength before) :
    closingOffset t opening =
      .ok ((Parens.close? after).map fun sides => opening + 1 + Text.byteLength sides.1) := by
  have hbytes : Utf8.encode t = Utf8.encode before ++ openingByte :: Utf8.encode after := by
    rw [ht, Utf8.encode_append, encode_opening]
  have hlength : opening = (Utf8.encode before).length := by rw [hopening, Utf8.length_encode]
  have hget : (Utf8.encode t)[opening]? = some openingByte := by
    rw [hbytes, hlength, List.getElem?_append_right (Nat.le_refl _), Nat.sub_self]
    rfl
  rw [closingOffset, if_pos hget, hbytes, hlength, List.drop_left, closingFrom, if_pos rfl]
  exact closingFrom_encode _ 0 [] after

end Offsets

/-! ### Pieces -/

namespace Parens

variable {α : Type} [Symbol α]

theorem piecesFrom_comma {a : α} (h : Symbol.shown a = ',') (passed xs : List α) :
    piecesFrom 0 passed (a :: xs) = passed.reverse :: piecesFrom 0 [] xs := by
  rw [piecesFrom, if_pos ⟨h, rfl⟩]

theorem piecesFrom_other {a : α} {depth : Nat} (h : ¬ (Symbol.shown a = ',' ∧ depth = 0))
    (passed xs : List α) :
    piecesFrom depth passed (a :: xs) = piecesFrom (depthAfter depth a) (a :: passed) xs := by
  rw [piecesFrom, if_neg h]

/-- A run of symbols is made of pieces with a comma between each two. -/
inductive Separated : List α → List (List α) → Prop
  /-- The last piece. -/
  | last (piece : List α) : Separated piece [piece]
  /-- A piece and a comma in front. -/
  | comma (piece : List α) {a : α} {rest : List α} {pieces : List (List α)} :
      Symbol.shown a = ',' → Separated rest pieces →
        Separated (piece ++ a :: rest) (piece :: pieces)

theorem separated_piecesFrom (depth : Nat) (passed xs : List α) :
    Separated (passed.reverse ++ xs) (piecesFrom depth passed xs) := by
  induction xs generalizing depth passed with
  | nil =>
    rw [List.append_nil]
    exact .last _
  | cons a xs ih =>
    by_cases h : Symbol.shown a = ',' ∧ depth = 0
    · obtain ⟨ha, rfl⟩ := h
      rw [piecesFrom_comma ha]
      exact .comma _ ha (ih 0 [])
    · have hpassed : passed.reverse ++ a :: xs = (a :: passed).reverse ++ xs := by simp
      rw [piecesFrom_other h, hpassed]
      exact ih _ _

theorem separated_pieces (xs : List α) : Separated xs (pieces xs) :=
  separated_piecesFrom 0 [] xs

end Parens

namespace Offsets

/-- The ranges of pieces with a comma between each two, the first piece starting at `start`. -/
def pieceRanges (start : Nat) : List Text → List (Nat × Nat)
  | [] => []
  | piece :: rest =>
    let stop := start + Text.byteLength piece
    (start, stop) :: pieceRanges (stop + 1) rest

/-- Bytes that are neither parentheses nor commas are passed over. -/
theorem rangesFrom_append {bytes : List UInt8} (hopen : openingByte ∉ bytes)
    (hclose : closingByte ∉ bytes) {depth : Nat} (hcomma : ¬ (commaByte ∈ bytes ∧ depth = 0))
    (start offset : Nat) (rest : List UInt8) :
    rangesFrom depth start offset (bytes ++ rest) =
      rangesFrom depth start (offset + bytes.length) rest := by
  induction bytes generalizing offset with
  | nil => rfl
  | cons b bytes ih =>
    rw [List.mem_cons, not_or] at hopen hclose
    have hb : ¬ (b = commaByte ∧ depth = 0) := fun h =>
      hcomma ⟨h.1 ▸ List.mem_cons_self, h.2⟩
    have hbytes : ¬ (commaByte ∈ bytes ∧ depth = 0) := fun h =>
      hcomma ⟨List.mem_cons_of_mem _ h.1, h.2⟩
    rw [List.cons_append, rangesFrom, if_neg (Ne.symm hopen.1), if_neg (Ne.symm hclose.1),
      if_neg hb, ih hopen.2 hclose.2 hbytes, List.length_cons, Nat.add_assoc, Nat.add_comm 1]

/-- The splitting byte by byte is the splitting by characters. -/
theorem rangesFrom_encode (start depth : Nat) (passed t : Text) :
    rangesFrom depth start (start + Text.byteLength passed) (Utf8.encode t) =
      pieceRanges start (Parens.piecesFrom depth passed t) := by
  induction t generalizing start depth passed with
  | nil =>
    rw [Parens.piecesFrom, pieceRanges, Text.byteLength_reverse]
    rfl
  | cons c t ih =>
    have hnext : start + Text.byteLength passed + c.utf8Size =
        start + Text.byteLength (c :: passed) := by
      rw [Text.byteLength_cons]
      omega
    by_cases hopen : c = '('
    · subst hopen
      rw [encode_opening, rangesFrom, if_pos rfl, Parens.piecesFrom_other (by simp), ← ih, ← hnext]
      rfl
    by_cases hclose : c = ')'
    · subst hclose
      rw [encode_closing, rangesFrom, if_neg (by decide), if_pos rfl,
        Parens.piecesFrom_other (by simp), ← ih, ← hnext]
      rfl
    by_cases hcomma : c = ',' ∧ depth = 0
    · obtain ⟨rfl, rfl⟩ := hcomma
      rw [encode_comma, rangesFrom, if_neg (by decide), if_neg (by decide), if_pos ⟨rfl, rfl⟩,
        Parens.piecesFrom_comma rfl, pieceRanges, Text.byteLength_reverse, ← ih]
      rfl
    have hbyte : ¬ (commaByte ∈ String.utf8EncodeChar c ∧ depth = 0) := fun h =>
      hcomma ⟨Utf8.eq_of_mem_encodeChar h.1 (by decide), h.2⟩
    have hdepth : Parens.depthAfter depth c = depth := by
      rw [Parens.depthAfter, Symbol.shown_char, if_neg hopen, if_neg hclose]
    rw [Utf8.encode_cons, rangesFrom_append (openingByte_notMem hopen) (closingByte_notMem hclose)
      hbyte, String.length_utf8EncodeChar, hnext, ih, Parens.piecesFrom_other hcomma, hdepth]

end Offsets

/-! ### White space and wrapping parentheses -/

namespace Symbol

variable {α : Type} [Symbol α]

theorem exists_trimRight (xs : List α) :
    ∃ space, xs = trimRight xs ++ space ∧ ∀ a ∈ space, isSpace a = true := by
  refine ⟨(xs.reverse.takeWhile isSpace).reverse, ?_, fun a ha => ?_⟩
  · rw [trimRight, ← List.reverse_append, List.takeWhile_append_dropWhile, List.reverse_reverse]
  · exact List.mem_takeWhile_imp (List.mem_reverse.mp ha)

theorem trimRight_eq (xs : List α) :
    trimRight xs = (trimRight xs).takeWhile isSpace ++ trim xs := by
  rw [trim, trimLeft, List.takeWhile_append_dropWhile]

theorem isEmpty_trim (xs : List α) : (trim xs).isEmpty = isBlank xs := by
  obtain ⟨space, hxs, hspace⟩ := exists_trimRight xs
  have htrim : (trim xs).isEmpty = (trimRight xs).all isSpace := by
    rw [trim, trimLeft, Bool.eq_iff_iff, List.isEmpty_iff, List.dropWhile_eq_nil_iff,
      List.all_eq_true]
  have hall : space.all isSpace = true := List.all_eq_true.mpr hspace
  rw [htrim, isBlank]
  conv_rhs => rw [hxs, List.all_append, hall, Bool.and_true]

end Symbol

namespace Parens

variable {α : Type} [Symbol α]

theorem unwrap?_of_close? {a : α} {rest inside : List α} (ha : Symbol.shown a = '(')
    (h : close? rest = some (inside, [])) : unwrap? (a :: rest) = some inside := by
  rw [unwrap?, if_pos ha, h]

theorem exists_of_unwrap? {xs inside : List α} (h : unwrap? xs = some inside) :
    ∃ a rest, xs = a :: rest ∧ Symbol.shown a = '(' ∧ close? rest = some (inside, []) := by
  cases xs with
  | nil => cases h
  | cons a rest =>
    rw [unwrap?] at h
    split_ifs at h with ha
    split at h
    · next hclose =>
      obtain rfl := Option.some.inj h
      exact ⟨a, rest, rfl, ha, hclose⟩
    · cases h

/-- The argument of a piece that is wrapped in parentheses. -/
theorem Argument.ofPiece_of_some {piece inside : List α}
    (h : unwrap? (Symbol.trim piece) = some inside) :
    ofPiece piece =
      ⟨(Symbol.trimRight piece).takeWhile Symbol.isSpace ++ (Symbol.trim piece).take 1,
        inside⟩ := by
  rw [Symbol.trim, Symbol.trimLeft] at h ⊢
  simp only [ofPiece, h]

/-- The argument of any other piece. -/
theorem Argument.ofPiece_of_none {piece : List α} (h : unwrap? (Symbol.trim piece) = none) :
    ofPiece piece =
      ⟨(Symbol.trimRight piece).takeWhile Symbol.isSpace, Symbol.trim piece⟩ := by
  rw [Symbol.trim, Symbol.trimLeft] at h ⊢
  simp only [ofPiece, h]

end Parens

namespace Offsets

/-- Whether the parenthesis in front of a text is closed at its end. -/
theorem closing_at_end_iff (rest : Text) :
    ((Parens.close? rest).map fun sides => 0 + 1 + Text.byteLength sides.1) =
        some (Text.byteLength rest) ↔
      ∃ inside, Parens.close? rest = some (inside, []) := by
  cases hclose : Parens.close? rest with
  | none => simp
  | some sides =>
    obtain ⟨inside, left⟩ := sides
    obtain ⟨a, ha, hrest⟩ := Parens.eq_of_close? hclose
    rw [Symbol.shown_char] at ha
    have hlength : Text.byteLength rest = Text.byteLength inside + (1 + Text.byteLength left) := by
      rw [hrest, ha, Text.byteLength_append, Text.byteLength_cons]
      rfl
    simp only [Option.map_some, Option.some.injEq, Prod.mk.injEq, exists_eq_left', hlength]
    rw [← Text.byteLength_eq_zero_iff]
    omega

theorem unwrapRange_cons {rest : Text} {start stop : Nat}
    (hstop : stop = start + (1 + Text.byteLength rest)) :
    unwrapRange ('(' :: rest) start stop =
      if ((Parens.close? rest).map fun sides => 0 + 1 + Text.byteLength sides.1) =
          some (Text.byteLength rest) then .ok (start + 1, start + Text.byteLength rest)
      else .ok (start, stop) := by
  have hclosing : closingOffset ('(' :: rest) 0 =
      .ok ((Parens.close? rest).map fun sides => 0 + 1 + Text.byteLength sides.1) :=
    closingOffset_eq (List.nil_append _).symm rfl
  have hlast : subtract (Text.byteLength ('(' :: rest)) 1 = .ok (Text.byteLength rest) :=
    subtract_of_eq_add (Nat.add_comm ..)
  have hinner : subtract stop 1 = .ok (start + Text.byteLength rest) :=
    subtract_of_eq_add (by omega)
  simp only [unwrapRange, List.head?_cons, hclosing, hlast, hinner, bind, Except.bind, if_true]
  rfl

theorem unwrapRange_of_some {value inside : Text} (h : Parens.unwrap? value = some inside)
    {start stop : Nat} (hstop : stop = start + Text.byteLength value) :
    unwrapRange value start stop = .ok (start + 1, start + 1 + Text.byteLength inside) := by
  obtain ⟨a, rest, rfl, ha, hclose⟩ := Parens.exists_of_unwrap? h
  obtain rfl : a = '(' := ha
  obtain ⟨b, hb, hrest⟩ := Parens.eq_of_close? hclose
  obtain rfl : b = ')' := hb
  have hlength : Text.byteLength rest = 1 + Text.byteLength inside := by
    rw [hrest, Text.byteLength_append, Nat.add_comm]
    rfl
  rw [unwrapRange_cons hstop, if_pos ((closing_at_end_iff rest).mpr ⟨inside, hclose⟩), hlength,
    Nat.add_assoc]

theorem unwrapRange_of_none {value : Text} (h : Parens.unwrap? value = none) {start stop : Nat}
    (hstop : stop = start + Text.byteLength value) :
    unwrapRange value start stop = .ok (start, stop) := by
  cases value with
  | nil => rfl
  | cons a rest =>
    by_cases ha : a = '('
    · subst ha
      have hclose : ¬ ∃ inside, Parens.close? rest = some (inside, []) := by
        rintro ⟨inside, hclose⟩
        rw [Parens.unwrap?_of_close? (a := '(') rfl hclose] at h
        cases h
      rw [unwrapRange_cons hstop, if_neg (mt (closing_at_end_iff rest).mp hclose)]
    · rw [unwrapRange, if_neg (by simpa using ha)]

/-- The range of an argument is where its value stands. -/
theorem valueRange_eq {t before piece after : Text} (ht : t = before ++ piece ++ after) :
    valueRange t (Text.byteLength before, Text.byteLength before + Text.byteLength piece) =
      .ok (Text.byteLength before + Text.byteLength (Parens.Argument.ofPiece piece).dropped,
        Text.byteLength before + Text.byteLength (Parens.Argument.ofPiece piece).dropped +
          Text.byteLength (Parens.Argument.ofPiece piece).value) := by
  obtain ⟨trailing, hpiece, -⟩ := Symbol.exists_trimRight piece
  have hended := Symbol.trimRight_eq piece
  generalize hspace : (Symbol.trimRight piece).takeWhile Symbol.isSpace = space at hended
  have hparts : t = (before ++ space) ++ Symbol.trim piece ++ (trailing ++ after) := by
    rw [ht]
    nth_rewrite 1 [hpiece]
    rw [hended]
    simp only [List.append_assoc]
  have hstop : Text.byteLength before + Text.byteLength (Symbol.trimRight piece) =
      Text.byteLength before + Text.byteLength space + Text.byteLength (Symbol.trim piece) := by
    rw [hended, Text.byteLength_append, Nat.add_assoc]
  have hvalue : cut t (Text.byteLength before + Text.byteLength space)
      (Text.byteLength before + Text.byteLength space + Text.byteLength (Symbol.trim piece)) =
        .ok (Symbol.trim piece) := by
    rw [← Text.byteLength_append]
    exact cut_of_parts hparts rfl rfl
  have hrange : valueRange t (Text.byteLength before,
      Text.byteLength before + Text.byteLength piece) =
        unwrapRange (Symbol.trim piece) (Text.byteLength before + Text.byteLength space)
          (Text.byteLength before + Text.byteLength space +
            Text.byteLength (Symbol.trim piece)) := by
    simp only [valueRange, cut_of_parts ht rfl rfl, hstop, subtract_of_eq_add rfl, hvalue, bind,
      Except.bind]
  rw [hrange]
  cases hunwrap : Parens.unwrap? (Symbol.trim piece) with
  | none => rw [unwrapRange_of_none hunwrap rfl, Parens.Argument.ofPiece_of_none hunwrap, hspace]
  | some inside =>
    obtain ⟨a, rest, htrim, ha, -⟩ := Parens.exists_of_unwrap? hunwrap
    obtain rfl : a = '(' := ha
    have hdropped : Text.byteLength (space ++ ['(']) = Text.byteLength space + 1 := by
      rw [Text.byteLength_append]
      rfl
    rw [unwrapRange_of_some hunwrap rfl, Parens.Argument.ofPiece_of_some hunwrap, hspace, htrim,
      List.take_succ_cons, List.take_zero, hdropped, Nat.add_assoc _ _ 1]

theorem mapM_valueRange {t before rest : Text} {pieces : List Text}
    (h : Parens.Separated rest pieces) (ht : t = before ++ rest) :
    (pieceRanges (Text.byteLength before) pieces).mapM (valueRange t) =
      .ok ((Parens.locateFrom (Text.byteLength before) pieces).map Prod.snd) := by
  induction h generalizing before with
  | last piece =>
    rw [← List.append_nil piece, ← List.append_assoc] at ht
    simp only [Parens.locateFrom, Symbol.byteLength_text]
    exact mapM_cons_of_ok (valueRange_eq ht) rfl
  | @comma piece a rest pieces ha _ ih =>
    obtain rfl : a = ',' := ha
    have hlength : Text.byteLength before + Text.byteLength piece + 1 =
        Text.byteLength (before ++ piece ++ [',']) := by
      rw [Text.byteLength_append, Text.byteLength_append]
      rfl
    rw [← List.append_assoc] at ht
    simp only [Parens.locateFrom, pieceRanges, Symbol.byteLength_text, hlength]
    exact mapM_cons_of_ok (valueRange_eq ht) (ih (by rw [ht, List.append_assoc _ [','] _]; rfl))

/-- **Where the arguments are.** No step of the search for the arguments of a call fails, and the
ranges are those of the values. -/
theorem argumentRanges_eq (t : Text) :
    argumentRanges t = .ok ((Parens.locate t).map Prod.snd) := by
  rw [argumentRanges, Parens.locate, Symbol.isEmpty_trim]
  cases Symbol.isBlank t with
  | true => rfl
  | false =>
    have hranges : rangesFrom 0 0 0 (Utf8.encode t) = pieceRanges 0 (Parens.pieces t) :=
      rangesFrom_encode 0 0 [] t
    rw [hranges]
    exact mapM_valueRange (Parens.separated_pieces t) (List.nil_append t).symm

end Offsets

end TextExpander
