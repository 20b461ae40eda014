import TextExpander.Proofs.ArgumentRanges
import TextExpander.Proofs.Balance

/-!
# Matching parentheses

The search for a closing parenthesis goes through a text byte by byte and counts. What it decides is
a language: a text is well nested if it is put together from characters that are no parentheses and
from pairs of parentheses around well nested texts, and an opening parenthesis is matched by the one
closing parenthesis with a well nested text between the two.

The counter and the grammar meet in the symbols that keep every level (`Parens.Neutral`). A well
nested text keeps the level because each of its rules does. Conversely, a text that keeps the level
and starts with an opening parenthesis has a first place where this is closed, and what stands
before and after that place keeps the level again, so the grammar is read off by recursion on
shorter texts.

Offsets are not compared with one another but turned into decompositions first: an offset where an
opening parenthesis stands is the length of what is in front of it. A parenthesis inside a matched
pair then splits the well nested text between the two, which is why it is closed in there, and why
the ranges of two matched pairs never cross.

## Main definitions

* `Text.WellNested`: the texts in which every parenthesis has its partner.
* `Parens.IsPair`: two offsets with matching parentheses.

## Main results

* `Text.wellNested_iff_neutral`: the grammar and the counter say the same.
* `Parens.close?_eq_some_iff`: what stands before the closing parenthesis is well nested.
* `closing_parenthesis_decides_nesting`: the search by offsets, and the order of matched pairs.
-/

namespace TextExpander

/-! ### Well nested texts -/

/-- Every parenthesis of the text has its partner. -/
inductive Text.WellNested : Text → Prop
  /-- Nothing. -/
  | nil : WellNested []
  /-- A character that is no parenthesis, and then the rest. -/
  | char {c : Char} {t : Text} : c ≠ '(' → c ≠ ')' → WellNested t → WellNested (c :: t)
  /-- A pair of parentheses around a text, and then the rest. -/
  | pair {s t : Text} : WellNested s → WellNested t → WellNested ('(' :: s ++ ')' :: t)

namespace Text

open Parens

theorem WellNested.neutral {t : Text} (h : t.WellNested) : Neutral t := by
  induction h with
  | nil => exact fun _ => rfl
  | @char c t hopen hclose _ ih =>
    intro level
    rw [levelAfter?_other hopen hclose, ih level]
  | @pair s t _ _ hs ht =>
    have hsplit : '(' :: s ++ ')' :: t = '(' :: s ++ [')'] ++ t := by simp
    rw [hsplit]
    exact (hs.parenthesized rfl rfl).append ht

/-- Symbols that keep the level and start with an opening parenthesis: it is closed, and both what
it encloses and what follows keep the level. -/
theorem exists_pair_of_neutral {t : Text} (h : Neutral ('(' :: t)) :
    ∃ inside rest, t = inside ++ ')' :: rest ∧ Neutral inside ∧ Neutral rest := by
  have hlevel : levelAfter? 1 t = some 0 := by
    rw [← levelAfter?_opening (a := '(') rfl]
    exact h 0
  obtain ⟨⟨inside, rest⟩, hclose⟩ := Option.isSome_iff_exists.mp (isSome_closeFrom hlevel [])
  obtain ⟨a, ha, rfl⟩ := eq_of_close? hclose
  obtain rfl : a = ')' := ha
  have hinside := neutral_of_close? hclose
  refine ⟨inside, rest, rfl, hinside, ?_⟩
  have hfront : Neutral ('(' :: inside ++ [')']) := hinside.parenthesized rfl rfl
  refine hfront.of_append_right ?_
  have hsplit : '(' :: inside ++ [')'] ++ rest = '(' :: (inside ++ ')' :: rest) := by simp
  rw [hsplit]
  exact h

/-- **The grammar and the counter say the same.** -/
theorem wellNested_iff_neutral {t : Text} : t.WellNested ↔ Neutral t := by
  refine ⟨WellNested.neutral, ?_⟩
  -- What a pair encloses and what follows it are both shorter than the whole.
  induction hn : t.length using Nat.strongRecOn generalizing t with
  | ind n ih =>
    intro h
    match t with
    | [] => exact .nil
    | c :: t =>
      by_cases hopen : c = '('
      · subst hopen
        obtain ⟨inside, rest, rfl, hinside, hrest⟩ := exists_pair_of_neutral h
        simp only [List.length_cons, List.length_append] at hn
        exact .pair (ih _ (by omega) rfl hinside) (ih _ (by omega) rfl hrest)
      by_cases hclose : c = ')'
      · subst hclose
        have hlevel := h 0
        rw [levelAfter?_closing_zero rfl] at hlevel
        cases hlevel
      · have ht : Neutral t := by
          intro level
          rw [← levelAfter?_other (a := c) hopen hclose]
          exact h level
        exact .char hopen hclose (ih _ (by rw [← hn, List.length_cons]; omega) rfl ht)

/-- A parenthesis that opens in a well nested text is closed there. -/
theorem WellNested.exists_close? {s t : Text} (h : (s ++ '(' :: t).WellNested) :
    ∃ inside rest, close? t = some (inside, rest) := by
  have hlevel := h.neutral 0
  rw [levelAfter?_append] at hlevel
  obtain ⟨n, -, hn⟩ := Option.bind_eq_some_iff.mp hlevel
  rw [levelAfter?_opening rfl] at hn
  obtain ⟨⟨inside, rest⟩, hclose⟩ :=
    Option.isSome_iff_exists.mp (isSome_close?_of_closeFrom (isSome_closeFrom hn []))
  exact ⟨inside, rest, hclose⟩

end Text

/-! ### Offsets as decompositions -/

namespace Text

/-- Where a byte of an opening parenthesis stands, an opening parenthesis stands. -/
theorem exists_of_openingByte {t : Text} {n : Nat}
    (h : (Utf8.encode t)[n]? = some Offsets.openingByte) :
    ∃ before after, t = before ++ '(' :: after ∧ n = byteLength before := by
  induction t generalizing n with
  | nil => cases h
  | cons c t ih =>
    have hsize : (String.utf8EncodeChar c).length = c.utf8Size := String.length_utf8EncodeChar c
    rw [Utf8.encode_cons] at h
    by_cases hn : n < c.utf8Size
    · rw [List.getElem?_append_left (hsize ▸ hn)] at h
      -- No other character has this byte, and the parenthesis has no other byte.
      obtain rfl : c = '(' := Utf8.eq_of_mem_encodeChar (List.mem_of_getElem? h) (by decide)
      have hone : '('.utf8Size = 1 := rfl
      exact ⟨[], t, rfl, by rw [byteLength_nil]; omega⟩
    · rw [List.getElem?_append_right (by omega), hsize] at h
      obtain ⟨before, after, rfl, hlength⟩ := ih h
      refine ⟨c :: before, after, rfl, ?_⟩
      rw [byteLength_cons, ← hlength]
      omega

theorem append_inj_of_byteLength {s s' t t' : Text} (h : s ++ t = s' ++ t')
    (hlength : byteLength s = byteLength s') : s = s' ∧ t = t' := by
  have hs : s = s' := by
    rw [← Symbol.takeBytes_append s t, ← Symbol.takeBytes_append s' t', h, hlength]
  subst hs
  exact ⟨rfl, List.append_cancel_left h⟩

/-- Of two places in a text, the one further to the left is in front of the other. -/
theorem exists_of_byteLength_le {s s' t t' : Text} {a b : Char} (h : s ++ a :: t = s' ++ b :: t')
    (hne : s ≠ s') (hle : byteLength s ≤ byteLength s') :
    ∃ u, s' = s ++ a :: u ∧ t = u ++ b :: t' := by
  rcases List.append_eq_append_iff.mp h with ⟨u, rfl, htail⟩ | ⟨u, rfl, -⟩
  · rcases List.cons_eq_append_iff.mp htail with ⟨rfl, -⟩ | ⟨u, rfl, hrest⟩
    · exact absurd (List.append_nil s).symm hne
    · exact ⟨u, rfl, hrest⟩
  · rw [byteLength_append] at hle
    have hnil : u = [] := byteLength_eq_zero_iff.mp (by omega)
    subst hnil
    exact absurd (List.append_nil s') hne

end Text

/-! ### Matched pairs -/

namespace Parens

open Text (WellNested byteLength)

theorem close?_eq_some_iff {t inside rest : Text} :
    close? t = some (inside, rest) ↔ t = inside ++ ')' :: rest ∧ inside.WellNested := by
  constructor
  · intro h
    obtain ⟨a, ha, hparts⟩ := eq_of_close? h
    obtain rfl : a = ')' := ha
    exact ⟨hparts, Text.wellNested_iff_neutral.mpr (neutral_of_close? h)⟩
  · rintro ⟨rfl, hinside⟩
    exact close?_of_neutral hinside.neutral rfl rest

theorem closeOffset?_of_parts (before after : Text) :
    closeOffset? (before ++ '(' :: after) (byteLength before) =
      (close? after).map fun sides => byteLength before + 1 + byteLength sides.1 := by
  rw [closeOffset?, Symbol.dropBytes_append, List.drop_one, List.tail_cons]
  simp only [Symbol.byteLength_text]

/-- At the two offsets stand parentheses with a well nested text between them. -/
def IsPair (t : Text) (opening close : Nat) : Prop :=
  ∃ w : Text, w.WellNested ∧ Offsets.cut t opening (close + 1) = .ok ('(' :: w ++ [')'])

theorem isPair_iff {before after : Text} {close : Nat} :
    IsPair (before ++ '(' :: after) (byteLength before) close ↔
      ∃ inside rest, close? after = some (inside, rest) ∧
        close = byteLength before + 1 + byteLength inside := by
  have hlength : ∀ w : Text, byteLength ('(' :: w ++ [')']) = 1 + byteLength w + 1 := by
    intro w
    rw [Text.byteLength_append]
    rfl
  simp only [close?_eq_some_iff]
  constructor
  · rintro ⟨w, hw, hcut⟩
    obtain ⟨front, rest, hparts, hopening, hclose⟩ := Offsets.cut_eq_ok_iff.mp hcut
    rw [List.append_assoc] at hparts
    obtain ⟨-, hafter⟩ := Text.append_inj_of_byteLength hparts hopening
    rw [hlength] at hclose
    refine ⟨w, rest, ⟨by simpa using hafter, hw⟩, by omega⟩
  · rintro ⟨inside, rest, ⟨rfl, hinside⟩, rfl⟩
    have hparts : before ++ '(' :: (inside ++ ')' :: rest) =
        before ++ ('(' :: inside ++ [')']) ++ rest := by simp
    refine ⟨inside, hinside, Offsets.cut_of_parts hparts rfl ?_⟩
    rw [hlength]
    omega

theorem closeOffset?_eq_some_iff {before after : Text} {close : Nat} :
    closeOffset? (before ++ '(' :: after) (byteLength before) = some close ↔
      IsPair (before ++ '(' :: after) (byteLength before) close := by
  rw [closeOffset?_of_parts, isPair_iff, Option.map_eq_some_iff, Prod.exists]
  simp only [eq_comm]

/-- **Inside a matched pair.** A parenthesis that opens between two matching ones is closed between
them. -/
theorem exists_closeOffset?_inside {before after front back : Text} {close : Nat}
    (ht : before ++ '(' :: after = front ++ '(' :: back)
    (hclose : closeOffset? (before ++ '(' :: after) (byteLength before) = some close)
    (hfirst : byteLength before < byteLength front) (hlast : byteLength front ≤ close) :
    ∃ inner, closeOffset? (before ++ '(' :: after) (byteLength front) = some inner ∧
      inner < close := by
  rw [closeOffset?_of_parts] at hclose
  obtain ⟨⟨inside, rest⟩, hsides, rfl⟩ := Option.map_eq_some_iff.mp hclose
  obtain ⟨rfl, hinside⟩ := close?_eq_some_iff.mp hsides
  have hfront : before ≠ front := by
    rintro rfl
    exact Nat.lt_irrefl _ hfirst
  obtain ⟨left, rfl, hleft⟩ := Text.exists_of_byteLength_le ht hfront (Nat.le_of_lt hfirst)
  have hopening : '('.utf8Size = 1 := rfl
  have hclosing : ')'.utf8Size = 1 := rfl
  -- The second parenthesis cuts what the pair encloses in two.
  have hlength : byteLength left ≤ byteLength inside := by
    simp only [Text.byteLength_append, Text.byteLength_cons] at hlast
    omega
  have hne : left ≠ inside := by
    rintro rfl
    cases List.append_cancel_left hleft
  obtain ⟨right, rfl, rfl⟩ := Text.exists_of_byteLength_le hleft.symm hne hlength
  obtain ⟨enclosed, tail, hinner⟩ := hinside.exists_close?
  rw [ht, closeOffset?_of_parts, close?_append hinner]
  refine ⟨_, rfl, ?_⟩
  obtain ⟨rfl, -⟩ := close?_eq_some_iff.mp hinner
  simp only [Text.byteLength_append, Text.byteLength_cons]
  omega

/-- Of two matched pairs, the one that opens first closes before the other opens, or after it
closes. -/
theorem order_of_closeOffset? {before after front back : Text} {close close' : Nat}
    (ht : before ++ '(' :: after = front ++ '(' :: back)
    (hclose : closeOffset? (before ++ '(' :: after) (byteLength before) = some close)
    (hclose' : closeOffset? (before ++ '(' :: after) (byteLength front) = some close')
    (hfirst : byteLength before < byteLength front) :
    close < byteLength front ∨ close' < close := by
  by_cases hlast : byteLength front ≤ close
  · obtain ⟨inner, hinner, hlt⟩ := exists_closeOffset?_inside ht hclose hfirst hlast
    obtain rfl := Option.some.inj (hinner.symm.trans hclose')
    exact .inr hlt
  · exact .inl (Nat.lt_of_not_le hlast)

end Parens

/-- **The closing parenthesis decides nesting.** Where an opening parenthesis stands, the search
byte by byte never takes its counter below zero and gives what the search by characters gives. This
is the one offset up to which the text from the parenthesis on is a well nested text in parentheses,
and nothing if there is no such offset. Of two matched pairs one stands before the other, or one is
inside the other; and a parenthesis that opens inside a matched pair is closed inside it. -/
theorem closing_parenthesis_decides_nesting (t : Text) (opening : Nat)
    (h : (Utf8.encode t)[opening]? = some Offsets.openingByte) :
    Offsets.closingOffset t opening = .ok (Parens.closeOffset? t opening) ∧
      (∀ close, Parens.closeOffset? t opening = some close ↔ Parens.IsPair t opening close) ∧
      (∀ close close', Parens.IsPair t opening close → Parens.IsPair t opening close' →
        close = close') ∧
      (Parens.closeOffset? t opening = none ↔ ¬ ∃ close, Parens.IsPair t opening close) ∧
      ∀ opening' close, (Utf8.encode t)[opening']? = some Offsets.openingByte →
        Parens.closeOffset? t opening = some close →
          (∀ close', Parens.closeOffset? t opening' = some close' →
            opening = opening' ∨ close < opening' ∨ close' < opening ∨
              opening < opening' ∧ close' < close ∨ opening' < opening ∧ close < close') ∧
          (opening < opening' → opening' < close →
            ∃ close', Parens.closeOffset? t opening' = some close' ∧ close' < close) := by
  obtain ⟨before, after, rfl, rfl⟩ := Text.exists_of_openingByte h
  have hpair : ∀ close, Parens.closeOffset? (before ++ '(' :: after) (Text.byteLength before) =
      some close ↔ Parens.IsPair (before ++ '(' :: after) (Text.byteLength before) close :=
    fun _ => Parens.closeOffset?_eq_some_iff
  refine ⟨?_, hpair, fun close close' hclose hclose' => ?_, ?_, ?_⟩
  · rw [Offsets.closingOffset_eq rfl rfl, Parens.closeOffset?_of_parts]
  · rw [← hpair] at hclose hclose'
    exact Option.some.inj (hclose.symm.trans hclose')
  · simp only [← hpair, Option.eq_none_iff_forall_ne_some, not_exists]
  · intro opening' close h' hclose
    obtain ⟨front, back, ht, rfl⟩ := Text.exists_of_openingByte h'
    refine ⟨fun close' hclose' => ?_, fun hfirst hlast => ?_⟩
    · rcases Nat.lt_trichotomy (Text.byteLength before) (Text.byteLength front) with
        hfirst | hsame | hfirst
      · have horder := Parens.order_of_closeOffset? ht hclose hclose' hfirst
        omega
      · exact .inl hsame
      · rw [ht] at hclose hclose'
        have horder := Parens.order_of_closeOffset? ht.symm hclose' hclose hfirst
        omega
    · exact Parens.exists_closeOffset?_inside ht hclose hfirst (Nat.le_of_lt hlast)

/-- A pair in a pair, a pair after it, and a parenthesis that is never closed; the first character
has two bytes. -/
theorem closing_parentheses_of_nested_pairs :
    let t := "éf(a, (b), c)(d)(".toList
    (Utf8.encode t)[3]? = some Offsets.openingByte ∧
      (Utf8.encode t)[7]? = some Offsets.openingByte ∧
      Parens.closeOffset? t 3 = some 13 ∧ Parens.IsPair t 3 13 ∧
      (∃ close, Parens.closeOffset? t 7 = some close ∧ close < 13) ∧
      ¬ ∃ close, Parens.IsPair t 17 close := by
  intro t
  have hfirst : (Utf8.encode t)[3]? = some Offsets.openingByte := by decide +kernel
  have hsecond : (Utf8.encode t)[7]? = some Offsets.openingByte := by decide +kernel
  have hlast : (Utf8.encode t)[17]? = some Offsets.openingByte := by decide +kernel
  have hclose : Parens.closeOffset? t 3 = some 13 := by decide +kernel
  obtain ⟨-, hpair, -, -, hranges⟩ := closing_parenthesis_decides_nesting t 3 hfirst
  obtain ⟨-, -, -, hnone, -⟩ := closing_parenthesis_decides_nesting t 17 hlast
  refine ⟨hfirst, hsecond, hclose, (hpair 13).mp hclose, ?_, hnone.mp (by decide +kernel)⟩
  exact (hranges 7 13 hsecond hclose).2 (by decide) (by decide)

end TextExpander
