import TextExpander.Proofs.Offsets
import TextExpander.Proofs.Whole

/-!
# Cuts and parts

A cut by offsets gives what a decomposition says it should give: if a text is `before ++ part ++
after`, then the cut at the lengths of `before` and of `before ++ part` is `part`. So every offset
is dealt with by naming the parts around it, and the checks of the cut hold for the reason that
there are such parts. For a fragment the parts have to be whole, since then text and scan of each
part have the same length.

## Main results

* `Offsets.cut_eq_ok_iff`: what a cut checks.
* `Views.cut_of_parts`: cuts of whole fragments.
* `Utf8.toNat_eq_of_mem_encodeChar`: an ASCII byte belongs to no other character.
-/

namespace TextExpander

/-! ### Bytes of characters -/

namespace Utf8

/-- A byte below 0x80 in the encoding of a character is the character. -/
theorem toNat_eq_of_mem_encodeChar {c : Char} {b : UInt8} (hmem : b ∈ String.utf8EncodeChar c)
    (hlt : b.toNat < 0x80) : c.toNat = b.toNat := by
  revert hmem
  fun_cases String.utf8EncodeChar c with
  | case1 v h =>
    intro hmem
    rw [List.mem_singleton] at hmem
    rw [hmem, UInt8.toNat_ofNat', Nat.mod_eq_of_lt (by omega)]
    rfl
  -- All bytes of a longer encoding are at least 0x80.
  | case2 v _ h =>
    intro hmem
    simp only [List.mem_cons, List.not_mem_nil, or_false] at hmem
    rcases hmem with rfl | rfl <;> rw [UInt8.toNat_ofNat'] at hlt <;> omega
  | case3 v _ _ h =>
    intro hmem
    simp only [List.mem_cons, List.not_mem_nil, or_false] at hmem
    rcases hmem with rfl | rfl | rfl <;> rw [UInt8.toNat_ofNat'] at hlt <;> omega
  | case4 v _ _ h =>
    intro hmem
    simp only [List.mem_cons, List.not_mem_nil, or_false] at hmem
    rcases hmem with rfl | rfl | rfl | rfl <;> rw [UInt8.toNat_ofNat'] at hlt <;> omega

theorem eq_of_mem_encodeChar {c d : Char} (hmem : UInt8.ofNat d.toNat ∈ String.utf8EncodeChar c)
    (hd : d.toNat < 0x80) : c = d := by
  have hbyte : (UInt8.ofNat d.toNat).toNat = d.toNat := by
    rw [UInt8.toNat_ofNat', Nat.mod_eq_of_lt (by omega)]
  apply Char.toNat_inj.mp
  rw [toNat_eq_of_mem_encodeChar hmem (by omega), hbyte]

theorem encode_cons (c : Char) (t : Text) :
    encode (c :: t) = String.utf8EncodeChar c ++ encode t := rfl

theorem encode_append (s t : Text) : encode (s ++ t) = encode s ++ encode t :=
  List.flatMap_append

theorem length_encode (t : Text) : (encode t).length = Text.byteLength t := by
  induction t with
  | nil => rfl
  | cons c t ih =>
    rw [encode_cons, List.length_append, String.length_utf8EncodeChar, ih, Text.byteLength_cons]

end Utf8

/-! ### Cuts -/

namespace Text

@[simp]
theorem byteLength_reverse (t : Text) : byteLength t.reverse = byteLength t := by
  induction t with
  | nil => rfl
  | cons c t ih =>
    rw [List.reverse_cons, byteLength_append, ih, byteLength_cons, byteLength_cons, Nat.add_comm]
    rfl

theorem byteLength_eq_zero_iff {t : Text} : byteLength t = 0 ↔ t = [] := by
  cases t with
  | nil => simp
  | cons c t =>
    have hpos : 0 < c.utf8Size := c.utf8Size_pos
    simp only [byteLength_cons, reduceCtorEq, iff_false]
    omega

/-- The first character of a text makes its length positive. -/
theorem exists_byteLength_cons (c : Char) (t : Text) : ∃ n, byteLength (c :: t) = n + 1 := by
  have hpos : 0 < c.utf8Size := c.utf8Size_pos
  exact Nat.exists_eq_add_one.mpr (by rw [byteLength_cons]; omega)

end Text

namespace Symbol

@[simp]
theorem byteLength_text (t : Text) : byteLength t = Text.byteLength t := by
  rw [byteLength, chars_text]

variable {α : Type} [Symbol α]

theorem byteLength_nil : byteLength ([] : List α) = 0 := rfl

theorem byteLength_cons (a : α) (xs : List α) :
    byteLength (a :: xs) = (shown a).utf8Size + byteLength xs := rfl

/-- The first symbol of a run makes its length positive. -/
theorem exists_byteLength_cons (a : α) (xs : List α) : ∃ n, byteLength (a :: xs) = n + 1 :=
  Text.exists_byteLength_cons (shown a) (chars xs)

theorem dropBytes_byteLength_append (xs ys : List α) :
    dropBytes (byteLength xs) (xs ++ ys) = ys := by
  induction xs with
  | nil => rw [byteLength_nil, dropBytes, List.nil_append]
  | cons a xs ih =>
    obtain ⟨n, hn⟩ := exists_byteLength_cons a xs
    rw [hn, List.cons_append, dropBytes, ← hn, byteLength_cons, Nat.add_sub_cancel_left, ih]

theorem takeBytes_byteLength_append (xs ys : List α) :
    takeBytes (byteLength xs) (xs ++ ys) = xs := by
  induction xs with
  | nil => rw [byteLength_nil, takeBytes]
  | cons a xs ih =>
    obtain ⟨n, hn⟩ := exists_byteLength_cons a xs
    rw [hn, List.cons_append, takeBytes, ← hn, byteLength_cons, Nat.add_sub_cancel_left, ih]

theorem dropBytes_append (s t : Text) : dropBytes (Text.byteLength s) (s ++ t) = t := by
  rw [← byteLength_text, dropBytes_byteLength_append]

theorem takeBytes_append (s t : Text) : takeBytes (Text.byteLength s) (s ++ t) = s := by
  rw [← byteLength_text, takeBytes_byteLength_append]

end Symbol

namespace Offsets

/-- A list is gone through without an error if each of its members is. -/
theorem mapM_cons_of_ok {ι κ : Type} {f : ι → Except Stop κ} {a : ι} {as : List ι} {b : κ}
    {bs : List κ} (ha : f a = .ok b) (has : as.mapM f = .ok bs) :
    (a :: as).mapM f = .ok (b :: bs) := by
  rw [List.mapM_cons, ha, has]
  rfl

theorem subtract_of_eq_add {a b c : Nat} (h : a = c + b) : subtract a b = .ok c := by
  rw [subtract, if_pos (by omega), h, Nat.add_sub_cancel]

/-- Behind a part of a text its boundaries are those of the rest. -/
theorem isBoundary_append_add (s t : Text) (n : Nat) :
    isBoundary (s ++ t) (Text.byteLength s + n) = isBoundary t n := by
  induction s with
  | nil => rw [List.nil_append, Text.byteLength_nil, Nat.zero_add]
  | cons c s ih =>
    obtain ⟨k, hk⟩ := Text.exists_byteLength_cons c s
    rw [hk, Nat.add_right_comm, List.cons_append, isBoundary, ← Nat.add_right_comm, ← hk,
      Text.byteLength_cons, Nat.add_assoc, Nat.add_sub_cancel_left, ih,
      decide_eq_true (Nat.le_add_right ..), Bool.true_and]

theorem isBoundary_append (s t : Text) : isBoundary (s ++ t) (Text.byteLength s) = true := by
  rw [← Nat.add_zero (Text.byteLength s), isBoundary_append_add, isBoundary]

/-- A boundary has whole characters on both sides. -/
theorem isBoundary_iff {t : Text} {n : Nat} :
    isBoundary t n = true ↔ ∃ before after, t = before ++ after ∧ n = Text.byteLength before := by
  constructor
  · intro h
    fun_induction isBoundary t n with
    | case1 t => exact ⟨[], t, rfl, rfl⟩
    | case2 => cases h
    | case3 c rest n ih =>
      rw [Bool.and_eq_true, decide_eq_true_eq] at h
      obtain ⟨before, after, rfl, hlength⟩ := ih h.2
      refine ⟨c :: before, after, rfl, ?_⟩
      rw [Text.byteLength_cons]
      omega
  · rintro ⟨before, after, rfl, rfl⟩
    exact isBoundary_append before after

/-- A cut between two parts of a text is in order, within bounds and between characters. -/
theorem cut_of_parts {t before part after : Text} {start stop : Nat}
    (ht : t = before ++ part ++ after) (hstart : start = Text.byteLength before)
    (hstop : stop = Text.byteLength before + Text.byteLength part) :
    cut t start stop = .ok part := by
  subst ht hstart hstop
  have hbounds : Text.byteLength before + Text.byteLength part ≤
      Text.byteLength (before ++ part ++ after) := by
    rw [Text.byteLength_append, Text.byteLength_append]
    exact Nat.le_add_right ..
  have hstart : isBoundary (before ++ part ++ after) (Text.byteLength before) = true := by
    rw [List.append_assoc]
    exact isBoundary_append ..
  have hstop : isBoundary (before ++ part ++ after)
      (Text.byteLength before + Text.byteLength part) = true := by
    rw [← Text.byteLength_append]
    exact isBoundary_append ..
  rw [cut, if_pos ⟨Nat.le_add_right .., hbounds, hstart, hstop⟩, Nat.add_sub_cancel_left,
    List.append_assoc, Symbol.dropBytes_append, Symbol.takeBytes_append]

/-- **What a cut checks.** It succeeds exactly where there are parts to cut between. -/
theorem cut_eq_ok_iff {t part : Text} {start stop : Nat} :
    cut t start stop = .ok part ↔
      ∃ before after, t = before ++ part ++ after ∧ start = Text.byteLength before ∧
        stop = Text.byteLength before + Text.byteLength part := by
  constructor
  · intro h
    have hchecks := h
    rw [cut] at hchecks
    split_ifs at hchecks with hbounds
    obtain ⟨hle, -, hstart, hstop⟩ := hbounds
    obtain ⟨before, rest, rfl, rfl⟩ := isBoundary_iff.mp hstart
    obtain ⟨upTo, after, heq, rfl⟩ := isBoundary_iff.mp hstop
    -- The two boundaries are in order, so the first part is the start of the second.
    have hmiddle : ∃ middle, upTo = before ++ middle := by
      rcases List.append_eq_append_iff.mp heq with ⟨middle, hmiddle, -⟩ | ⟨extra, hextra, -⟩
      · exact ⟨middle, hmiddle⟩
      · rw [hextra, Text.byteLength_append] at hle
        have hnil : extra = [] := Text.byteLength_eq_zero_iff.mp (by omega)
        exact ⟨[], by rw [hextra, hnil, List.append_nil, List.append_nil]⟩
    obtain ⟨middle, rfl⟩ := hmiddle
    rw [cut_of_parts heq rfl (Text.byteLength_append ..)] at h
    obtain rfl := Except.ok.inj h
    exact ⟨before, after, heq, rfl, Text.byteLength_append ..⟩
  · rintro ⟨before, after, ht, hstart, hstop⟩
    exact cut_of_parts ht hstart hstop

end Offsets

/-- The two texts of a fragment. -/
def Fragment.views (f : Fragment) : Views :=
  ⟨f.text, f.scan⟩

namespace Fragment

@[simp] theorem text_views (f : Fragment) : f.views.text = f.text := rfl

@[simp] theorem scan_views (f : Fragment) : f.views.scan = f.scan := rfl

theorem byteLength_scan_append (f g : Fragment) :
    Text.byteLength (scan (f ++ g)) = Text.byteLength (scan f) + Text.byteLength (scan g) := by
  rw [scan_append, Text.byteLength_append]

theorem views_plain (t : Text) : (plain t).views = Views.plain t := by
  rw [views, text_plain, scan_plain, Views.plain]

theorem views_literal (t : Text) : (literal t).views = Views.literal t := by
  rw [views, text_literal, scan_literal, Views.literal]

theorem views_append (f g : Fragment) : (f ++ g).views = f.views.push g.views := by
  rw [views, text_append, scan_append]
  rfl

end Fragment

/-- A fragment may be cut between whole parts, by the offsets of its scan. -/
theorem Views.cut_of_parts {f before part after : Fragment} {start stop : Nat}
    (hf : f = before ++ part ++ after) (hbefore : before.Whole) (hpart : part.Whole)
    (hstart : start = Text.byteLength before.scan)
    (hstop : stop = Text.byteLength before.scan + Text.byteLength part.scan) :
    f.views.cut start stop = .ok part.views := by
  have htexts : f.text = before.text ++ part.text ++ after.text := by
    rw [hf, Fragment.text_append, Fragment.text_append]
  have hscans : f.scan = before.scan ++ part.scan ++ after.scan := by
    rw [hf, Fragment.scan_append, Fragment.scan_append]
  have htext : Offsets.cut f.text start stop = .ok part.text := by
    apply Offsets.cut_of_parts htexts
    · rw [hstart, hbefore.byteLength_text]
    · rw [hstop, hbefore.byteLength_text, hpart.byteLength_text]
  have hscan : Offsets.cut f.scan start stop = .ok part.scan :=
    Offsets.cut_of_parts hscans hstart hstop
  rw [Views.cut, Fragment.text_views, Fragment.scan_views, htext, hscan]
  rfl

end TextExpander
