import TextExpander.Proofs.Cuts

/-!
# Bytes read back

What a run writes are bytes, and what is collected of it is text again. The reader of bytes is made
for any bytes: it takes the second byte of a character within bounds that depend on the first, so
that overlong forms, surrogates and code points beyond the last are ill-formed. The encoding of a
character stays within these bounds, so the reader finds the character and stops behind it.

The bounds are given by bytes. They are first said by numbers, since the bytes of an encoding are
given by quotients and remainders of the code point.

## Main results

* `Utf8.readChar_encodeChar`: a character is read back from its encoding, whatever follows.
* `Utf8.decodeLossy_encode`: a text is read back from its encoding.
-/

namespace TextExpander

namespace Utf8

/-! ### The first byte, by numbers -/

theorem width_eq (lead : UInt8) :
    width lead =
      if lead.toNat < 0x80 then 1
      else if 0xC2 ≤ lead.toNat ∧ lead.toNat ≤ 0xDF then 2
      else if 0xE0 ≤ lead.toNat ∧ lead.toNat ≤ 0xEF then 3
      else if 0xF0 ≤ lead.toNat ∧ lead.toNat ≤ 0xF4 then 4
      else 0 := by
  simp only [width, UInt8.lt_iff_toNat_lt, UInt8.le_iff_toNat_le]
  rfl

theorem leadBits_eq (lead : UInt8) :
    leadBits lead =
      if lead.toNat < 0xE0 then lead.toNat - 0xC0
      else if lead.toNat < 0xF0 then lead.toNat - 0xE0
      else lead.toNat - 0xF0 := by
  simp only [leadBits, UInt8.lt_iff_toNat_lt]
  rfl

theorem toNat_secondMin (lead : UInt8) :
    (secondMin lead).toNat =
      if lead.toNat = 0xE0 then 0xA0 else if lead.toNat = 0xF0 then 0x90 else 0x80 := by
  simp only [secondMin, ← UInt8.toNat_inj, apply_ite UInt8.toNat]
  rfl

theorem toNat_secondMax (lead : UInt8) :
    (secondMax lead).toNat =
      if lead.toNat = 0xED then 0x9F else if lead.toNat = 0xF4 then 0x8F else 0xBF := by
  simp only [secondMax, ← UInt8.toNat_inj, apply_ite UInt8.toNat]
  rfl

/-! ### One character -/

/-- A continuation byte that fits puts six bits onto the code point. -/
theorem continuation_ofNat {n value bits : Nat} {lo hi : UInt8} (hbits : bits < 64)
    (hlo : lo.toNat ≤ bits + 128) (hhi : bits + 128 ≤ hi.toNat) (rest : List UInt8) :
    continuation (n + 1) value lo hi (UInt8.ofNat (bits + 128) :: rest) =
      continuation n (value * 64 + bits) 0x80 0xBF rest := by
  have hbyte : (UInt8.ofNat (bits + 128)).toNat = bits + 128 :=
    UInt8.toNat_ofNat_of_lt (show _ < 0x100 by omega)
  have hfits : lo ≤ UInt8.ofNat (bits + 128) ∧ UInt8.ofNat (bits + 128) ≤ hi := by
    rw [UInt8.le_iff_toNat_le, UInt8.le_iff_toNat_le, hbyte]
    exact ⟨hlo, hhi⟩
  rw [continuation, if_pos hfits, hbyte, Nat.add_sub_cancel]

/-- Bytes after the second have the same bounds, whatever the first. -/
theorem continuation_ofNat_later {n value bits : Nat} (hbits : bits < 64) (rest : List UInt8) :
    continuation (n + 1) value 0x80 0xBF (UInt8.ofNat (bits + 128) :: rest) =
      continuation n (value * 64 + bits) 0x80 0xBF rest := by
  apply continuation_ofNat hbits
  · exact Nat.le_add_left 128 bits
  · change bits + 128 ≤ 191
    omega

/-- A character of more than one byte is read by its continuation bytes. -/
theorem readChar_of_continuation {c : Char} {lead : UInt8} {n : Nat} {bytes rest : List UInt8}
    (hwidth : width lead = n + 2)
    (h : continuation (n + 1) (leadBits lead) (secondMin lead) (secondMax lead) bytes =
      (some c.toNat, rest)) :
    readChar lead bytes = (some c, rest) := by
  rw [readChar, hwidth]
  simp only [h, Option.map_some, Char.ofNat_toNat]

/-- **Reading undoes writing, one character at a time.** -/
theorem readChar_encodeChar (c : Char) (rest : List UInt8) :
    ∃ lead more, String.utf8EncodeChar c = lead :: more ∧
      readChar lead (more ++ rest) = (some c, rest) := by
  fun_cases String.utf8EncodeChar c with
  | case1 v h =>
    refine ⟨UInt8.ofNat v, [], rfl, ?_⟩
    have hlead : (UInt8.ofNat v).toNat = c.toNat :=
      UInt8.toNat_ofNat_of_lt (show _ < 0x100 by omega)
    have hlt : c.toNat ≤ 0x7F := h
    have hwidth : width (UInt8.ofNat v) = 1 := by
      rw [width_eq, hlead, if_pos (by omega)]
    rw [readChar, hwidth]
    simp only [hlead, Char.ofNat_toNat, List.nil_append]
  | case2 v _ h =>
    refine ⟨_, [_], rfl, ?_⟩
    have hv : c.toNat = v := rfl
    have hlead : (UInt8.ofNat (v / 64 % 32 + 192)).toNat = v / 64 % 32 + 192 :=
      UInt8.toNat_ofNat_of_lt (show _ < 0x100 by omega)
    refine readChar_of_continuation (n := 0) ?_ ?_
    · rw [width_eq, hlead, if_neg (by omega), if_pos (by omega)]
    · rw [List.singleton_append, continuation_ofNat (by omega), continuation, leadBits_eq, hlead,
        hv, if_pos (by omega)]
      · congr 2
        omega
      · rw [toNat_secondMin, hlead, if_neg (by omega), if_neg (by omega)]
        omega
      · rw [toNat_secondMax, hlead, if_neg (by omega), if_neg (by omega)]
        omega
  | case3 v _ _ h =>
    refine ⟨_, [_, _], rfl, ?_⟩
    have hv : c.toNat = v := rfl
    -- There are no surrogates, so the second byte after 0xED is below 0xA0.
    have hvalid : v < 0xD800 ∨ 0xDFFF < v ∧ v < 0x110000 := c.valid
    have hlead : (UInt8.ofNat (v / 4096 % 16 + 224)).toNat = v / 4096 % 16 + 224 :=
      UInt8.toNat_ofNat_of_lt (show _ < 0x100 by omega)
    refine readChar_of_continuation (n := 1) ?_ ?_
    · rw [width_eq, hlead, if_neg (by omega), if_neg (by omega), if_pos (by omega)]
    · rw [List.cons_append, List.singleton_append, continuation_ofNat (by omega),
        continuation_ofNat_later (by omega), continuation, leadBits_eq, hlead, hv,
        if_neg (by omega), if_pos (by omega)]
      · congr 2
        omega
      · rw [toNat_secondMin, hlead]
        split_ifs <;> omega
      · rw [toNat_secondMax, hlead]
        split_ifs <;> omega
  | case4 v _ _ h =>
    refine ⟨_, [_, _, _], rfl, ?_⟩
    have hv : c.toNat = v := rfl
    have hvalid : v < 0xD800 ∨ 0xDFFF < v ∧ v < 0x110000 := c.valid
    have hlead : (UInt8.ofNat (v / 262144 % 8 + 240)).toNat = v / 262144 % 8 + 240 :=
      UInt8.toNat_ofNat_of_lt (show _ < 0x100 by omega)
    refine readChar_of_continuation (n := 2) ?_ ?_
    · rw [width_eq, hlead, if_neg (by omega), if_neg (by omega), if_neg (by omega),
        if_pos (by omega)]
    · rw [List.cons_append, List.cons_append, List.singleton_append, continuation_ofNat (by omega),
        continuation_ofNat_later (by omega), continuation_ofNat_later (by omega), continuation,
        leadBits_eq, hlead, hv, if_neg (by omega), if_neg (by omega)]
      · congr 2
        omega
      · rw [toNat_secondMin, hlead]
        split_ifs <;> omega
      · rw [toNat_secondMax, hlead]
        split_ifs <;> omega

/-! ### A text -/

theorem scalarsFrom_encode (seen : List (Option Char)) (t : Text) :
    scalarsFrom seen (encode t) = seen.reverse ++ t.map some := by
  induction t generalizing seen with
  | nil =>
    rw [encode, List.flatMap_nil, scalarsFrom, List.map_nil, List.append_nil]
  | cons c t ih =>
    obtain ⟨lead, more, hbytes, hread⟩ := readChar_encodeChar c (encode t)
    rw [encode_cons, hbytes, List.cons_append, scalarsFrom, hread, ih]
    simp

/-- **A text is read back from its encoding.** -/
theorem decodeLossy_encode (t : Text) : decodeLossy (encode t) = t := by
  have hscalars : scalars (encode t) = t.map some := scalarsFrom_encode [] t
  rw [decodeLossy, hscalars, List.map_map]
  exact List.map_id t

end Utf8

end TextExpander
