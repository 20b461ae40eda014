import Mathlib.Data.List.Forall2
import TextExpander.Proofs.Decoding

/-!
# Bytes under marks

A text is hidden byte by byte: each byte shows as it is or as the mark, and what shows has to be
UTF-8 again. That leaves little choice. A byte with which no character starts cannot stand behind a
mark, and the bytes of a character tell how many there are; so of one character either all bytes are
hidden or none.

## Main definitions

* `Utf8.Masks`: what may show in place of a byte.

## Main results

* `Utf8.eq_of_encodeChar_eq_append`: no character is the start of another.
* `Utf8.masks_encodeChar_iff`: what may show in place of a character.
-/

namespace TextExpander

/-- The byte of the mark. -/
def Offsets.maskByte : UInt8 := 0x23

namespace Utf8

open Offsets (maskByte)

/-- What may show in place of a byte: the byte, or the mark. -/
def Masks (shown real : UInt8) : Prop :=
  shown = real ∨ shown = maskByte

/-! ### Runs of bytes -/

theorem forall₂_masks_self (bytes : List UInt8) : List.Forall₂ Masks bytes bytes :=
  List.forall₂_same.mpr fun _ _ => Or.inl rfl

/-- Marks may show in place of any bytes, one for each. -/
theorem forall₂_masks_replicate (bytes : List UInt8) :
    List.Forall₂ Masks (encode (List.replicate bytes.length mask)) bytes := by
  induction bytes with
  | nil => exact .nil
  | cons b bytes ih => exact .cons (Or.inr rfl) ih

theorem eq_of_masks {bytes bytes' : List UInt8} (h : List.Forall₂ Masks bytes bytes')
    (hmask : maskByte ∉ bytes) : bytes = bytes' := by
  induction h with
  | nil => rfl
  | cons hb _ ih =>
    rw [List.mem_cons, not_or] at hmask
    rw [hb.resolve_right (Ne.symm hmask.1), ih hmask.2]

theorem exists_of_masks_append {front back bytes : List UInt8}
    (h : List.Forall₂ Masks (front ++ back) bytes) :
    ∃ front' back', bytes = front' ++ back' ∧ List.Forall₂ Masks front front' ∧
      List.Forall₂ Masks back back' := by
  have hfront := List.forall₂_take front.length h
  have hback := List.forall₂_drop front.length h
  rw [List.take_left] at hfront
  rw [List.drop_left] at hback
  exact ⟨_, _, (List.take_append_drop ..).symm, hfront, hback⟩

/-! ### Bytes of characters -/

theorem encode_singleton (c : Char) : encode [c] = String.utf8EncodeChar c :=
  List.append_nil _

theorem encode_eq_nil_iff {t : Text} : encode t = [] ↔ t = [] := by
  rw [← List.length_eq_zero_iff, length_encode, Text.byteLength_eq_zero_iff]

theorem eq_mask_of_maskByte_mem {c : Char} (h : maskByte ∈ String.utf8EncodeChar c) : c = mask :=
  eq_of_mem_encodeChar h (by decide)

/-- A character starts with the first of its bytes and with no other. -/
theorem exists_encodeChar (c : Char) :
    ∃ lead more, String.utf8EncodeChar c = lead :: more ∧ lead.IsUTF8FirstByte ∧
      ∀ b ∈ more, ¬ b.IsUTF8FirstByte := by
  obtain ⟨lead, more, hbytes⟩ := List.exists_cons_of_ne_nil (String.utf8EncodeChar_ne_nil (c := c))
  have hfirst : ∀ (i : Nat) (hi : i < (lead :: more).length),
      (lead :: more)[i].IsUTF8FirstByte ↔ i = 0 := by
    rw [← hbytes]
    exact fun i hi => UInt8.isUTF8FirstByte_getElem_utf8EncodeChar
  refine ⟨lead, more, hbytes, (hfirst 0 (Nat.succ_pos _)).mpr rfl, fun b hb h => ?_⟩
  obtain ⟨i, hi, rfl⟩ := List.getElem_of_mem hb
  exact absurd ((hfirst (i + 1) (Nat.succ_lt_succ hi)).mp h) (Nat.succ_ne_zero i)

/-- **No character is the start of another.** -/
theorem eq_of_encodeChar_eq_append {c d : Char} {bytes : List UInt8}
    (h : String.utf8EncodeChar c = String.utf8EncodeChar d ++ bytes) : c = d := by
  obtain ⟨lead, more, hc, hreadc⟩ := readChar_encodeChar c []
  obtain ⟨lead', more', hd, hreadd⟩ := readChar_encodeChar d bytes
  rw [hc, hd, List.cons_append] at h
  obtain ⟨rfl, rfl⟩ := List.cons.inj h
  rw [List.append_nil, hreadd] at hreadc
  exact (Option.some.inj (congrArg Prod.fst hreadc)).symm

/-! ### What may show -/

/-- In place of bytes with which no character starts there can only be marks. -/
theorem eq_replicate_of_masks {s : Text} {bytes : List UInt8}
    (h : List.Forall₂ Masks (encode s) bytes) (hbytes : ∀ b ∈ bytes, ¬ b.IsUTF8FirstByte) :
    s = List.replicate bytes.length mask := by
  induction s generalizing bytes with
  | nil =>
    obtain rfl := List.forall₂_nil_left_iff.mp h
    rfl
  | cons c s ih =>
    obtain ⟨lead, more, hc, hlead, -⟩ := exists_encodeChar c
    rw [encode_cons, hc, List.cons_append] at h
    obtain ⟨b, bytes, hb, hrest, rfl⟩ := List.forall₂_cons_left_iff.mp h
    have hmask : lead = maskByte := by
      rcases hb with rfl | hb
      · exact absurd hlead (hbytes _ List.mem_cons_self)
      · exact hb
    subst hmask
    obtain rfl : c = mask := eq_mask_of_maskByte_mem (hc ▸ List.mem_cons_self)
    obtain rfl : more = [] := (List.cons.inj hc).2.symm
    rw [List.length_cons, List.replicate_succ,
      ← ih hrest fun b hb => hbytes b (List.mem_cons_of_mem _ hb)]

theorem eq_of_masks_encodeChar {s : Text} {c : Char}
    (h : List.Forall₂ Masks (encode s) (String.utf8EncodeChar c)) :
    s = [c] ∨ s = List.replicate c.utf8Size mask := by
  cases s with
  | nil => exact absurd (List.forall₂_nil_left_iff.mp h) String.utf8EncodeChar_ne_nil
  | cons d s =>
    by_cases hd : d = mask
    · -- The first byte is hidden, and no character starts with one of the others.
      subst hd
      obtain ⟨lead, more, hc, -, hmore⟩ := exists_encodeChar c
      rw [encode_cons, hc] at h
      obtain ⟨b, bytes, -, hrest, hcons⟩ := List.forall₂_cons_left_iff.mp h
      obtain ⟨-, rfl⟩ := List.cons.inj hcons
      right
      rw [← String.length_utf8EncodeChar c, hc, List.length_cons, List.replicate_succ,
        ← eq_replicate_of_masks hrest hmore]
    · -- No byte of the first character is hidden, so `c` starts with its bytes.
      left
      rw [encode_cons] at h
      obtain ⟨front, back, hc, hfront, hback⟩ := exists_of_masks_append h
      obtain rfl := eq_of_masks hfront fun hmem => hd (eq_mask_of_maskByte_mem hmem)
      obtain rfl := eq_of_encodeChar_eq_append hc
      obtain rfl : back = [] := List.append_cancel_left (by rw [← hc, List.append_nil])
      rw [encode_eq_nil_iff.mp (List.forall₂_nil_right_iff.mp hback)]

/-- **What may show in place of a character.** The character, or a mark for each of its bytes. -/
theorem masks_encodeChar_iff {s : Text} {c : Char} :
    List.Forall₂ Masks (encode s) (String.utf8EncodeChar c) ↔
      s = [c] ∨ s = List.replicate c.utf8Size mask := by
  refine ⟨eq_of_masks_encodeChar, ?_⟩
  rintro (rfl | rfl)
  · rw [encode_singleton]
    exact forall₂_masks_self _
  · rw [← String.length_utf8EncodeChar c]
    exact forall₂_masks_replicate _

end Utf8

end TextExpander
