import TextExpander.Proofs.Masking

/-!
# Text and scan stay aligned

A fragment is made of plain and of protected text, pushed one after the other and cut between the
characters of what stands there. The scanner finds offsets in the scan, and they are used in the
text; so the two have to fit together byte by byte. Hiding works on bytes, but cutting works on
characters, and the characters of the two texts differ: an offset in the middle of a protected
character is a boundary of the scan only. What is kept is that every boundary of the text is one of
the scan.

The fragments that can be made are those of whole characters, and these can be cut wherever their
text can. All that is said about a fragment that was made is said about whole characters, one after
the other. It is also all there is to say: two texts that fit together are the two views of a
fragment that can be made.

## Main definitions

* `Offsets.IsRange`: two offsets between which a text can be cut.
* `Fragment.Made`: the fragments that can be made.
* `Views.Aligned`: what it means that text and scan fit together.

## Main results

* `Fragment.made_iff_whole`: the fragments that can be made are those of whole characters.
* `Fragment.Whole.cut_eq_slice`: to slice a fragment is to cut its text and its scan.
* `Views.aligned_iff_made`: texts that fit together are the views of a fragment that can be made.
* `text_and_scan_stay_aligned`: the views of every fragment that can be made fit together.
-/

namespace TextExpander

/-! ### Ranges -/

namespace Offsets

/-- Two offsets in order, each between two characters of a text or at one of its ends. -/
def IsRange (t : Text) (start stop : Nat) : Prop :=
  start ≤ stop ∧ isBoundary t start = true ∧ isBoundary t stop = true

instance (t : Text) (start stop : Nat) : Decidable (IsRange t start stop) :=
  inferInstanceAs (Decidable (_ ∧ _ ∧ _))

theorem isBoundary_le {t : Text} {n : Nat} (h : isBoundary t n = true) : n ≤ Text.byteLength t := by
  obtain ⟨before, after, rfl, rfl⟩ := isBoundary_iff.mp h
  rw [Text.byteLength_append]
  exact Nat.le_add_right ..

/-- A text can be cut between the offsets of a range, and between no others. -/
theorem isRange_iff {t : Text} {start stop : Nat} :
    IsRange t start stop ↔ ∃ part, cut t start stop = .ok part := by
  constructor
  · rintro ⟨hle, hstart, hstop⟩
    exact ⟨_, if_pos ⟨hle, isBoundary_le hstop, hstart, hstop⟩⟩
  · rintro ⟨part, h⟩
    rw [cut] at h
    split_ifs at h with hbounds
    exact ⟨hbounds.1, hbounds.2.2⟩

end Offsets

/-! ### Fragments -/

namespace Fragment

open Offsets (IsRange)

/-- The fragments that can be made of plain and of protected text. -/
inductive Made : Fragment → Prop
  /-- Text that is scanned as it is written. -/
  | plain (t : Text) : Made (plain t)
  /-- Text that is never scanned. -/
  | literal (t : Text) : Made (literal t)
  /-- One fragment pushed onto another, which may be the same one. -/
  | push {f g : Fragment} : Made f → Made g → Made (f ++ g)
  /-- A part of a fragment, cut between characters of its text. -/
  | slice {f : Fragment} {start stop : Nat} : Made f → IsRange f.text start stop →
      Made (f.slice start stop)

theorem slice_of_parts {f before part after : Fragment} {start stop : Nat}
    (hf : f = before ++ part ++ after) (hstart : start = Text.byteLength before.scan)
    (hstop : stop = Text.byteLength before.scan + Text.byteLength part.scan) :
    f.slice start stop = part := by
  subst hf hstart hstop
  have hbefore : Text.byteLength before.scan = Symbol.byteLength before := rfl
  have hpart : Text.byteLength part.scan = Symbol.byteLength part := rfl
  rw [slice, Nat.add_sub_cancel_left, hbefore, hpart, List.append_assoc,
    Symbol.dropBytes_byteLength_append, Symbol.takeBytes_byteLength_append]

namespace Whole

/-- **Whole characters can be cut wherever their text can.** -/
theorem exists_parts {f : Fragment} (h : Whole f) {s t : Text} (hf : f.text = s ++ t) :
    ∃ before after, f = before ++ after ∧ Whole before ∧ Whole after ∧ before.text = s ∧
      after.text = t := by
  induction h generalizing s with
  | nil =>
    obtain ⟨rfl, rfl⟩ := List.append_eq_nil_iff.mp hf.symm
    exact ⟨[], [], rfl, nil, nil, rfl, rfl⟩
  | @plain c f hwhole ih =>
    cases s with
    | nil => exact ⟨[], _, rfl, nil, hwhole.plain c, rfl, hf⟩
    | cons d s =>
      obtain ⟨rfl, hrest⟩ := List.cons.inj hf
      obtain ⟨before, after, rfl, hbefore, hafter, rfl, rfl⟩ := ih hrest
      exact ⟨Cell.plain c :: before, after, rfl, hbefore.plain c, hafter, rfl, rfl⟩
  | @hidden c f hwhole ih =>
    cases s with
    | nil => exact ⟨[], _, rfl, nil, hwhole.hidden c, rfl, hf⟩
    | cons d s =>
      rw [text_append, text_protect_plain] at hf
      obtain ⟨rfl, hrest⟩ := List.cons.inj hf
      obtain ⟨before, after, rfl, hbefore, hafter, rfl, rfl⟩ := ih hrest
      refine ⟨(Cell.plain c).protect ++ before, after, (List.append_assoc ..).symm,
        hbefore.hidden c, hafter, ?_, rfl⟩
      rw [text_append, text_protect_plain]
      rfl

/-- The parts that a range of the text cuts out, with offsets of the scan. -/
theorem exists_slice {f : Fragment} (h : Whole f) {start stop : Nat}
    (hrange : IsRange f.text start stop) :
    ∃ before part after, f = before ++ part ++ after ∧ Whole before ∧ Whole part ∧
      start = Text.byteLength before.scan ∧
      stop = Text.byteLength before.scan + Text.byteLength part.scan := by
  obtain ⟨t, hcut⟩ := Offsets.isRange_iff.mp hrange
  obtain ⟨s, u, htext, rfl, rfl⟩ := Offsets.cut_eq_ok_iff.mp hcut
  obtain ⟨front, after, rfl, hfront, -, hparts, -⟩ := h.exists_parts htext
  obtain ⟨before, part, rfl, hbefore, hpart, rfl, rfl⟩ := hfront.exists_parts hparts
  exact ⟨before, part, after, rfl, hbefore, hpart, hbefore.byteLength_text,
    by rw [hbefore.byteLength_text, hpart.byteLength_text]⟩

theorem slice {f : Fragment} (h : Whole f) {start stop : Nat} (hrange : IsRange f.text start stop) :
    Whole (f.slice start stop) := by
  obtain ⟨before, part, after, hf, -, hpart, hstart, hstop⟩ := h.exists_slice hrange
  rwa [slice_of_parts hf hstart hstop]

/-- **To slice a fragment is to cut its text and its scan.** Where the text can be cut, so can the
scan. -/
theorem cut_eq_slice {f : Fragment} (h : Whole f) {start stop : Nat}
    (hrange : IsRange f.text start stop) :
    f.views.cut start stop = .ok (f.slice start stop).views := by
  obtain ⟨before, part, after, hf, hbefore, hpart, hstart, hstop⟩ := h.exists_slice hrange
  rw [slice_of_parts hf hstart hstop]
  exact Views.cut_of_parts hf hbefore hpart hstart hstop

end Whole

/-- **The fragments that can be made are those of whole characters.** -/
theorem made_iff_whole {f : Fragment} : f.Made ↔ f.Whole := by
  constructor
  · intro h
    induction h with
    | plain t => exact .of_plain t
    | literal t => exact .of_literal t
    | push _ _ hf hg => exact hf.append hg
    | slice _ hrange hf => exact hf.slice hrange
  · intro h
    induction h with
    | nil => exact .plain []
    | plain c _ ih => exact (Made.plain [c]).push ih
    | hidden c _ ih => exact literal_singleton c ▸ (Made.literal [c]).push ih

end Fragment

/-! ### Text and scan -/

/-- Text and scan fit together. -/
structure Views.Aligned (v : Views) : Prop where
  /-- They have the same length in bytes. -/
  byteLength_scan : Text.byteLength v.scan = Text.byteLength v.text
  /-- At each offset the scan has the byte of the text, or that of the mark. -/
  bytes : ∀ (n : Nat) (shown real : UInt8), (Utf8.encode v.scan)[n]? = some shown →
    (Utf8.encode v.text)[n]? = some real → shown = real ∨ shown = Offsets.maskByte
  /-- Where the text can be cut, so can the scan. -/
  isBoundary_scan : ∀ n, Offsets.isBoundary v.text n = true → Offsets.isBoundary v.scan n = true

namespace Views

theorem aligned_iff {v : Views} :
    v.Aligned ↔ List.Forall₂ Utf8.Masks (Utf8.encode v.scan) (Utf8.encode v.text) ∧
      ∀ n, Offsets.isBoundary v.text n = true → Offsets.isBoundary v.scan n = true := by
  have hlength := Utf8.length_encode
  constructor
  · intro h
    refine ⟨List.forall₂_iff_get.mpr ⟨?_, fun n hs ht => ?_⟩, h.isBoundary_scan⟩
    · rw [hlength, hlength, h.byteLength_scan]
    · exact h.bytes n _ _ (List.getElem?_eq_getElem hs) (List.getElem?_eq_getElem ht)
  · rintro ⟨hmasks, hboundary⟩
    refine ⟨?_, fun n shown real hs ht => ?_, hboundary⟩
    · rw [← hlength, ← hlength, hmasks.length_eq]
    · obtain ⟨hshown, rfl⟩ := List.getElem?_eq_some_iff.mp hs
      obtain ⟨hreal, rfl⟩ := List.getElem?_eq_some_iff.mp ht
      exact hmasks.get hshown hreal

end Views

namespace Fragment

namespace Whole

/-- At each byte the scan has the byte of the text, or a mark. -/
theorem forall₂_masks {f : Fragment} (h : Whole f) :
    List.Forall₂ Utf8.Masks (Utf8.encode f.scan) (Utf8.encode f.text) := by
  induction h with
  | nil => exact .nil
  | plain c _ ih => exact List.rel_append (Utf8.forall₂_masks_self _) ih
  | hidden c _ ih =>
    rw [scan_append, text_append, scan_protect_cell, text_protect_plain, Utf8.encode_append,
      Utf8.encode_append, Utf8.encode_singleton]
    exact List.rel_append (Utf8.masks_encodeChar_iff.mpr (Or.inr rfl)) ih

theorem isBoundary_scan {f : Fragment} (h : Whole f) {n : Nat}
    (hn : Offsets.isBoundary f.text n = true) : Offsets.isBoundary f.scan n = true := by
  obtain ⟨s, t, htext, rfl⟩ := Offsets.isBoundary_iff.mp hn
  obtain ⟨before, after, rfl, hbefore, -, rfl, -⟩ := h.exists_parts htext
  rw [scan_append, hbefore.byteLength_text]
  exact Offsets.isBoundary_append ..

theorem aligned {f : Fragment} (h : Whole f) : f.views.Aligned :=
  Views.aligned_iff.mpr ⟨h.forall₂_masks, fun _ => h.isBoundary_scan⟩

end Whole

end Fragment

namespace Views

/-- Two texts that fit together are put together from characters, each plain or hidden. The
induction is on the text; the scan is cut where the first character of the text ends. -/
theorem exists_whole_of_aligned {v : Views} (h : v.Aligned) :
    ∃ f : Fragment, f.Whole ∧ f.views = v := by
  obtain ⟨text, scan⟩ := v
  obtain ⟨hmasks, hboundary⟩ := aligned_iff.mp h
  clear h
  induction text generalizing scan with
  | nil =>
    obtain rfl : scan = [] := Utf8.encode_eq_nil_iff.mp (List.forall₂_nil_right_iff.mp hmasks)
    exact ⟨[], .nil, rfl⟩
  | cons c text ih =>
    have hcut : Offsets.isBoundary scan c.utf8Size = true :=
      hboundary _ (Offsets.isBoundary_append [c] text)
    obtain ⟨s, scan, rfl, hs⟩ := Offsets.isBoundary_iff.mp hcut
    have hrest : ∀ n, Offsets.isBoundary text n = true → Offsets.isBoundary scan n = true := by
      intro n hn
      rw [← Offsets.isBoundary_append_add s, ← hs]
      exact hboundary _ ((Offsets.isBoundary_append_add [c] text n).trans hn)
    rw [Utf8.encode_append] at hmasks
    obtain ⟨front, back, hparts, hfront, hback⟩ := Utf8.exists_of_masks_append hmasks
    have hlength : (String.utf8EncodeChar c).length = front.length := by
      rw [← hfront.length_eq, Utf8.length_encode, ← hs, String.length_utf8EncodeChar]
    obtain ⟨rfl, rfl⟩ := List.append_inj hparts hlength
    obtain ⟨f, hf, hviews⟩ := ih scan hback hrest
    rcases Utf8.masks_encodeChar_iff.mp hfront with rfl | rfl
    · refine ⟨Fragment.plain [c] ++ f, (Fragment.Whole.of_plain [c]).append hf, ?_⟩
      rw [Fragment.views_append, Fragment.views_plain, hviews]
      rfl
    · refine ⟨Fragment.literal [c] ++ f, (Fragment.Whole.of_literal [c]).append hf, ?_⟩
      rw [Fragment.views_append, Fragment.views_literal, hviews]
      rfl

/-- **There is nothing else to say.** Two texts fit together exactly if they are the text and the
scan of a fragment that can be made. -/
theorem aligned_iff_made {v : Views} : v.Aligned ↔ ∃ f : Fragment, f.Made ∧ f.views = v := by
  simp only [Fragment.made_iff_whole]
  constructor
  · exact exists_whole_of_aligned
  · rintro ⟨f, hf, rfl⟩
    exact hf.aligned

end Views

/-- **Text and scan stay aligned.** Of every fragment that can be made, text and scan have the same
length in bytes, at each offset the scan has the byte of the text or that of the mark, and every
boundary of the text is one of the scan. So where the text can be cut the scan can be cut as well,
a slice is what the two cuts give, and in a slice they are aligned again. -/
theorem text_and_scan_stay_aligned {f : Fragment} (h : f.Made) :
    f.views.Aligned ∧ ∀ start stop, Offsets.IsRange f.text start stop →
      f.views.cut start stop = .ok (f.slice start stop).views ∧
        (f.slice start stop).views.Aligned := by
  have hwhole := Fragment.made_iff_whole.mp h
  refine ⟨hwhole.aligned, fun start stop hrange => ?_⟩
  exact ⟨hwhole.cut_eq_slice hrange, (hwhole.slice hrange).aligned⟩

/-- A plain and a protected letter of two bytes and a protected comma, twice, and a slice of them
that starts in the first copy and ends in the second; from it the first two letters are cut off. -/
theorem slice_across_protected_letters :
    let f := Fragment.plain ['x', 'ü'] ++ Fragment.literal ['ü', ',']
    let g := (f ++ f).slice 1 9
    g.Made ∧ g.views = ⟨"üü,xü".toList, "ü###xü".toList⟩ ∧ g.views.Aligned ∧
      Offsets.IsRange g.text 4 8 ∧ g.views.cut 4 8 = .ok (g.slice 4 8).views ∧
      (g.slice 4 8).views = ⟨",xü".toList, "#xü".toList⟩ ∧ (g.slice 4 8).views.Aligned := by
  intro f g
  have hf : f.Made := (Fragment.Made.plain ['x', 'ü']).push (.literal ['ü', ','])
  have hg : g.Made := (hf.push hf).slice (by decide)
  have hrange : Offsets.IsRange g.text 4 8 := by decide
  obtain ⟨haligned, hslice⟩ := text_and_scan_stay_aligned hg
  exact ⟨hg, by decide, haligned, hrange, (hslice 4 8 hrange).1, by decide, (hslice 4 8 hrange).2⟩

end TextExpander
