import TextExpander.Proofs.ArgumentRanges

/-!
# The arguments of a call are whole

The arguments of a call are found in the scan and cut out of both texts of a fragment. They are next
to commas, to white space or to parentheses, none of which is protected. So the arguments of a whole
fragment are whole, and each cut falls between characters of the text as well.

## Main results

* `Fragment.Whole.arguments`: the arguments are whole.
* `Offsets.callArguments_eq`: the arguments cut out by offsets are those of `Parens.arguments`.
-/

namespace TextExpander

namespace Fragment

theorem shown_ne_mask_of_isSpace {a : Cell} (h : Symbol.isSpace a = true) : a.shown ≠ mask := by
  intro ha
  have hspace : Text.isSpace a.shown = true := h
  rw [ha] at hspace
  exact absurd hspace (by decide)

/-- The value of a whole piece is whole, and so is what is dropped before it. -/
theorem Whole.ofPiece {piece : Fragment} (h : Whole piece) :
    Whole (Parens.Argument.ofPiece piece).dropped ∧ Whole (Parens.Argument.ofPiece piece).value ∧
      ∃ after, piece = (Parens.Argument.ofPiece piece).dropped ++
        (Parens.Argument.ofPiece piece).value ++ after := by
  obtain ⟨trailing, hpiece, htrailing⟩ := Symbol.exists_trimRight piece
  have hended := Symbol.trimRight_eq piece
  generalize hspace : (Symbol.trimRight piece).takeWhile Symbol.isSpace = space at hended
  have hwhole : Whole (space ++ Symbol.trim piece) := by
    rw [hpiece, hended] at h
    exact h.of_append_left fun a ha => shown_ne_mask_of_isSpace (htrailing a ha)
  obtain ⟨hbefore, hvalue⟩ := hwhole.of_append fun a ha => by
    rw [← hspace] at ha
    exact shown_ne_mask_of_isSpace (List.mem_takeWhile_imp ha)
  cases hunwrap : Parens.unwrap? (Symbol.trim piece) with
  | none =>
    rw [Parens.Argument.ofPiece_of_none hunwrap, hspace]
    refine ⟨hbefore, hvalue, trailing, ?_⟩
    rw [← hended]
    exact hpiece
  | some inside =>
    -- The two parentheses show no mark, so they may be cut off.
    obtain ⟨a, rest, htrim, ha, hclose⟩ := Parens.exists_of_unwrap? hunwrap
    obtain ⟨b, hb, hrest⟩ := Parens.eq_of_close? hclose
    have ha' : a.shown ≠ mask := shown_ne_mask ha (by decide)
    have hb' : b.shown ≠ mask := shown_ne_mask hb (by decide)
    rw [htrim, hrest] at hvalue
    obtain ⟨hopen, hinside⟩ := Whole.of_append (f := [a]) hvalue (by simpa using ha')
    rw [Parens.Argument.ofPiece_of_some hunwrap, hspace, htrim]
    refine ⟨hbefore.append hopen, (hinside.split hb').1, b :: trailing, ?_⟩
    nth_rewrite 1 [hpiece]
    rw [hended, htrim, hrest]
    simp

theorem Whole.of_separated {f : Fragment} {pieces : List Fragment} (hf : Whole f)
    (h : Parens.Separated f pieces) : ∀ piece ∈ pieces, Whole piece := by
  induction h with
  | last piece => simpa using hf
  | comma piece ha _ ih =>
    obtain ⟨hpiece, -, hrest⟩ := hf.split (shown_ne_mask ha (by decide))
    intro other hother
    rcases List.mem_cons.mp hother with rfl | hmem
    · exact hpiece
    · exact ih hrest other hmem

/-- The arguments of a call are whole if what stands between the parentheses is. -/
theorem Whole.arguments {f : Fragment} (h : Whole f) : ∀ a ∈ Parens.arguments f, Whole a := by
  intro a ha
  rw [Parens.arguments] at ha
  split_ifs at ha
  · cases ha
  · obtain ⟨piece, hpiece, rfl⟩ := List.mem_map.mp ha
    exact (h.of_separated (Parens.separated_pieces f) piece hpiece).ofPiece.2.1

end Fragment

namespace Parens

variable {α : Type} [Symbol α]

/-- The ranges of the arguments are found by their shown characters. -/
theorem ranges_locateFrom_chars (start : Nat) (pieces : List (List α)) :
    (locateFrom start (pieces.map Symbol.chars)).map Prod.snd =
      (locateFrom start pieces).map Prod.snd := by
  induction pieces generalizing start with
  | nil => rfl
  | cons piece pieces ih =>
    simp only [List.map_cons, locateFrom, ofPiece_chars, Symbol.byteLength_text, ih]
    rfl

theorem ranges_locate_chars (xs : List α) :
    (locate (Symbol.chars xs)).map Prod.snd = (locate xs).map Prod.snd := by
  rw [locate, locate, Symbol.isBlank_chars, pieces_chars]
  split_ifs
  · rfl
  · exact ranges_locateFrom_chars 0 (pieces xs)

end Parens

namespace Offsets

theorem cut_argument {f before piece after : Fragment} (hf : f = before ++ piece ++ after)
    (hbefore : before.Whole) (hpiece : piece.Whole) {start : Nat}
    (hstart : start = Text.byteLength before.scan) :
    f.views.cut (start + Symbol.byteLength (Parens.Argument.ofPiece piece).dropped)
        (start + Symbol.byteLength (Parens.Argument.ofPiece piece).dropped +
          Symbol.byteLength (Parens.Argument.ofPiece piece).value) =
      .ok (Fragment.views (Parens.Argument.ofPiece piece).value) := by
  obtain ⟨hdropped, hvalue, left, hparts⟩ := hpiece.ofPiece
  have hparts' : f = before ++ (Parens.Argument.ofPiece piece).dropped ++
      (Parens.Argument.ofPiece piece).value ++ (left ++ after) := by
    rw [hf]
    nth_rewrite 1 [hparts]
    simp only [List.append_assoc]
  have hlength : start + Symbol.byteLength (Parens.Argument.ofPiece piece).dropped =
      Text.byteLength (Fragment.scan (before ++ (Parens.Argument.ofPiece piece).dropped)) := by
    rw [hstart, Fragment.scan_append, Text.byteLength_append]
    rfl
  rw [hlength]
  exact Views.cut_of_parts hparts' (hbefore.append hdropped) hvalue rfl rfl

/-- Each argument may be cut out of the fragment that it stands in. -/
theorem mapM_cut_arguments {f before rest : Fragment} {pieces : List Fragment}
    (h : Parens.Separated rest pieces) (hf : f = before ++ rest) (hbefore : before.Whole)
    (hrest : rest.Whole) :
    ((Parens.locateFrom (Text.byteLength before.scan) pieces).map Prod.snd).mapM
        (fun range => f.views.cut range.1 range.2) =
      .ok (pieces.map fun piece => Fragment.views (Parens.Argument.ofPiece piece).value) := by
  induction h generalizing before with
  | last piece =>
    rw [← List.append_nil piece, ← List.append_assoc] at hf
    exact mapM_cons_of_ok (cut_argument hf hbefore hrest rfl) rfl
  | @comma piece a rest pieces ha _ ih =>
    obtain ⟨hpiece, hcomma, hrest'⟩ := hrest.split (Fragment.shown_ne_mask ha (by decide))
    have hlength : Text.byteLength before.scan + Symbol.byteLength piece + 1 =
        Text.byteLength (Fragment.scan (before ++ piece ++ [a])) := by
      have hone : Text.byteLength (Fragment.scan [a]) = 1 := by
        rw [Fragment.scan, Symbol.chars_cons, ha]
        rfl
      rw [Fragment.scan_append, Fragment.scan_append, Text.byteLength_append,
        Text.byteLength_append, hone]
      rfl
    rw [← List.append_assoc] at hf
    rw [Parens.locateFrom, List.map_cons, hlength, List.map_cons]
    refine mapM_cons_of_ok (cut_argument hf hbefore hpiece rfl) ?_
    exact ih (by rw [hf]; simp) ((hbefore.append hpiece).append hcomma) hrest'

theorem mapM_cut_locate {f : Fragment} (hf : f.Whole) :
    ((Parens.locate f).map Prod.snd).mapM (fun range => f.views.cut range.1 range.2) =
      .ok ((Parens.arguments f).map Fragment.views) := by
  rw [Parens.locate, Parens.arguments]
  split_ifs
  · rfl
  · rw [List.map_map]
    exact mapM_cut_arguments (Parens.separated_pieces f) (List.nil_append f).symm .nil hf

/-- **The arguments of a call by offsets.** What stands between the parentheses is cut out, the
arguments are found in its scan and cut out in turn, and they are the arguments found in the
cells. -/
theorem callArguments_eq {f before inside after : Fragment} {opening close : Nat}
    (hf : f = before ++ inside ++ after) (hbefore : before.Whole) (hinside : inside.Whole)
    (hopening : opening + 1 = Text.byteLength before.scan)
    (hclose : close = Text.byteLength before.scan + Text.byteLength inside.scan) :
    callArguments f.views opening close = .ok ((Parens.arguments inside).map Fragment.views) := by
  have hranges : argumentRanges inside.scan = .ok ((Parens.locate inside).map Prod.snd) := by
    rw [argumentRanges_eq, Fragment.scan, Parens.ranges_locate_chars]
  have hcut : f.views.cut (opening + 1) close = .ok inside.views :=
    Views.cut_of_parts hf hbefore hinside hopening hclose
  simp only [callArguments, hcut, Fragment.scan_views, hranges, bind, Except.bind]
  exact mapM_cut_locate hinside

end Offsets

end TextExpander
