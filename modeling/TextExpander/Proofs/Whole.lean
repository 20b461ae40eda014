import TextExpander.Proofs.Shown

/-!
# Whole characters

A protected character takes as many cells as it has bytes, and only the first of them carries it. A
fragment that ends or starts in the middle of these cells carries a character that it does not show,
or shows a place that it does not carry. The fragments that expansion makes are never of that kind:
they are made of whole characters. They are the ones put together from plain and from protected
text, and they stay whole when they are cut, provided that the cut is next to a cell that shows
something else than the mark. A protected character shows nothing but marks, so no such cut falls
into one.

## Main definitions

* `Fragment.Whole`: a fragment of whole characters.

## Main results

* `Fragment.Whole.split`: a cell that shows no mark cuts a whole fragment into whole ones.
* `Fragment.Whole.byteLength_text`: text and scan have the same length in bytes.
* `Fragment.Whole.protect_eq_literal`: to protect a fragment is to protect its text.
-/

namespace TextExpander

theorem Text.byteLength_replicate_mask (n : Nat) : byteLength (List.replicate n mask) = n := by
  induction n with
  | zero => rfl
  | succ n ih =>
    rw [List.replicate_succ, byteLength_cons, ih, Nat.add_comm]
    rfl

namespace Fragment

/-! ### Protected characters -/

theorem shown_of_mem_protect {cell a : Cell} (h : a ∈ cell.protect) : a.shown = mask := by
  rw [Cell.protect, List.mem_cons] at h
  rcases h with rfl | h
  · rfl
  · rw [List.eq_of_mem_replicate h]

/-- Nothing but marks is shown of protected text. -/
theorem shown_eq_mask {f : Fragment} : ∀ a ∈ protect f, a.shown = mask := by
  intro a ha
  obtain ⟨cell, -, ha⟩ := List.mem_flatMap.mp ha
  exact shown_of_mem_protect ha

/-- A cell that shows another character than the mark. -/
theorem shown_ne_mask {a : Cell} {c : Char} (h : Symbol.shown a = c) (hc : c ≠ mask) :
    a.shown ≠ mask := by
  rw [← h] at hc
  exact hc

/-- A protected character on its own. -/
theorem literal_singleton (c : Char) : literal [c] = (Cell.plain c).protect :=
  List.append_nil _

theorem text_protect_plain (c : Char) : text (Cell.plain c).protect = [c] := by
  rw [← literal_singleton, text_literal]

/-- A mark takes one byte, so a fragment that shows nothing but marks is protected already. -/
theorem protect_of_shown_mask {f : Fragment} (h : ∀ a ∈ f, a.shown = mask) : protect f = f := by
  induction f with
  | nil => rfl
  | cons a f ih =>
    obtain ⟨shown, carried⟩ := a
    obtain rfl : shown = mask := h _ List.mem_cons_self
    have hcons : protect (⟨mask, carried⟩ :: f) = ⟨mask, carried⟩ :: protect f := rfl
    rw [hcons, ih fun b hb => h b (List.mem_cons_of_mem _ hb)]

/-- A fragment made of whole characters, each plain or protected. -/
inductive Whole : Fragment → Prop
  /-- Nothing. -/
  | nil : Whole []
  /-- A plain character in front. -/
  | plain (c : Char) {f : Fragment} : Whole f → Whole (Cell.plain c :: f)
  /-- A protected character in front, with all its cells. -/
  | hidden (c : Char) {f : Fragment} : Whole f → Whole ((Cell.plain c).protect ++ f)

namespace Whole

/-! ### Putting together -/

theorem append {f g : Fragment} (hf : Whole f) (hg : Whole g) : Whole (f ++ g) := by
  induction hf with
  | nil => exact hg
  | plain c _ ih => exact ih.plain c
  | hidden c _ ih =>
    rw [List.append_assoc]
    exact ih.hidden c

theorem of_plain (t : Text) : Whole (Fragment.plain t) := by
  induction t with
  | nil => exact nil
  | cons c t ih => exact ih.plain c

theorem of_literal (t : Text) : Whole (literal t) := by
  induction t with
  | nil => exact nil
  | cons c t ih => exact ih.hidden c

theorem flatten {fs : List Fragment} (h : ∀ f ∈ fs, Whole f) : Whole fs.flatten := by
  induction fs with
  | nil => exact nil
  | cons f fs ih =>
    rw [List.flatten_cons]
    exact (h f List.mem_cons_self).append (ih fun g hg => h g (List.mem_cons_of_mem _ hg))

/-! ### Taking apart -/

/-- **Where a whole fragment may be cut.** A cell that shows something else than the mark is a
character on its own, and what stands before and after it is whole. -/
theorem split {before after : Fragment} {a : Cell} (h : Whole (before ++ a :: after))
    (ha : a.shown ≠ mask) : Whole before ∧ Whole [a] ∧ Whole after := by
  generalize hf : before ++ a :: after = f at h
  induction h generalizing before with
  | nil => simp at hf
  | plain c hrest ih =>
    cases before with
    | nil =>
      obtain ⟨rfl, rfl⟩ := List.cons.inj hf
      exact ⟨nil, nil.plain c, hrest⟩
    | cons b before =>
      obtain ⟨rfl, hf'⟩ := List.cons.inj hf
      obtain ⟨hbefore, hcell, hafter⟩ := ih hf'
      exact ⟨hbefore.plain c, hcell, hafter⟩
  | @hidden c rest hrest ih =>
    -- The cell shows no mark, so it comes after all cells of the protected character.
    rcases List.append_eq_append_iff.mp hf with ⟨block, hblock, hrest'⟩ | ⟨seen, rfl, hseen⟩
    · cases block with
      | nil =>
        have hnil : [] ++ a :: after = rest := hrest'
        obtain ⟨-, hcell, hafter⟩ := ih hnil
        rw [List.append_nil] at hblock
        rw [← hblock, ← List.append_nil (Cell.protect _)]
        exact ⟨nil.hidden c, hcell, hafter⟩
      | cons b block =>
        obtain rfl : a = b := (List.cons.inj hrest').1
        have hmem : a ∈ (Cell.plain c).protect := by
          rw [hblock]
          exact List.mem_append_right _ List.mem_cons_self
        exact absurd (shown_of_mem_protect hmem) ha
    · obtain ⟨hbefore, hcell, hafter⟩ := ih hseen.symm
      exact ⟨hbefore.hidden c, hcell, hafter⟩

/-- Cells that show no mark may be cut off in front. -/
theorem of_append {f g : Fragment} (h : Whole (f ++ g)) (hf : ∀ a ∈ f, a.shown ≠ mask) :
    Whole f ∧ Whole g := by
  induction f with
  | nil => exact ⟨nil, h⟩
  | cons a f ih =>
    have hsplit : Whole ([] ++ a :: (f ++ g)) := h
    obtain ⟨-, hcell, hrest⟩ := hsplit.split (hf a List.mem_cons_self)
    obtain ⟨hf', hg⟩ := ih hrest fun b hb => hf b (List.mem_cons_of_mem _ hb)
    exact ⟨hcell.append hf', hg⟩

/-- What stands before cells that show no mark is whole. -/
theorem of_append_left {f g : Fragment} (h : Whole (f ++ g)) (hg : ∀ a ∈ g, a.shown ≠ mask) :
    Whole f := by
  cases g with
  | nil => simpa using h
  | cons a g => exact (h.split (hg a List.mem_cons_self)).1

/-! ### Text and scan -/

/-- Text and scan of a whole fragment have the same length in bytes. -/
theorem byteLength_text {f : Fragment} (h : Whole f) :
    Text.byteLength (text f) = Text.byteLength (scan f) := by
  induction h with
  | nil => rfl
  | @plain c f _ ih =>
    have htext : text (Cell.plain c :: f) = c :: text f := rfl
    have hscan : scan (Cell.plain c :: f) = c :: scan f := rfl
    rw [htext, hscan, Text.byteLength_cons, Text.byteLength_cons, ih]
  | hidden c _ ih =>
    rw [text_append, scan_append, text_protect_plain, scan_protect_cell, Text.byteLength_append,
      Text.byteLength_append, Text.byteLength_replicate_mask, ih]
    rfl

/-- To protect a fragment of whole characters is to protect its text. -/
theorem protect_eq_literal {f : Fragment} (h : Whole f) :
    Fragment.protect f = literal (text f) := by
  induction h with
  | nil => rfl
  | @plain c f _ ih =>
    have hprotect : Fragment.protect (Cell.plain c :: f) =
        (Cell.plain c).protect ++ Fragment.protect f := rfl
    rw [hprotect, ih]
    rfl
  | @hidden c f _ ih =>
    have hblock : Fragment.protect (Cell.plain c).protect = (Cell.plain c).protect :=
      protect_of_shown_mask fun a ha => shown_of_mem_protect ha
    rw [Fragment.protect, List.flatMap_append, ← Fragment.protect, ← Fragment.protect, hblock, ih,
      text_append, text_protect_plain]
    rfl

theorem protect {f : Fragment} (h : Whole f) : Whole (Fragment.protect f) := by
  rw [h.protect_eq_literal]
  exact of_literal _

end Whole

end Fragment

end TextExpander
