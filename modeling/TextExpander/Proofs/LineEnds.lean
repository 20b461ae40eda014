import TextExpander.Text.Lines

/-!
# Lines written and read again

A run writes every line with a line feed after it. When what was written is read again, each line
comes back, but not always as it was: a line that ends with a carriage return has the two characters
of a line end behind it then, and loses the carriage return.

A line that is read can end with a carriage return all the same: if it had no line end, or if two
carriage returns stood before its line feed.

## Main definitions

* `Text.unlines`: lines with a line feed after each.

## Main results

* `Text.lines_unlines`: what is read of lines that were written.
* `Text.newline_notMem_of_mem_lines`: a line holds no line feed.
-/

namespace TextExpander

namespace Text

/-- Lines as they are written: each with a line feed after it. -/
def unlines (lines : List Text) : Text :=
  lines.flatMap (· ++ ['\n'])

theorem unlines_cons (line : Text) (lines : List Text) :
    unlines (line :: lines) = line ++ '\n' :: unlines lines := by
  simp [unlines]

theorem splitOn_unlines {lines : List Text} (h : ∀ line ∈ lines, '\n' ∉ line) :
    (unlines lines).splitOn '\n' = lines ++ [[]] := by
  induction lines with
  | nil => rfl
  | cons line lines ih =>
    have hline : '\n' ∉ line := h line List.mem_cons_self
    have hlines : ∀ line ∈ lines, '\n' ∉ line := fun l hl => h l (List.mem_cons_of_mem line hl)
    rw [unlines_cons, List.splitOn_append_cons_self_of_not_mem hline, ih hlines, List.cons_append]

/-- Pieces that were all ended by a line feed. -/
theorem linesOfPieces_ended (pieces : List Text) :
    linesOfPieces (pieces ++ [[]]) = pieces.map dropReturn := by
  induction pieces with
  | nil => rfl
  | cons piece pieces ih =>
    have hne : pieces ++ [[]] ≠ [] := List.append_ne_nil_of_right_ne_nil _ (List.cons_ne_nil _ _)
    obtain ⟨next, rest, hnext⟩ := List.exists_cons_of_ne_nil hne
    rw [List.cons_append, hnext, linesOfPieces, ← hnext, ih, List.map_cons]

/-- **Reading what was written.** Each line comes back without the carriage return that it ends
with. -/
theorem lines_unlines {ls : List Text} (h : ∀ line ∈ ls, '\n' ∉ line) :
    lines (unlines ls) = ls.map dropReturn := by
  rw [lines, splitOn_unlines h, linesOfPieces_ended]

/-- Lines can be told from how they are written. -/
theorem unlines_inj {ls ls' : List Text} (h : ∀ line ∈ ls, '\n' ∉ line)
    (h' : ∀ line ∈ ls', '\n' ∉ line) : unlines ls = unlines ls' ↔ ls = ls' := by
  refine ⟨fun heq => ?_, congrArg unlines⟩
  have hsplit : ls ++ [[]] = ls' ++ [[]] := by rw [← splitOn_unlines h, heq, splitOn_unlines h']
  exact List.append_cancel_right hsplit

/-! ### Carriage returns -/

theorem dropReturn_cases (t : Text) :
    t.getLast? ≠ some '\r' ∧ dropReturn t = t ∨ t = dropReturn t ++ ['\r'] := by
  rw [dropReturn]
  split
  · next h =>
    obtain ⟨front, rfl⟩ := List.getLast?_eq_some_iff.mp h
    rw [List.dropLast_concat]
    exact .inr rfl
  · next h => exact .inl ⟨h, rfl⟩

theorem dropReturn_eq_self_iff {t : Text} : dropReturn t = t ↔ t.getLast? ≠ some '\r' := by
  constructor
  · intro heq
    rcases dropReturn_cases t with ⟨h, -⟩ | h
    · exact h
    · rw [heq] at h
      simpa using congrArg List.length h
  · intro h
    rw [dropReturn, if_neg h]

theorem map_dropReturn_eq_self_iff {ls : List Text} :
    ls.map dropReturn = ls ↔ ∀ line ∈ ls, line.getLast? ≠ some '\r' := by
  constructor
  · intro h line hline
    have hid : ls.map dropReturn = ls.map id := h.trans (List.map_id ls).symm
    exact dropReturn_eq_self_iff.mp (List.map_inj_left.mp hid line hline)
  · intro h
    have hid : ∀ line ∈ ls, dropReturn line = id line :=
      fun line hline => dropReturn_eq_self_iff.mpr (h line hline)
    rw [List.map_congr_left hid, List.map_id]

theorem dropReturn_subset (t : Text) : dropReturn t ⊆ t := by
  rcases dropReturn_cases t with ⟨-, h⟩ | h
  · rw [h]
    exact List.Subset.refl t
  · intro c hc
    rw [h]
    exact List.mem_append_left _ hc

/-! ### Line feeds -/

theorem notMem_of_mem_splitOn {sep : Char} {t piece : Text} (h : piece ∈ t.splitOn sep) :
    sep ∉ piece := by
  induction t generalizing piece with
  | nil =>
    obtain rfl := List.mem_singleton.mp h
    exact List.not_mem_nil
  | cons c t ih =>
    rw [List.splitOn_cons_eq_if_modifyHead] at h
    split at h
    · rcases List.mem_cons.mp h with rfl | h
      · exact List.not_mem_nil
      · exact ih h
    · next hc =>
      cases hpieces : t.splitOn sep with
      | nil =>
        rw [hpieces] at h
        cases h
      | cons first rest =>
        rw [hpieces, List.modifyHead_cons] at h
        rcases List.mem_cons.mp h with rfl | h
        · have hfirst : sep ∉ first := ih (hpieces ▸ List.mem_cons_self)
          intro hmem
          rcases List.mem_cons.mp hmem with heq | hmem
          · exact hc (beq_iff_eq.mpr heq.symm)
          · exact hfirst hmem
        · exact ih (hpieces ▸ List.mem_cons_of_mem first h)

/-- A line is a piece between line feeds, perhaps without its last character. -/
theorem subset_of_mem_linesOfPieces {pieces : List Text} {line : Text}
    (h : line ∈ linesOfPieces pieces) : ∃ piece ∈ pieces, line ⊆ piece := by
  fun_induction linesOfPieces pieces with
  | case1 => cases h
  | case2 last hlast => cases h
  | case3 last hlast =>
    obtain rfl := List.mem_singleton.mp h
    exact ⟨line, List.mem_singleton_self line, List.Subset.refl line⟩
  | case4 piece next rest ih =>
    rcases List.mem_cons.mp h with rfl | h
    · exact ⟨piece, List.mem_cons_self, dropReturn_subset piece⟩
    · obtain ⟨p, hp, hline⟩ := ih h
      exact ⟨p, List.mem_cons_of_mem piece hp, hline⟩

theorem newline_notMem_of_mem_lines {t line : Text} (h : line ∈ lines t) : '\n' ∉ line := by
  obtain ⟨piece, hpiece, hline⟩ := subset_of_mem_linesOfPieces h
  exact fun hmem => notMem_of_mem_splitOn hpiece (hline hmem)

end Text

end TextExpander
