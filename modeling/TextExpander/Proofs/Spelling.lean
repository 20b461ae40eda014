import TextExpander.Proofs.Directories

/-!
# Spellings of one path

A path is spelled with slashes and dots that do not count, and two spellings are the same file if
what counts is the same. But the directory of a path, and a path taken relative to a directory, are
cut out of the spelling and put together from it. So it has to be seen what the components of a
directory are, and of a path in a directory, in terms of components only: the directory of a path
has its components but the last one (`Path.components_parent?`), and a path in a directory that has
components at all adds what counts of its own pieces (`Path.components_join`). A `.` at the front is
a component of a path on its own, and does not count behind a directory.

From this the components of what a file names are known from those of the file
(`Path.components_resolve`), so a file names the same files however it is spelled.

## Main definitions

* `Path.componentsOfPieces`: what pieces between slashes stand for, behind something.

## Main results

* `Path.components_resolve`: what a file names, in terms of components.
* `Path.sameFile_resolve`: two spellings of a file name the same files.
-/

namespace TextExpander

namespace Path

theorem sameFile_iff {p q : Path} : p.sameFile q = true ↔ p.components = q.components :=
  beq_iff_eq

/-! ### Pieces that count -/

/-- What pieces between slashes stand for, behind something. -/
def componentsOfPieces (pieces : List Text) : List PathComponent :=
  (pieces.filter fun piece => !isIdle piece).map componentOfPiece

theorem components_eq (p : Path) :
    p.components = p.leadComponents ++ componentsOfPieces p.pieces := rfl

theorem componentsOfPieces_append (front back : List Text) :
    componentsOfPieces (front ++ back) = componentsOfPieces front ++ componentsOfPieces back := by
  rw [componentsOfPieces, List.filter_append, List.map_append]
  rfl

theorem componentsOfPieces_cons {piece : Text} (h : isIdle piece = false) (rest : List Text) :
    componentsOfPieces (piece :: rest) = componentOfPiece piece :: componentsOfPieces rest := by
  rw [componentsOfPieces, List.filter_cons_of_pos (by simp [h]), List.map_cons]
  rfl

theorem componentsOfPieces_of_idle {idle : List Text} (h : ∀ q ∈ idle, isIdle q = true) :
    componentsOfPieces idle = [] := by
  rw [componentsOfPieces, List.filter_eq_nil_iff.mpr fun q hq => by simp [h q hq], List.map_nil]

/-- Either no piece counts, or there is a last one that does. -/
theorem idle_or_last (pieces : List Text) :
    (∀ q ∈ pieces, isIdle q = true) ∨ ∃ front piece idle, pieces = front ++ piece :: idle ∧
      isIdle piece = false ∧ ∀ q ∈ idle, isIdle q = true := by
  induction pieces with
  | nil => exact .inl fun q hq => absurd hq List.not_mem_nil
  | cons piece rest ih =>
    rcases ih with hidle | ⟨front, last, idle, rfl, hlast, hidle⟩
    · by_cases hpiece : isIdle piece = true
      · exact .inl (List.forall_mem_cons.mpr ⟨hpiece, hidle⟩)
      · exact .inr ⟨[], piece, rest, rfl, Bool.eq_false_iff.mpr hpiece, hidle⟩
    · exact .inr ⟨piece :: front, last, idle, rfl, hlast, hidle⟩

theorem dropIdleEnd_of_idle {idle : List Text} (h : ∀ q ∈ idle, isIdle q = true) :
    dropIdleEnd idle = [] :=
  List.rdropWhile_eq_nil_iff.mpr h

/-- The pieces at the end that do not count stand for nothing. -/
theorem componentsOfPieces_dropIdleEnd (pieces : List Text) :
    componentsOfPieces (dropIdleEnd pieces) = componentsOfPieces pieces := by
  rcases idle_or_last pieces with hidle | ⟨front, piece, idle, rfl, hpiece, hidle⟩
  · rw [dropIdleEnd_of_idle hidle, componentsOfPieces_of_idle hidle]
    rfl
  · rw [dropIdleEnd_append hidle hpiece, componentsOfPieces_append, componentsOfPieces_append,
      componentsOfPieces_cons hpiece, componentsOfPieces_cons hpiece,
      componentsOfPieces_of_idle hidle]
    rfl

/-! ### The lead -/

theorem leadComponents_congr {p q : Path} (h : p.lead = q.lead) :
    p.leadComponents = q.leadComponents := by
  rw [leadComponents, leadComponents, h]

theorem length_leadComponents_le (p : Path) : p.leadComponents.length ≤ 1 := by
  rw [leadComponents]
  split <;> decide

/-- Only the empty path names nothing. -/
theorem components_eq_nil_iff {p : Path} : p.components = [] ↔ p.text = [] := by
  obtain ⟨t⟩ := p
  constructor
  · intro h
    obtain ⟨hleads, hpieces⟩ := List.append_eq_nil_iff.mp ((components_eq _).symm.trans h)
    have hlead : lead ⟨t⟩ = [] := by
      rcases lead_cases t with ⟨-, -, hlead⟩ | ⟨-, hlead⟩ | ⟨-, -, hlead⟩ | hlead
      · simp [leadComponents, hlead] at hleads
      · simp [leadComponents, hlead] at hleads
      · simp [leadComponents, hlead] at hleads
      · exact hlead
    by_contra hne
    obtain ⟨piece, rest, hsplit⟩ := List.exists_cons_of_ne_nil (List.splitOn_ne_nil '/' t)
    rw [pieces, hlead, List.length_nil, List.drop_zero, hsplit,
      componentsOfPieces_cons (isIdle_head hlead hsplit hne)] at hpieces
    cases hpieces
  · intro h
    obtain rfl : t = [] := h
    rfl

/-! ### Directories -/

/-- What the beginning of a path names, up to a piece that counts. -/
theorem components_of_pieces {p : Path} {front : List Text} (hfront : front <+: p.pieces)
    (hend : dropIdleEnd front = front) :
    components ⟨p.lead ++ ['/'].intercalate front⟩ =
      p.leadComponents ++ componentsOfPieces front := by
  rw [components_eq, leadComponents_congr (lead_of_pieces hfront hend),
    ← componentsOfPieces_dropIdleEnd, dropIdleEnd_pieces hfront hend]

/-- **The components of a directory** are those of a path in it, but for the last one. A path that
has no directory has no two components. -/
theorem components_parent? (p : Path) :
    (p.parent?.map components).getD [] = p.components.dropLast := by
  rcases idle_or_last p.pieces with hidle | ⟨front, piece, idle, hpieces, hpiece, hidle⟩
  · have hlead : p.components.dropLast = [] := by
      rw [components_eq, componentsOfPieces_of_idle hidle, List.append_nil,
        ← List.length_eq_zero_iff, List.length_dropLast]
      exact Nat.sub_eq_zero_of_le p.length_leadComponents_le
    rw [hlead, parent?, dropIdleEnd_of_idle hidle]
    simp only
    split_ifs <;> rfl
  · have hfront : dropIdleEnd front <+: p.pieces := by
      rw [hpieces]
      exact (List.rdropWhile_prefix ..).trans (List.prefix_append ..)
    rw [parent?_of_pieces hpieces hpiece hidle, Option.map_some, Option.getD_some,
      components_of_pieces hfront (List.rdropWhile_idempotent ..), componentsOfPieces_dropIdleEnd,
      components_eq, hpieces, componentsOfPieces_append, componentsOfPieces_cons hpiece,
      componentsOfPieces_of_idle hidle, ← List.append_assoc, List.dropLast_concat]

/-! ### Paths in a directory -/

theorem components_append_cons {t : Text} (ht : t ≠ []) (u : Text) :
    components ⟨t ++ '/' :: u⟩ = components ⟨t⟩ ++ componentsOfPieces (u.splitOn '/') := by
  rw [components_eq, components_eq, leadComponents_congr (lead_append_cons ht u),
    pieces_append_cons ht, componentsOfPieces_append, List.append_assoc]

/-- **The components of a path in a directory** that is not empty: a lead of the path does not count
behind the directory. -/
theorem components_join {dir : Path} (hdir : dir.text ≠ []) (named : Text) :
    (dir.join named).components = dir.components ++ componentsOfPieces (named.splitOn '/') := by
  obtain ⟨t⟩ := dir
  rw [join]
  split
  · next hslash =>
    obtain ⟨front, rfl⟩ := List.getLast?_eq_some_iff.mp (hslash.resolve_left hdir)
    simp only [List.append_assoc, List.singleton_append]
    by_cases hfront : front = []
    · subst hfront
      rfl
    · have hempty : componentsOfPieces (List.splitOn '/' []) = [] := rfl
      rw [components_append_cons hfront, components_append_cons hfront, hempty, List.append_nil]
  · exact components_append_cons hdir named

/-- **What a file names**, in terms of components. -/
theorem components_resolve (p : Path) (named : Text) :
    (p.resolve named).components =
      if isAbsolute ⟨named⟩ = true ∨ p.components.dropLast = [] then components ⟨named⟩
      else p.components.dropLast ++ componentsOfPieces (named.splitOn '/') := by
  have hparent := components_parent? p
  rw [resolve]
  by_cases habsolute : isAbsolute ⟨named⟩ = true
  · rw [if_pos habsolute, if_pos (.inl habsolute)]
  · rw [if_neg habsolute]
    cases hdir : p.parent? with
    | none =>
      rw [hdir] at hparent
      rw [if_pos (.inr hparent.symm)]
    | some dir =>
      rw [hdir] at hparent
      have hcomponents : dir.components = p.components.dropLast := hparent
      by_cases hempty : dir.text = []
      · have hnil := components_eq_nil_iff.mpr hempty
        rw [if_pos (.inr (hcomponents.symm.trans hnil))]
        simp only
        rw [join, if_pos (.inl hempty), hempty, List.nil_append]
      · have hne : p.components.dropLast ≠ [] := fun hnil =>
          hempty (components_eq_nil_iff.mp (hcomponents.trans hnil))
        rw [if_neg (not_or.mpr ⟨habsolute, hne⟩), ← hcomponents]
        exact components_join hempty named

/-- A `.` at the front counts in a path on its own, and does not behind a directory. -/
example : components (resolve ⟨"a//./f".toList⟩ "./g".toList) = components ⟨"a/g".toList⟩ ∧
    components (resolve ⟨"f".toList⟩ "./g".toList) = .current :: components ⟨"g".toList⟩ := by
  decide +kernel

/-- **Two spellings of a file name the same files.** -/
theorem sameFile_resolve {p q : Path} (h : p.sameFile q = true) (named : Text) :
    (p.resolve named).sameFile (q.resolve named) = true := by
  rw [sameFile_iff, components_resolve, components_resolve, sameFile_iff.mp h]

end Path

end TextExpander
