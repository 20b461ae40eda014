import Mathlib.Data.List.DropRight
import TextExpander.Path

/-!
# Files of one directory

A path that stands in a file is relative to the directory of that file. The directory is spelled as
the beginning of the path of the file, up to the last piece that counts; so if a file is named by a
single piece, then putting this piece behind the directory and taking the directory again gives the
same spelling. Hence every path means the same in both files (`Path.resolve_resolve`), letter by
letter.

Taking the directory cuts a spelling into its lead and its pieces, and a directory is put together
from a lead and some pieces. That nothing is read differently the second time is because the first
piece after a lead cannot be taken for a lead (`Path.lead_append`), and because a directory never
ends with a piece that does not count (`Path.Trimmed`).

## Main definitions

* `Path.Bare`: a path of a single name.
* `Path.Trimmed`: a path that ends with a piece that counts.

## Main results

* `Path.parent?_join`: the directory of a file that is named by a single piece.
* `Path.resolve_resolve`: such a file names what the file that names it does.
-/

namespace TextExpander

namespace Path

/-! ### Pieces -/

theorem slash_notMem_of_mem_splitOn {t piece : Text} (h : piece ∈ t.splitOn '/') : '/' ∉ piece := by
  induction hn : t.length using Nat.strongRecOn generalizing t with
  | ind n ih =>
    by_cases hslash : '/' ∈ t
    · obtain ⟨front, rest, rfl, hfront⟩ := List.eq_append_cons_of_mem hslash
      have hlength : rest.length < n := by
        rw [← hn]
        simp only [List.length_append, List.length_cons]
        omega
      rw [List.splitOn_append_cons_self, List.splitOn_eq_singleton hfront] at h
      rcases List.mem_cons.mp h with rfl | h
      · exact hfront
      · exact ih _ hlength h rfl
    · rw [List.splitOn_eq_singleton hslash] at h
      obtain rfl := List.mem_singleton.mp h
      exact hslash

theorem dropIdleEnd_eq (pieces : List Text) : dropIdleEnd pieces = pieces.rdropWhile isIdle := rfl

theorem dropIdleEnd_append {idle : List Text} (hidle : ∀ q ∈ idle, isIdle q = true)
    {piece : Text} (hpiece : isIdle piece = false) (pieces : List Text) :
    dropIdleEnd (pieces ++ piece :: idle) = pieces ++ [piece] := by
  induction idle using List.reverseRecOn with
  | nil => exact List.rdropWhile_concat_neg _ _ _ (by simp [hpiece])
  | append_singleton idle q ih =>
    have hq : isIdle q = true := hidle q (by simp)
    rw [← List.cons_append, ← List.append_assoc, dropIdleEnd_eq,
      List.rdropWhile_concat_pos _ _ _ hq]
    exact ih fun r hr => hidle r (List.mem_append_left _ hr)

/-! ### Leads -/

theorem lead_cases (t : Text) :
    (∃ r, t = '/' :: r ∧ lead ⟨t⟩ = ['/']) ∨ (t = ['.'] ∧ lead ⟨t⟩ = ['.']) ∨
      (∃ r, t = '.' :: '/' :: r ∧ lead ⟨t⟩ = ['.']) ∨ lead ⟨t⟩ = [] := by
  simp only [lead]
  split
  · next r => exact .inl ⟨r, rfl, rfl⟩
  · exact .inr (.inl ⟨rfl, rfl⟩)
  · next r => exact .inr (.inr (.inl ⟨r, rfl, rfl⟩))
  · exact .inr (.inr (.inr rfl))

/-- A piece that counts is not taken for a lead, whatever follows it. -/
theorem lead_append {piece : Text} (hpiece : isIdle piece = false) (hslash : '/' ∉ piece)
    (rest : Text) : lead ⟨piece ++ rest⟩ = [] := by
  rcases lead_cases (piece ++ rest) with ⟨r, h, -⟩ | ⟨h, -⟩ | ⟨r, h, -⟩ | h
  · cases piece with
    | nil => cases hpiece
    | cons c piece =>
      obtain ⟨rfl, -⟩ := List.cons.inj h
      exact absurd List.mem_cons_self hslash
  · rcases List.append_eq_singleton_iff.mp h with ⟨rfl, -⟩ | ⟨rfl, -⟩ <;> cases hpiece
  · match piece with
    | [] => cases hpiece
    | [c] =>
      obtain ⟨rfl, -⟩ := List.cons.inj h
      cases hpiece
    | c :: d :: piece =>
      obtain ⟨-, h⟩ := List.cons.inj h
      obtain ⟨rfl, -⟩ := List.cons.inj h
      simp at hslash
  · exact h

/-- The first piece of a path without a lead counts, unless there is nothing at all. -/
theorem isIdle_head {t piece : Text} {rest : List Text} (hlead : lead ⟨t⟩ = [])
    (h : t.splitOn '/' = piece :: rest) (ht : t ≠ []) : isIdle piece = false := by
  have htext : t = ['/'].intercalate (piece :: rest) := h ▸ (List.intercalate_splitOn '/').symm
  by_contra hidle
  have hpiece : piece = [] ∨ piece = ['.'] := by
    simpa only [isIdle, Bool.not_eq_false, Bool.or_eq_true, beq_iff_eq] using hidle
  cases rest with
  | nil =>
    obtain rfl : t = piece := by simpa using htext
    rcases hpiece with rfl | rfl
    · exact ht rfl
    · cases hlead
  | cons next rest =>
    rw [List.intercalate_cons_cons] at htext
    rcases hpiece with rfl | rfl
    · subst htext
      cases hlead
    · subst htext
      cases hlead

theorem text_eq (p : Path) : p.text = p.lead ++ ['/'].intercalate p.pieces := by
  obtain ⟨t⟩ := p
  rw [pieces, List.intercalate_splitOn]
  rcases lead_cases t with ⟨r, rfl, h⟩ | ⟨rfl, h⟩ | ⟨r, rfl, h⟩ | h <;> rw [h] <;> rfl

/-- A slash behind a path that is not empty does not change its lead. -/
theorem lead_append_cons {t : Text} (ht : t ≠ []) (u : Text) :
    lead ⟨t ++ '/' :: u⟩ = lead ⟨t⟩ := by
  rcases lead_cases t with ⟨r, rfl, -⟩ | ⟨rfl, -⟩ | ⟨r, rfl, -⟩ | hnone
  · rfl
  · rfl
  · rfl
  · obtain ⟨c, t, rfl⟩ := List.exists_cons_of_ne_nil ht
    rw [hnone]
    rcases lead_cases (c :: t ++ '/' :: u) with ⟨r, h, -⟩ | ⟨h, -⟩ | ⟨r, h, -⟩ | h
    · obtain ⟨rfl, -⟩ := List.cons.inj h
      cases hnone
    · simp at h
    · cases t with
      | nil =>
        obtain ⟨rfl, -⟩ := List.cons.inj h
        cases hnone
      | cons d t =>
        obtain ⟨rfl, hd⟩ := List.cons.inj h
        have hslash : d = '/' := (List.cons.inj hd).1
        rw [hslash] at hnone
        cases hnone
    · exact h

theorem length_lead_le (t : Text) : (lead ⟨t⟩).length ≤ t.length := by
  have htext : t.length = _ := congrArg List.length (text_eq ⟨t⟩)
  rw [htext, List.length_append]
  exact Nat.le_add_right _ _

theorem pieces_append_cons {t : Text} (ht : t ≠ []) (u : Text) :
    pieces ⟨t ++ '/' :: u⟩ = pieces ⟨t⟩ ++ u.splitOn '/' := by
  rw [pieces, lead_append_cons ht]
  simp only
  rw [List.drop_append_of_le_length (length_lead_le t), List.splitOn_append_cons_self]
  rfl

/-! ### Directories -/

/-- A path of a single name. -/
def Bare (p : Path) : Prop :=
  ∃ name, p.components = [.name name]

/-- The path ends with a piece that counts, or with its lead. -/
def Trimmed (p : Path) : Prop :=
  p.text = p.lead ++ ['/'].intercalate (dropIdleEnd p.pieces)

/-- A path of a single name has no lead, and only its first piece counts. -/
theorem Bare.eq {t : Text} (h : Bare ⟨t⟩) :
    lead ⟨t⟩ = [] ∧ ∃ piece idle, t.splitOn '/' = piece :: idle ∧ isIdle piece = false ∧
      ∀ q ∈ idle, isIdle q = true := by
  obtain ⟨name, hname⟩ := h
  have hlead : lead ⟨t⟩ = [] := by
    rcases lead_cases t with ⟨-, -, h⟩ | ⟨-, h⟩ | ⟨-, -, h⟩ | h
    · simp [components, leadComponents, h] at hname
    · simp [components, leadComponents, h] at hname
    · simp [components, leadComponents, h] at hname
    · exact h
  have hpieces : pieces ⟨t⟩ = t.splitOn '/' := by rw [pieces, hlead]; rfl
  obtain ⟨piece, idle, hsplit⟩ := List.exists_cons_of_ne_nil (List.splitOn_ne_nil '/' t)
  rw [components, leadComponents, hlead, hpieces, hsplit] at hname
  have hne : t ≠ [] := by
    rintro rfl
    obtain ⟨rfl, rfl⟩ := List.cons.inj hsplit
    cases hname
  have hpiece := isIdle_head hlead hsplit hne
  refine ⟨hlead, piece, idle, hsplit, hpiece, ?_⟩
  rw [List.filter_cons_of_pos (by simp [hpiece])] at hname
  obtain ⟨-, hrest⟩ := List.cons.inj hname
  simpa using hrest

/-- The directory of a path, when it is known which piece is the last that counts. -/
theorem parent?_of_pieces {p : Path} {pieces idle : List Text} {piece : Text}
    (h : p.pieces = pieces ++ piece :: idle) (hpiece : isIdle piece = false)
    (hidle : ∀ q ∈ idle, isIdle q = true) :
    p.parent? = some ⟨p.lead ++ ['/'].intercalate (dropIdleEnd pieces)⟩ := by
  rw [parent?, h, dropIdleEnd_append hidle hpiece]
  split
  · next hnil => simp at hnil
  · rw [List.dropLast_concat]

theorem parent?_of_bare {named : Text} (h : Bare ⟨named⟩) : parent? ⟨named⟩ = some ⟨[]⟩ := by
  obtain ⟨hlead, piece, idle, hsplit, hpiece, hidle⟩ := h.eq
  have hpieces : pieces ⟨named⟩ = [] ++ piece :: idle := by
    rw [pieces, hlead]
    exact hsplit
  rw [parent?_of_pieces hpieces hpiece hidle, hlead]
  rfl

theorem parent?_of_root {named : Text} (h : Bare ⟨named⟩) :
    parent? ⟨'/' :: named⟩ = some ⟨['/']⟩ := by
  obtain ⟨-, piece, idle, hsplit, hpiece, hidle⟩ := h.eq
  have hpieces : pieces ⟨'/' :: named⟩ = [] ++ piece :: idle := hsplit
  rw [parent?_of_pieces hpieces hpiece hidle]
  rfl

theorem parent?_append_cons {t : Text} (ht : t ≠ []) {named : Text} (h : Bare ⟨named⟩) :
    parent? ⟨t ++ '/' :: named⟩ =
      some ⟨lead ⟨t⟩ ++ ['/'].intercalate (dropIdleEnd (pieces ⟨t⟩))⟩ := by
  obtain ⟨-, piece, idle, hsplit, hpiece, hidle⟩ := h.eq
  have hpieces : pieces ⟨t ++ '/' :: named⟩ = pieces ⟨t⟩ ++ piece :: idle := by
    rw [pieces_append_cons ht, hsplit]
  rw [parent?_of_pieces hpieces hpiece hidle, lead_append_cons ht]

/-- **The directory of a file that is named by a single piece** is the one that it was put into. -/
theorem parent?_join {dir : Path} (hdir : dir.Trimmed) {named : Text} (hnamed : Bare ⟨named⟩) :
    (dir.join named).parent? = some dir := by
  obtain ⟨t⟩ := dir
  rw [join]
  split
  · next hslash =>
    rcases hslash with hnil | hlast
    · obtain rfl : t = [] := hnil
      exact parent?_of_bare hnamed
    · obtain ⟨front, rfl⟩ := List.getLast?_eq_some_iff.mp hlast
      rw [List.append_assoc, List.singleton_append]
      by_cases hfront : front = []
      · subst hfront
        exact parent?_of_root hnamed
      · -- The slash at the end is a piece that does not count.
        have hend : dropIdleEnd (pieces ⟨front ++ ['/']⟩) = dropIdleEnd (pieces ⟨front⟩) := by
          rw [pieces_append_cons hfront, dropIdleEnd_eq]
          exact List.rdropWhile_concat_pos _ _ _ rfl
        rw [Trimmed, hend, lead_append_cons hfront] at hdir
        rw [parent?_append_cons hfront hnamed, ← hdir]
  · next hplain =>
    have hne : t ≠ [] := (not_or.mp hplain).1
    rw [parent?_append_cons hne hnamed, ← hdir]

/-! ### A directory is trimmed -/

/-- The first pieces of a path, if the last one of them counts, do not lead on their own. -/
theorem lead_of_pieces {t : Text} {front : List Text} (hfront : front <+: pieces ⟨t⟩)
    (hend : dropIdleEnd front = front) :
    lead ⟨lead ⟨t⟩ ++ ['/'].intercalate front⟩ = lead ⟨t⟩ := by
  have hlone : front ≠ [[]] := by
    rintro rfl
    cases hend
  cases front with
  | nil => rcases lead_cases t with ⟨r, -, h⟩ | ⟨-, h⟩ | ⟨r, -, h⟩ | h <;> rw [h] <;> rfl
  | cons piece front =>
    obtain ⟨back, hback⟩ := hfront
    rcases lead_cases t with ⟨r, -, h⟩ | ⟨rfl, -⟩ | ⟨r, rfl, -⟩ | h
    · rw [h]
      rfl
    · have hpieces : pieces ⟨['.']⟩ = [[]] := rfl
      obtain ⟨rfl, hrest⟩ := List.cons.inj (hback.trans hpieces)
      rw [(List.append_eq_nil_iff.mp hrest).1] at hlone
      exact absurd rfl hlone
    · have hpieces : pieces ⟨'.' :: '/' :: r⟩ = [] :: r.splitOn '/' :=
        List.splitOn_append_cons_self [] r
      obtain ⟨rfl, -⟩ := List.cons.inj (hback.trans hpieces)
      have hmore : front ≠ [] := fun hnil => hlone (by rw [hnil])
      obtain ⟨next, front, rfl⟩ := List.exists_cons_of_ne_nil hmore
      rw [List.intercalate_cons_cons]
      rfl
    · have hpieces : t.splitOn '/' = piece :: (front ++ back) := by
        rw [← List.cons_append, hback, pieces, h]
        rfl
      have hne : t ≠ [] := by
        rintro rfl
        obtain ⟨rfl, hrest⟩ := List.cons.inj hpieces
        rw [(List.append_eq_nil_iff.mp hrest.symm).1] at hlone
        exact hlone rfl
      have hpiece := isIdle_head h hpieces hne
      have hslash : '/' ∉ piece := slash_notMem_of_mem_splitOn (hpieces ▸ List.mem_cons_self)
      rw [h, List.nil_append]
      by_cases hnil : front = []
      · rw [hnil, List.intercalate_singleton, ← List.append_nil piece]
        exact lead_append hpiece hslash []
      · rw [List.intercalate_cons_of_ne_nil hnil, List.append_assoc]
        exact lead_append hpiece hslash _

/-- A lead with the first pieces after it, of which the last one counts, gives these pieces again.
-/
theorem dropIdleEnd_pieces {p : Path} {front : List Text} (hfront : front <+: p.pieces)
    (hend : dropIdleEnd front = front) :
    dropIdleEnd (pieces ⟨p.lead ++ ['/'].intercalate front⟩) = front := by
  rw [pieces, lead_of_pieces hfront hend, List.drop_left]
  by_cases hnil : front = []
  · subst hnil
    rfl
  · rw [List.splitOn_intercalate '/' (fun piece hpiece => ?_) hnil, hend]
    exact slash_notMem_of_mem_splitOn (hfront.subset hpiece)

theorem trimmed_of_pieces {p : Path} {front : List Text} (hfront : front <+: p.pieces)
    (hend : dropIdleEnd front = front) : Trimmed ⟨p.lead ++ ['/'].intercalate front⟩ := by
  rw [Trimmed, lead_of_pieces hfront hend, dropIdleEnd_pieces hfront hend]

theorem trimmed_of_parent? {p dir : Path} (h : p.parent? = some dir) : dir.Trimmed := by
  rw [parent?] at h
  split at h
  · split_ifs at h
    obtain rfl := Option.some.inj h
    rfl
  · next hnonempty =>
    obtain rfl := Option.some.inj h
    refine trimmed_of_pieces ?_ (List.rdropWhile_idempotent ..)
    exact ((List.rdropWhile_prefix ..).trans (List.dropLast_prefix _)).trans
      (List.rdropWhile_prefix ..)

/-! ### Paths that stand in a file -/

theorem isAbsolute_of_bare {named : Text} (h : Bare ⟨named⟩) : isAbsolute ⟨named⟩ = false := by
  obtain ⟨hlead, -⟩ := h.eq
  cases named with
  | nil => rfl
  | cons c named =>
    have hc : c ≠ '/' := by
      rintro rfl
      cases hlead
    simpa [isAbsolute] using hc

/-- **A file that is named by a single piece names what the file that names it does.** -/
theorem resolve_resolve (p : Path) {named : Text} (h : Bare ⟨named⟩) (target : Text) :
    (p.resolve named).resolve target = p.resolve target := by
  simp only [resolve, isAbsolute_of_bare h, Bool.false_eq_true, if_false]
  by_cases habsolute : isAbsolute ⟨target⟩ = true
  · rw [if_pos habsolute, if_pos habsolute]
  · rw [if_neg habsolute, if_neg habsolute]
    cases hparent : p.parent? with
    | none =>
      simp only [parent?_of_bare h]
      rfl
    | some dir =>
      simp only [parent?_join (trimmed_of_parent? hparent) h]

end Path

end TextExpander
