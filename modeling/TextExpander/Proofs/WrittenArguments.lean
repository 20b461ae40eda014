import TextExpander.Proofs.Balance
import TextExpander.Proofs.CallArguments
import TextExpander.Proofs.ClosedCalls
import TextExpander.Proofs.Words

/-!
# Arguments as they are written

The value of an argument can be written in two ways. In parentheses of its own it can be any
balanced text. Without them it must be a text that the splitting leaves alone: nothing to trim, no
comma outside parentheses, and no pair of parentheses around the whole. Either way white space may
stand around it. Whichever way is taken for each argument, the splitting recovers the values, so the
way in which arguments are laid out never changes a call.

The splitting looks for commas first and at the pieces between them afterwards, and so does the
proof. A piece that keeps the level and has no comma at level zero is passed over as a whole
(`Parens.Unsplit`), and pieces of this kind with commas between them are the pieces that are found.

## Main definitions

* `Parens.Unsplit`: symbols that no comma splits.
* `Parens.Spells`, `Parens.Writes`: a value as it is written, without and with white space around.
* `WrittenArgument`: an argument that is written in one of the two ways.

## Main results

* `Parens.pieces_of_separated`: pieces between commas are recovered.
* `Parens.arguments_of_separated`: arguments are recovered.
* `Parens.arguments_plain`: the arguments of plain text are plain.
* `Outline.scan_of_name`: a call as it is written.
* `written_arguments_are_recovered`: arguments and their ranges.
-/

namespace TextExpander

namespace Parens

variable {α : Type} [Symbol α]

/-! ### Pieces between commas -/

/-- Symbols that keep the level and that no comma splits. -/
structure Unsplit (xs : List α) : Prop where
  /-- They keep the level. -/
  neutral : Neutral xs
  /-- Each comma stands where a parenthesis is open. -/
  no_comma : ∀ front a rest, xs = front ++ a :: rest → Symbol.shown a = ',' → ¬ Neutral front

/-- The search for commas goes through symbols as the level does, unless it meets one at level
zero. -/
theorem piecesFrom_of_levelAfter? {depth n : Nat} {part : List α}
    (h : levelAfter? depth part = some n)
    (hcomma : ∀ front a rest, part = front ++ a :: rest → Symbol.shown a = ',' →
      levelAfter? depth front ≠ some 0) (passed rest : List α) :
    piecesFrom depth passed (part ++ rest) = piecesFrom n (part.reverse ++ passed) rest := by
  induction part generalizing depth passed with
  | nil =>
    obtain rfl := Option.some.inj h
    rfl
  | cons a part ih =>
    obtain ⟨hlevel, hpart⟩ := levelAfter?_depthAfter h
    have ha : ¬ (Symbol.shown a = ',' ∧ depth = 0) := by
      rintro ⟨ha, rfl⟩
      exact hcomma [] a part rfl ha rfl
    rw [List.cons_append, piecesFrom_other ha, ih hpart fun front b after hfront hb => ?_,
      List.reverse_cons, List.append_assoc]
    · rfl
    · have hnext := hcomma (a :: front) b after (congrArg (a :: ·) hfront) hb
      rwa [← List.singleton_append, levelAfter?_append, hlevel, Option.bind_some] at hnext

theorem Unsplit.piecesFrom {part : List α} (h : Unsplit part) (rest : List α) :
    piecesFrom 0 [] (part ++ rest) = piecesFrom 0 part.reverse rest := by
  rw [piecesFrom_of_levelAfter? (h.neutral 0), List.append_nil]
  intro front a after hpart ha
  rw [Ne, ← neutral_iff]
  exact h.no_comma front a after hpart ha

/-- **Pieces between commas are recovered**, if no comma splits a piece. -/
theorem pieces_of_separated {xs : List α} {ps : List (List α)} (h : Separated xs ps)
    (hps : ∀ p ∈ ps, Unsplit p) : pieces xs = ps := by
  induction h with
  | last piece =>
    have hpiece := (hps piece List.mem_cons_self).piecesFrom []
    rw [List.append_nil] at hpiece
    rw [pieces, hpiece, Parens.piecesFrom, List.reverse_reverse]
  | comma piece ha _ ih =>
    rw [pieces, (hps piece List.mem_cons_self).piecesFrom, piecesFrom_comma ha,
      List.reverse_reverse]
    exact congrArg _ (ih fun p hp => hps p (List.mem_cons_of_mem piece hp))

theorem Separated.neutral {xs : List α} {ps : List (List α)} (h : Separated xs ps)
    (hps : ∀ p ∈ ps, Neutral p) : Neutral xs := by
  induction h with
  | last piece => exact hps piece List.mem_cons_self
  | @comma piece a _ _ ha _ ih =>
    have hcomma : Neutral [a] := neutral_of_forall (by simp [ha])
    have hrest := ih fun p hp => hps p (List.mem_cons_of_mem piece hp)
    exact (hps piece List.mem_cons_self).append (hcomma.append hrest)

/-! ### Symbols that no comma splits -/

omit [Symbol α] in
/-- What stands in two parts stands in the first or in the second. -/
theorem place_append {xs ys front rest : List α} {a : α} (h : xs ++ ys = front ++ a :: rest) :
    (∃ later, xs = front ++ a :: later) ∨ ∃ middle, front = xs ++ middle ∧
      ys = middle ++ a :: rest := by
  rcases List.append_eq_append_iff.mp h with ⟨middle, hfront, hys⟩ | ⟨middle, hxs, hrest⟩
  · exact .inr ⟨middle, hfront, hys⟩
  · cases middle with
    | nil => exact .inr ⟨[], by simpa using hxs.symm, hrest.symm⟩
    | cons b middle =>
      obtain ⟨rfl, -⟩ := List.cons.inj hrest
      exact .inl ⟨middle, hxs⟩

theorem Unsplit.append {xs ys : List α} (hxs : Unsplit xs) (hys : Unsplit ys) :
    Unsplit (xs ++ ys) where
  neutral := hxs.neutral.append hys.neutral
  no_comma := by
    intro front a rest h ha hfront
    rcases place_append h with ⟨later, hlater⟩ | ⟨middle, rfl, hmiddle⟩
    · exact hxs.no_comma front a later hlater ha hfront
    · exact hys.no_comma middle a rest hmiddle ha (hxs.neutral.of_append_right hfront)

theorem unsplit_of_forall {xs : List α} (hneutral : Neutral xs)
    (hcomma : ∀ a ∈ xs, Symbol.shown a ≠ ',') : Unsplit xs where
  neutral := hneutral
  no_comma := by
    rintro front a rest rfl ha
    exact absurd ha (hcomma a (List.mem_append_right front List.mem_cons_self))

theorem unsplit_of_isSpace {xs : List α} (h : ∀ a ∈ xs, Symbol.isSpace a = true) : Unsplit xs := by
  refine unsplit_of_forall (neutral_of_isSpace h) fun a ha hcomma => ?_
  have hspace := h a ha
  rw [Symbol.isSpace, hcomma] at hspace
  exact absurd hspace (by decide)

/-- Between parentheses every comma is at level one or higher. -/
theorem Neutral.unsplit_parenthesized {a b : α} (ha : Symbol.shown a = '(')
    (hb : Symbol.shown b = ')') {xs : List α} (h : Neutral xs) : Unsplit (a :: xs ++ [b]) where
  neutral := h.parenthesized ha hb
  no_comma := by
    intro front c rest heq hc hfront
    cases front with
    | nil =>
      obtain ⟨rfl, -⟩ := List.cons.inj heq
      rw [ha] at hc
      exact absurd hc (by decide)
    | cons d front =>
      obtain ⟨rfl, hxs⟩ := List.cons.inj heq
      -- The comma is not the closing parenthesis, so it stands before it.
      obtain ⟨rest, rfl⟩ : ∃ rest, xs = front ++ c :: rest := by
        refine (place_append hxs).resolve_right ?_
        rintro ⟨middle, -, hmiddle⟩
        have hmem : c ∈ [b] := hmiddle ▸ List.mem_append_right middle List.mem_cons_self
        rw [List.mem_singleton.mp hmem, hb] at hc
        exact absurd hc (by decide)
      have hlevel := h 0
      rw [levelAfter?_append] at hlevel
      obtain ⟨n, hn, -⟩ := Option.bind_eq_some_iff.mp hlevel
      have hopened := hfront 0
      rw [levelAfter?_opening ha, levelAfter?_add hn 1] at hopened
      cases hopened

/-! ### Values as they are written -/

/-- Parentheses around the whole, and the inside keeps the level: that is when they are taken
off. -/
theorem unwrap?_eq_some_iff {xs inside : List α} :
    unwrap? xs = some inside ↔ ∃ a b, Symbol.shown a = '(' ∧ Symbol.shown b = ')' ∧
      Neutral inside ∧ xs = a :: inside ++ [b] := by
  constructor
  · intro h
    obtain ⟨a, rest, rfl, ha, hclose⟩ := exists_of_unwrap? h
    obtain ⟨b, hb, rfl⟩ := eq_of_close? hclose
    exact ⟨a, b, ha, hb, neutral_of_close? hclose, rfl⟩
  · rintro ⟨a, b, ha, hb, hinside, rfl⟩
    exact unwrap?_of_close? ha (close?_of_neutral hinside hb [])

/-- The symbols are a value as it is written, without white space around. -/
inductive Spells : (core value : List α) → Prop
  /-- The value in parentheses. -/
  | wrapped {value : List α} {a b : α} : Symbol.shown a = '(' → Symbol.shown b = ')' →
      Neutral value → Spells (a :: value ++ [b]) value
  /-- The value alone, where the splitting leaves it as it is. -/
  | bare {value : List α} : Unsplit value → Symbol.trim value = value → unwrap? value = none →
      Spells value value

theorem Spells.unsplit {core value : List α} (h : Spells core value) : Unsplit core := by
  cases h with
  | wrapped ha hb hvalue => exact hvalue.unsplit_parenthesized ha hb
  | bare hvalue _ _ => exact hvalue

theorem Spells.trim {core value : List α} (h : Spells core value) : Symbol.trim core = core := by
  cases h with
  | @wrapped value a b ha hb _ =>
    refine Symbol.trim_of_ends (fun c hc => ?_) fun c hc => ?_
    · obtain rfl : a = c := by simpa using hc
      rw [Symbol.isSpace, ha]
      decide
    · rw [List.getLast?_concat, Option.mem_some] at hc
      subst hc
      rw [Symbol.isSpace, hb]
      decide
  | bare _ htrim _ => exact htrim

/-- The symbols are a value as it is written, with white space around. -/
def Writes (piece value : List α) : Prop :=
  ∃ before core after, piece = before ++ core ++ after ∧
    (∀ a ∈ before, Symbol.isSpace a = true) ∧ (∀ a ∈ after, Symbol.isSpace a = true) ∧
    Spells core value

theorem Spells.writes {core value : List α} (h : Spells core value) : Writes core value :=
  ⟨[], core, [], by simp, by simp, by simp, h⟩

theorem Writes.unsplit {piece value : List α} (h : Writes piece value) : Unsplit piece := by
  obtain ⟨before, core, after, rfl, hbefore, hafter, hcore⟩ := h
  exact ((unsplit_of_isSpace hbefore).append hcore.unsplit).append (unsplit_of_isSpace hafter)

theorem Writes.trim_eq {piece value : List α} (h : Writes piece value) :
    Spells (Symbol.trim piece) value := by
  obtain ⟨before, core, after, rfl, hbefore, hafter, hcore⟩ := h
  rwa [Symbol.trim_append_right hafter, Symbol.trim_append_left hbefore, hcore.trim]

theorem Writes.value_ofPiece {piece value : List α} (h : Writes piece value) :
    (Argument.ofPiece piece).value = value := by
  have hcore := h.trim_eq
  generalize htrim : Symbol.trim piece = core at hcore
  cases hcore with
  | wrapped ha hb hvalue =>
    rw [Argument.ofPiece_of_some
      (htrim ▸ unwrap?_eq_some_iff.mpr ⟨_, _, ha, hb, hvalue, rfl⟩)]
  | bare _ _ hnone => rw [Argument.ofPiece_of_none (htrim.symm ▸ hnone), htrim]

/-- **Arguments are recovered** from the pieces that they are written in. -/
theorem arguments_of_separated {ι : Type} {ws : List ι} {piece value : ι → List α} {xs : List α}
    (h : Separated xs (ws.map piece)) (hws : ∀ w ∈ ws, Writes (piece w) (value w))
    (hblank : Symbol.isBlank xs = false) : arguments xs = ws.map value := by
  have hunsplit : ∀ p ∈ ws.map piece, Unsplit p := List.forall_mem_map.mpr fun w hw =>
    (hws w hw).unsplit
  rw [arguments, hblank, if_neg Bool.false_ne_true, pieces_of_separated h hunsplit, List.map_map]
  exact List.map_congr_left fun w hw => (hws w hw).value_ofPiece

/-- A value as it is written is the only argument, unless the text is blank. -/
theorem Spells.arguments {core value : List α} (h : Spells core value)
    (hblank : Symbol.isBlank core = false) : arguments core = [value] := by
  have hseparated : Separated core ([core].map id) := .last core
  have hwrites : ∀ w ∈ [core], Writes (id w) ((fun _ => value) w) :=
    List.forall_mem_singleton.mpr h.writes
  exact arguments_of_separated hseparated hwrites hblank

/-! ### Where the arguments are -/

/-- A piece is what is dropped before its value, the value, and what is dropped after it. -/
theorem Argument.exists_after (piece : List α) :
    ∃ after, piece = (ofPiece piece).dropped ++ (ofPiece piece).value ++ after := by
  obtain ⟨trailing, hpiece, -⟩ := Symbol.exists_trimRight piece
  have hended := Symbol.trimRight_eq piece
  generalize hspace : (Symbol.trimRight piece).takeWhile Symbol.isSpace = space at hended
  cases hunwrap : unwrap? (Symbol.trim piece) with
  | none =>
    rw [ofPiece_of_none hunwrap, hspace, ← hended]
    exact ⟨trailing, hpiece⟩
  | some inside =>
    obtain ⟨a, b, -, -, -, htrim⟩ := unwrap?_eq_some_iff.mp hunwrap
    rw [ofPiece_of_some hunwrap, hspace, htrim]
    refine ⟨b :: trailing, ?_⟩
    nth_rewrite 1 [hpiece]
    rw [hended, htrim]
    simp

theorem Separated.mem {xs : List α} {ps : List (List α)} (h : Separated xs ps) :
    ∀ p ∈ ps, ∀ a ∈ p, a ∈ xs := by
  induction h with
  | last piece => simp
  | comma piece _ _ ih =>
    intro p hp a ha
    rcases List.mem_cons.mp hp with rfl | hp
    · exact List.mem_append_left _ ha
    · exact List.mem_append_right piece (List.mem_cons_of_mem _ (ih p hp a ha))

theorem mem_of_mem_arguments {xs v : List α} (hv : v ∈ arguments xs) {a : α} (ha : a ∈ v) :
    a ∈ xs := by
  rw [arguments] at hv
  split_ifs at hv
  · cases hv
  · obtain ⟨piece, hpiece, rfl⟩ := List.mem_map.mp hv
    obtain ⟨after, hparts⟩ := Argument.exists_after piece
    refine (separated_pieces xs).mem piece hpiece a ?_
    rw [hparts]
    exact List.mem_append_left after (List.mem_append_right _ ha)

/-- **The arguments of plain text** are those of the text, and plain. -/
theorem arguments_plain (t : Text) :
    arguments (Fragment.plain t) = (arguments t).map Fragment.plain := by
  have hchars : arguments t = (arguments (Fragment.plain t)).map Symbol.chars := by
    rw [← arguments_chars]
    exact congrArg arguments (Fragment.scan_plain t).symm
  have hcell : ∀ a ∈ Fragment.plain t, Cell.plain (Symbol.shown a) = a :=
    List.forall_mem_map.mpr fun c _ => rfl
  have hplain : ∀ v ∈ arguments (Fragment.plain t), Fragment.plain (Symbol.chars v) = id v := by
    intro v hv
    rw [Fragment.plain, Symbol.chars, List.map_map]
    exact (List.map_congr_left fun a ha => hcell a (mem_of_mem_arguments hv ha)).trans
      (List.map_id v)
  rw [hchars, List.map_map]
  exact ((List.map_congr_left hplain).trans (List.map_id _)).symm

theorem exists_parts_ofPiece {t front piece rest : Text} (ht : t = front ++ piece ++ rest) :
    ∃ before after, t = before ++ (Argument.ofPiece piece).value ++ after ∧
      Text.byteLength front + Text.byteLength (Argument.ofPiece piece).dropped =
        Text.byteLength before := by
  obtain ⟨after, hpiece⟩ := Argument.exists_after piece
  refine ⟨front ++ (Argument.ofPiece piece).dropped, after ++ rest, ?_, ?_⟩
  · rw [ht]
    nth_rewrite 1 [hpiece]
    simp
  · rw [Text.byteLength_append]

/-- The range that is given for an argument is where its value stands. -/
theorem exists_parts_of_mem_locateFrom {t front rest : Text} {ps : List Text}
    (h : Separated rest ps) (ht : t = front ++ rest) :
    ∀ found ∈ locateFrom (Text.byteLength front) ps, ∃ before after,
      t = before ++ found.1 ++ after ∧ found.2.1 = Text.byteLength before ∧
        found.2.2 = Text.byteLength before + Text.byteLength found.1 := by
  induction h generalizing front with
  | last piece =>
    rw [← List.append_nil piece, ← List.append_assoc] at ht
    obtain ⟨before, after, hparts, hlength⟩ := exists_parts_ofPiece ht
    simp only [locateFrom, List.mem_singleton, Symbol.byteLength_text, hlength]
    rintro _ rfl
    exact ⟨before, after, hparts, rfl, rfl⟩
  | @comma piece a rest ps ha _ ih =>
    rw [← List.append_assoc] at ht
    obtain ⟨before, after, hparts, hlength⟩ := exists_parts_ofPiece ht
    obtain rfl : a = ',' := ha
    have hnext : Text.byteLength front + Text.byteLength piece + 1 =
        Text.byteLength (front ++ piece ++ [',']) := by
      rw [Text.byteLength_append, Text.byteLength_append]
      rfl
    simp only [locateFrom, List.mem_cons, Symbol.byteLength_text, hlength, hnext]
    rintro found (rfl | hfound)
    · exact ⟨before, after, hparts, rfl, rfl⟩
    · exact ih (by rw [ht]; simp) found hfound

theorem le_of_mem_locateFrom {start : Nat} {ps : List Text} :
    ∀ found ∈ locateFrom start ps, start ≤ found.2.1 := by
  induction ps generalizing start with
  | nil => simp [locateFrom]
  | cons piece ps ih =>
    simp only [locateFrom, List.mem_cons]
    rintro found (rfl | hfound)
    · exact Nat.le_add_right _ _
    · have hle := ih found hfound
      omega

/-- Each range ends before the next one starts. -/
theorem pairwise_locateFrom (start : Nat) (ps : List Text) :
    (locateFrom start ps).Pairwise fun found next => found.2.2 < next.2.1 := by
  induction ps generalizing start with
  | nil => exact .nil
  | cons piece ps ih =>
    refine .cons (fun next hnext => ?_) (ih _)
    have hle := le_of_mem_locateFrom next hnext
    obtain ⟨after, hpiece⟩ := Argument.exists_after piece
    have hlength := congrArg Text.byteLength hpiece
    rw [Text.byteLength_append, Text.byteLength_append] at hlength
    simp only [Symbol.byteLength_text] at hle ⊢
    omega

end Parens

/-! ### Calls as they are written -/

namespace Outline

variable {α β : Type} [Symbol α] {resolve : Text → Option β}

theorem findCall_append_word {name : List α} (h : ∀ a ∈ name, Symbol.isWord a = true)
    (passed word xs : List α) :
    findCall resolve passed word (name ++ xs) =
      findCall resolve passed (name.reverse ++ word) xs := by
  induction name generalizing word with
  | nil => rfl
  | cons a name ih =>
    rw [List.cons_append, findCall_word (h a List.mem_cons_self),
      ih fun b hb => h b (List.mem_cons_of_mem a hb)]
    simp

/-- A name that refers to something is a word. -/
theorem isWord_of_refer {name : List α} {callee : β} (h : refer resolve name = some callee) :
    ∀ a ∈ name, Symbol.isWord a = true := by
  rw [refer] at h
  split_ifs at h with hname
  intro a ha
  exact Text.isWordChar_of_isIdentifier hname _ (List.mem_map_of_mem ha)

/-- **A call as it is written.** A known name, and parentheses around what keeps the level. -/
theorem scan_of_name {name inside : List α} {callee : β} (hname : refer resolve name = some callee)
    {a b : α} (ha : Symbol.shown a = '(') (hinside : Parens.Neutral inside)
    (hb : Symbol.shown b = ')') (rest : List α) :
    scan resolve (name ++ a :: (inside ++ b :: rest)) =
      call [] callee inside (scan resolve rest) := by
  have hfind : findCall resolve [] [] (name ++ a :: (inside ++ b :: rest)) =
      some ⟨[], callee, inside ++ b :: rest⟩ := by
    rw [findCall_append_word (isWord_of_refer hname), List.append_nil]
    exact findCall_call ha (by rwa [List.reverse_reverse]) [] _
  exact scan_of_call hfind (Parens.close?_of_neutral hinside hb rest)

end Outline

theorem Fragment.plain_call (name inside rest : Text) :
    plain (name ++ '(' :: (inside ++ ')' :: rest)) =
      plain name ++ Cell.plain '(' :: (plain inside ++ Cell.plain ')' :: plain rest) := by
  simp [plain]

namespace Expansion

theorem refer_plain {table : Table} {name : Text} (h : Text.isIdentifier name = true) :
    Outline.refer table.callee? (Fragment.plain name) = table.callee? name := by
  rw [Outline.refer, show Symbol.chars (Fragment.plain name) = name from Fragment.scan_plain name,
    if_pos h]

/-- A call sees its arguments and nothing else of what stands between its parentheses. -/
theorem expandCall_congr {inside inside' : Fragment}
    (h : Parens.arguments inside = Parens.arguments inside')
    (inner : Fragment → Except Fault Fragment) (callee : Callee) :
    expandCall inner callee inside = expandCall inner callee inside' := by
  simp only [expandCall, h]

end Expansion

/-- Balanced texts with the same arguments may be exchanged between the parentheses of a call. -/
theorem expand_call_congr {table : Table} {name : Text} (hname : Text.isIdentifier name = true)
    (hknown : (table.callee? name).isSome = true) {inside inside' : Text}
    (hinside : Parens.Neutral inside) (hinside' : Parens.Neutral inside')
    (harguments : Parens.arguments inside = Parens.arguments inside') (limit : Nat) (rest : Text) :
    expand table limit (name ++ '(' :: (inside ++ ')' :: rest)) =
      expand table limit (name ++ '(' :: (inside' ++ ')' :: rest)) := by
  obtain ⟨callee, hcallee⟩ := Option.isSome_iff_exists.mp hknown
  rw [← Expansion.refer_plain hname] at hcallee
  have hscan : ∀ {t : Text}, Parens.Neutral t →
      Outline.scan table.callee? (Fragment.plain (name ++ '(' :: (t ++ ')' :: rest))) =
        .call [] callee (Fragment.plain t)
          (Outline.scan table.callee? (Fragment.plain rest)) := by
    intro t ht
    rw [Fragment.plain_call]
    refine Outline.scan_of_name hcallee rfl ?_ rfl _
    intro level
    rw [Parens.levelAfter?_plain, ht level]
  rw [expand, expand]
  cases limit with
  | zero =>
    simp only [Expansion.expandFragment, hscan hinside, hscan hinside', Expansion.expandOutline]
  | succ limit =>
    have hplain : Parens.arguments (Fragment.plain inside) =
        Parens.arguments (Fragment.plain inside') := by
      rw [Parens.arguments_plain, Parens.arguments_plain, harguments]
    simp only [Expansion.expandFragment, hscan hinside, hscan hinside', Expansion.expandOutline,
      Expansion.expandCall_congr hplain]

/-! ### Written arguments -/

/-- A text that can be an argument without parentheses around it. -/
structure Text.Bare (v : Text) : Prop where
  /-- It has no white space at its ends. -/
  trimmed : Symbol.trim v = v
  /-- Before each comma more parentheses are opened than closed. -/
  no_comma : ∀ front, front ++ [','] <+: v → front.count '(' ≠ front.count ')'
  /-- It is not one pair of parentheses around a balanced text. -/
  no_pair : ∀ inside : Text, v = '(' :: inside ++ [')'] → ¬ inside.Balanced

instance (v : Text) : Decidable v.Bare :=
  decidable_of_iff (Symbol.trim v = v ∧
      (∀ front ∈ v.inits, front ++ [','] <+: v → front.count '(' ≠ front.count ')') ∧
      (v = '(' :: v.tail.dropLast ++ [')'] → ¬ Text.Balanced v.tail.dropLast)) <| by
    constructor
    · rintro ⟨htrim, hcomma, hpair⟩
      refine ⟨htrim, fun front hfront => ?_, ?_⟩
      · exact hcomma front ((List.mem_inits _ _).mpr ((List.prefix_append _ _).trans hfront)) hfront
      · rintro inside rfl
        simpa using hpair
    · rintro ⟨htrim, hcomma, hpair⟩
      exact ⟨htrim, fun front _ => hcomma front, hpair _⟩

/-- An argument as it is written: white space, the value or the value in parentheses, white
space. -/
structure WrittenArgument where
  /-- The white space before it. -/
  before : Text
  /-- The value. -/
  value : Text
  /-- The white space after it. -/
  after : Text
  /-- Whether the value stands in parentheses of its own. -/
  wrapped : Bool
  /-- What stands before it is white space. -/
  before_blank : Symbol.isBlank before = true
  /-- What stands after it is white space. -/
  after_blank : Symbol.isBlank after = true
  /-- Parentheses match in the value. -/
  balanced : value.Balanced
  /-- Without parentheses of its own the value is one that can do without. -/
  bare : wrapped = false → value.Bare

namespace WrittenArgument

/-- The text of an argument without the white space. -/
def core (w : WrittenArgument) : Text :=
  if w.wrapped then '(' :: w.value ++ [')'] else w.value

/-- The text of an argument. -/
def text (w : WrittenArgument) : Text :=
  w.before ++ w.core ++ w.after

/-- Several arguments with commas between them. -/
def joined (ws : List WrittenArgument) : Text :=
  [','].intercalate (ws.map text)

/-- There are arguments, and they are not a single one that is empty and without parentheses: an
empty text between the parentheses of a call holds no argument. -/
def Legible (ws : List WrittenArgument) : Prop :=
  ws ≠ [] ∧ ∀ w, ws = [w] → w.wrapped = false → w.value ≠ []

theorem before_space (w : WrittenArgument) : ∀ c ∈ w.before, Symbol.isSpace c = true :=
  List.all_eq_true.mp w.before_blank

theorem after_space (w : WrittenArgument) : ∀ c ∈ w.after, Symbol.isSpace c = true :=
  List.all_eq_true.mp w.after_blank

theorem spells (w : WrittenArgument) : Parens.Spells w.core w.value := by
  have hneutral := Text.balanced_iff_neutral.mp w.balanced
  rw [core]
  split_ifs with hwrapped
  · exact .wrapped rfl rfl hneutral
  · have hbare := w.bare (Bool.eq_false_iff.mpr hwrapped)
    refine .bare ⟨hneutral, fun front a rest hparts ha hfront => ?_⟩ hbare.trimmed ?_
    · obtain rfl : a = ',' := ha
      refine hbare.no_comma front ⟨rest, by rw [hparts]; simp⟩ ?_
      exact (Text.balanced_iff_neutral.mpr hfront).2
    · refine Option.eq_none_iff_forall_not_mem.mpr fun inside hinside => ?_
      obtain ⟨a, b, ha, hb, hinner, hvalue⟩ := Parens.unwrap?_eq_some_iff.mp hinside
      obtain rfl : a = '(' := ha
      obtain rfl : b = ')' := hb
      exact hbare.no_pair inside hvalue (Text.balanced_iff_neutral.mpr hinner)

theorem writes (w : WrittenArgument) : Parens.Writes w.text w.value :=
  ⟨w.before, w.core, w.after, rfl, w.before_space, w.after_space, w.spells⟩

end WrittenArgument

theorem Parens.separated_intercalate {ps : List Text} (h : ps ≠ []) :
    Separated ([','].intercalate ps) ps := by
  induction ps with
  | nil => exact absurd rfl h
  | cons p ps ih =>
    cases ps with
    | nil =>
      rw [List.intercalate_singleton]
      exact .last p
    | cons q ps =>
      rw [List.intercalate_cons_cons, List.append_assoc]
      exact .comma p rfl (ih (List.cons_ne_nil q ps))

namespace WrittenArgument

variable {ws : List WrittenArgument}

theorem Legible.separated (h : Legible ws) : Parens.Separated (joined ws) (ws.map text) :=
  Parens.separated_intercalate (by simpa using h.1)

theorem Legible.isBlank_joined (h : Legible ws) : Symbol.isBlank (joined ws) = false := by
  match ws, h with
  | [], h => exact absurd rfl h.1
  | [w], h =>
    have hcore : Symbol.trim w.text = w.core := by
      rw [text, Symbol.trim_append_right w.after_space, Symbol.trim_append_left w.before_space,
        w.spells.trim]
    have hne : w.core ≠ [] := by
      rw [core]
      split_ifs with hwrapped
      · exact List.cons_ne_nil _ _
      · exact h.2 w rfl (Bool.eq_false_iff.mpr hwrapped)
    rw [joined, List.map_singleton, List.intercalate_singleton, ← Symbol.isEmpty_trim, hcore]
    simpa using hne
  | w :: w' :: ws, _ =>
    have hcomma : ',' ∈ joined (w :: w' :: ws) := by
      rw [joined, List.map_cons, List.map_cons, List.intercalate_cons_cons]
      simp
    rw [Symbol.isBlank, List.all_eq_false]
    exact ⟨',', hcomma, by decide⟩

theorem Legible.arguments_joined (h : Legible ws) :
    Parens.arguments (joined ws) = ws.map value :=
  Parens.arguments_of_separated h.separated (fun w _ => w.writes) h.isBlank_joined

theorem Legible.neutral_joined (h : Legible ws) : Parens.Neutral (joined ws) :=
  h.separated.neutral (List.forall_mem_map.mpr fun w _ => w.writes.unsplit.neutral)

theorem Legible.locate_joined (h : Legible ws) :
    Parens.locate (joined ws) = Parens.locateFrom 0 (ws.map text) := by
  have hpieces : Parens.pieces (joined ws) = ws.map text :=
    Parens.pieces_of_separated h.separated (List.forall_mem_map.mpr fun w _ => w.writes.unsplit)
  rw [Parens.locate, h.isBlank_joined, if_neg Bool.false_ne_true, hpieces]

end WrittenArgument

theorem Parens.map_fst_locate {α : Type} [Symbol α] (xs : List α) :
    (locate xs).map Prod.fst = arguments xs := by
  have hfrom : ∀ (start : Nat) (ps : List (List α)), (locateFrom start ps).map Prod.fst =
      ps.map fun piece => (Argument.ofPiece piece).value := by
    intro start ps
    induction ps generalizing start with
    | nil => rfl
    | cons piece ps ih => exact congrArg _ (ih _)
  rw [locate, arguments]
  split_ifs
  · rfl
  · exact hfrom 0 (pieces xs)

/-- **Arguments are recovered as they were written.** Each argument is a balanced text, written in
parentheses of its own or, where the splitting leaves it alone, without; white space may stand
around it, and commas stand between the arguments. Then as many ranges are found as there are
arguments, each where its value stands between characters, and each ends before the next starts. In
particular two ways of writing the same values are the same call of whatever is called. -/
theorem written_arguments_are_recovered (ws : List WrittenArgument)
    (h : WrittenArgument.Legible ws) :
    (Parens.locate (WrittenArgument.joined ws)).map Prod.fst = ws.map WrittenArgument.value ∧
      (Parens.locate (WrittenArgument.joined ws)).Pairwise
        (fun found next => found.2.2 < next.2.1) ∧
      (∀ found ∈ Parens.locate (WrittenArgument.joined ws), ∃ before after,
        WrittenArgument.joined ws = before ++ found.1 ++ after ∧
          found.2.1 = Text.byteLength before ∧
          found.2.2 = Text.byteLength before + Text.byteLength found.1) ∧
      ∀ ws', WrittenArgument.Legible ws' →
        ws'.map WrittenArgument.value = ws.map WrittenArgument.value →
        ∀ (table : Table) (limit : Nat) (name rest : Text), Text.isIdentifier name = true →
          (table.callee? name).isSome = true →
            expand table limit (name ++ '(' :: (WrittenArgument.joined ws' ++ ')' :: rest)) =
              expand table limit (name ++ '(' :: (WrittenArgument.joined ws ++ ')' :: rest)) := by
  refine ⟨?_, ?_, ?_, ?_⟩
  · rw [Parens.map_fst_locate, h.arguments_joined]
  · rw [h.locate_joined]
    exact Parens.pairwise_locateFrom 0 _
  · rw [h.locate_joined]
    exact Parens.exists_parts_of_mem_locateFrom h.separated (List.nil_append _).symm
  · intro ws' h' hvalues table limit name rest hname hknown
    refine expand_call_congr hname hknown h'.neutral_joined h.neutral_joined ?_ limit rest
    rw [h'.arguments_joined, h.arguments_joined, hvalues]

/-- Four arguments: one over two lines without parentheses, one in parentheses with a comma and a
blank, an empty one, and one that is two pairs of parentheses. -/
theorem four_written_arguments_are_recovered :
    let ws : List WrittenArgument :=
      [⟨" ".toList, "g(é,\n b)".toList, "\n".toList, false, by decide, by decide, by decide,
          fun _ => by decide⟩,
        ⟨[], ", é".toList, "\t".toList, true, by decide, by decide, by decide, nofun⟩,
        ⟨" ".toList, [], [], false, by decide, by decide, by decide, fun _ => by decide⟩,
        ⟨[], "(a)(b)".toList, [], false, by decide, by decide, by decide, fun _ => by decide⟩]
    WrittenArgument.Legible ws ∧
      (Parens.locate " g(é,\n b)\n,(, é)\t, ,(a)(b)".toList).map Prod.fst =
        ["g(é,\n b)".toList, ", é".toList, [], "(a)(b)".toList] := by
  intro ws
  have hlegible : WrittenArgument.Legible ws :=
    ⟨List.cons_ne_nil _ _, fun w hw => absurd (congrArg List.length hw) (by simp [ws])⟩
  exact ⟨hlegible, (written_arguments_are_recovered ws hlegible).1⟩

end TextExpander
