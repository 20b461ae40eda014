import Mathlib.Tactic.SplitIfs
import TextExpander.Fragment
import TextExpander.Outline

/-!
# Only what is shown counts

The scanning functions are written for any type of symbols, and look at a symbol only through the
character that it shows. So they commute with `Symbol.chars`: to scan a run of symbols and then
keep only the shown characters is the same as to scan the shown characters.

A function for any type of symbols could still compare symbols by other means if its type let it;
so this is a theorem about each of the functions and not a consequence of their types.

## Main results

* `Parens.close?_chars`, `Parens.arguments_chars`: parentheses and arguments.
* `Outline.scan_chars`: the outline of a text.
* `Fragment.scan_protect`: all that shows of protected text is its length in bytes.
-/

namespace TextExpander

/-! ### Runs of symbols -/

namespace Symbol

variable {α : Type} [Symbol α]

@[simp] theorem shown_char (c : Char) : shown c = c := rfl

@[simp] theorem isWord_shown (a : α) : isWord (shown a) = isWord a := rfl

@[simp] theorem chars_text (t : Text) : chars t = t :=
  List.map_id t

@[simp] theorem chars_nil : chars ([] : List α) = [] := rfl

@[simp] theorem chars_cons (a : α) (xs : List α) : chars (a :: xs) = shown a :: chars xs := rfl

@[simp] theorem chars_append (xs ys : List α) : chars (xs ++ ys) = chars xs ++ chars ys :=
  List.map_append

theorem chars_take (n : Nat) (xs : List α) : chars (xs.take n) = (chars xs).take n :=
  List.map_take

@[simp] theorem chars_reverse (xs : List α) : chars xs.reverse = (chars xs).reverse :=
  List.map_reverse

@[simp] theorem chars_eq_nil_iff {xs : List α} : chars xs = [] ↔ xs = [] :=
  List.map_eq_nil_iff

theorem takeWhile_isSpace_chars (xs : List α) :
    (chars xs).takeWhile isSpace = chars (xs.takeWhile isSpace) :=
  List.takeWhile_map ..

theorem dropWhile_isSpace_chars (xs : List α) :
    (chars xs).dropWhile isSpace = chars (xs.dropWhile isSpace) :=
  List.dropWhile_map ..

theorem trimRight_chars (xs : List α) : trimRight (chars xs) = chars (trimRight xs) := by
  rw [trimRight, trimRight, ← chars_reverse, dropWhile_isSpace_chars, chars_reverse]

theorem isBlank_chars (xs : List α) : isBlank (chars xs) = isBlank xs := by
  rw [isBlank, isBlank, chars, List.all_map]
  rfl

end Symbol

/-! ### Parentheses -/

namespace Parens

variable {α : Type} [Symbol α]

theorem closeFrom_chars (depth : Nat) (passed xs : List α) :
    closeFrom depth (Symbol.chars passed) (Symbol.chars xs) =
      (closeFrom depth passed xs).map (Prod.map Symbol.chars Symbol.chars) := by
  induction xs generalizing depth passed with
  | nil => rfl
  | cons a xs ih =>
    simp only [Symbol.chars_cons, closeFrom, Symbol.shown_char]
    rw [← Symbol.chars_cons, ih, ih, ih]
    split_ifs <;> simp

theorem close?_chars (xs : List α) :
    close? (Symbol.chars xs) = (close? xs).map (Prod.map Symbol.chars Symbol.chars) :=
  closeFrom_chars 0 [] xs

theorem piecesFrom_chars (depth : Nat) (passed xs : List α) :
    piecesFrom depth (Symbol.chars passed) (Symbol.chars xs) =
      (piecesFrom depth passed xs).map Symbol.chars := by
  induction xs generalizing depth passed with
  | nil => simp [piecesFrom]
  | cons a xs ih =>
    have hdepth : depthAfter depth (Symbol.shown a) = depthAfter depth a := rfl
    have hfresh : piecesFrom 0 [] (Symbol.chars xs) = (piecesFrom 0 [] xs).map Symbol.chars :=
      ih 0 []
    simp only [Symbol.chars_cons, piecesFrom, Symbol.shown_char, hdepth]
    rw [← Symbol.chars_cons, ih, hfresh]
    split_ifs <;> simp

theorem pieces_chars (xs : List α) : pieces (Symbol.chars xs) = (pieces xs).map Symbol.chars :=
  piecesFrom_chars 0 [] xs

theorem unwrap?_chars (xs : List α) :
    unwrap? (Symbol.chars xs) = (unwrap? xs).map Symbol.chars := by
  cases xs with
  | nil => rfl
  | cons a xs =>
    simp only [Symbol.chars_cons, unwrap?, Symbol.shown_char, close?_chars]
    split_ifs
    · rcases close? xs with _ | ⟨inside, _ | ⟨b, rest⟩⟩ <;> rfl
    · rfl

theorem ofPiece_chars (piece : List α) :
    Argument.ofPiece (Symbol.chars piece) =
      ⟨Symbol.chars (Argument.ofPiece piece).dropped,
        Symbol.chars (Argument.ofPiece piece).value⟩ := by
  simp only [Argument.ofPiece, Symbol.trimRight_chars, Symbol.takeWhile_isSpace_chars,
    Symbol.dropWhile_isSpace_chars, unwrap?_chars]
  cases unwrap? ((Symbol.trimRight piece).dropWhile Symbol.isSpace) with
  | none => rfl
  | some inside =>
    rw [Option.map_some, Symbol.chars_append, Symbol.chars_take]

/-- The values of the arguments are found by their shown characters. -/
theorem arguments_chars (xs : List α) :
    arguments (Symbol.chars xs) = (arguments xs).map Symbol.chars := by
  rw [arguments, arguments, Symbol.isBlank_chars]
  split_ifs
  · rfl
  · rw [pieces_chars, List.map_map, List.map_map]
    exact List.map_congr_left fun piece _ => congrArg Argument.value (ofPiece_chars piece)

end Parens

/-! ### Outlines -/

/-- The shown characters of a call up to its opening parenthesis. -/
def CallSite.chars {α β : Type} [Symbol α] (site : CallSite α β) : CallSite Char β :=
  ⟨Symbol.chars site.before, site.callee, Symbol.chars site.after⟩

namespace Outline

variable {α β : Type} [Symbol α] {resolve : Text → Option β}

/-- The shown characters of an outline. -/
def chars : Outline α β → Outline Char β
  | text rest => text (Symbol.chars rest)
  | unclosed before callee after => unclosed (Symbol.chars before) callee (Symbol.chars after)
  | call before callee inside next =>
    call (Symbol.chars before) callee (Symbol.chars inside) next.chars

@[simp] theorem isOpen_chars (o : Outline α β) : o.chars.isOpen = o.isOpen := by
  induction o with
  | text rest => rfl
  | unclosed before callee after => rfl
  | call before callee inside next ih => exact ih

theorem refer_chars (resolve : Text → Option β) (word : List α) :
    refer resolve (Symbol.chars word) = refer resolve word := by
  simp [refer]

theorem findCall_chars (resolve : Text → Option β) (passed word xs : List α) :
    findCall resolve (Symbol.chars passed) (Symbol.chars word) (Symbol.chars xs) =
      (findCall resolve passed word xs).map CallSite.chars := by
  induction xs generalizing passed word with
  | nil => rfl
  | cons a xs ih =>
    have hword : findCall resolve (Symbol.chars passed) (Symbol.shown a :: Symbol.chars word)
        (Symbol.chars xs) = (findCall resolve passed (a :: word) xs).map CallSite.chars :=
      ih passed (a :: word)
    have hfresh : findCall resolve
        (Symbol.shown a :: (Symbol.chars word ++ Symbol.chars passed)) [] (Symbol.chars xs) =
          (findCall resolve (a :: (word ++ passed)) [] xs).map CallSite.chars := by
      rw [← Symbol.chars_append, ← Symbol.chars_cons]
      exact ih (a :: (word ++ passed)) []
    simp only [Symbol.chars_cons, findCall, Symbol.shown_char, Symbol.isWord_shown, hword, hfresh,
      ← Symbol.chars_reverse, refer_chars]
    split_ifs
    · rfl
    · cases refer resolve word.reverse <;> simp [CallSite.chars]
    · rfl

theorem findCall_fresh_chars (resolve : Text → Option β) (xs : List α) :
    findCall resolve [] [] (Symbol.chars xs) = (findCall resolve [] [] xs).map CallSite.chars :=
  findCall_chars resolve [] [] xs

/-! An outline is computed in three cases, one for each constructor. -/

theorem scan_of_none {xs : List α} (h : findCall resolve [] [] xs = none) :
    scan resolve xs = text xs := by
  rw [scan]
  split <;> simp_all

theorem scan_of_unclosed {xs : List α} {site : CallSite α β}
    (h : findCall resolve [] [] xs = some site) (hclose : Parens.close? site.after = none) :
    scan resolve xs = unclosed site.before site.callee site.after := by
  rw [scan]
  split
  · simp_all
  · next site' hsite =>
    obtain rfl : site = site' := Option.some.inj (h.symm.trans hsite)
    split <;> simp_all

theorem scan_of_call {xs inside rest : List α} {site : CallSite α β}
    (h : findCall resolve [] [] xs = some site)
    (hclose : Parens.close? site.after = some (inside, rest)) :
    scan resolve xs = call site.before site.callee inside (scan resolve rest) := by
  rw [scan]
  split
  · simp_all
  · next site' hsite =>
    obtain rfl : site = site' := Option.some.inj (h.symm.trans hsite)
    split
    · simp_all
    · next inside' rest' hclose' =>
      obtain ⟨rfl, rfl⟩ : inside = inside' ∧ rest = rest' := by simpa [hclose] using hclose'
      rfl

/-- **An outline is found by the shown characters.** -/
theorem scan_chars (resolve : Text → Option β) (xs : List α) :
    scan resolve (Symbol.chars xs) = (scan resolve xs).chars := by
  fun_induction scan resolve xs with
  | case1 xs h =>
    have h' : findCall resolve [] [] (Symbol.chars xs) = none := by
      rw [findCall_fresh_chars, h, Option.map_none]
    rw [scan_of_none h', chars]
  | case2 xs site h hclose =>
    have h' : findCall resolve [] [] (Symbol.chars xs) = some site.chars := by
      rw [findCall_fresh_chars, h, Option.map_some]
    have hclose' : Parens.close? site.chars.after = none := by
      rw [CallSite.chars, Parens.close?_chars, hclose, Option.map_none]
    rw [scan_of_unclosed h' hclose', chars, CallSite.chars]
  | case3 xs site h inside rest hclose ih =>
    have h' : findCall resolve [] [] (Symbol.chars xs) = some site.chars := by
      rw [findCall_fresh_chars, h, Option.map_some]
    have hclose' : Parens.close? site.chars.after =
        some (Symbol.chars inside, Symbol.chars rest) := by
      rw [CallSite.chars, Parens.close?_chars, hclose, Option.map_some, Prod.map_apply]
    rw [scan_of_call h' hclose', ih, chars, CallSite.chars]

end Outline

/-! ### What shows of a fragment -/

namespace Fragment

@[simp] theorem scan_plain (t : Text) : scan (plain t) = t := by
  rw [scan, Symbol.chars, plain, List.map_map]
  exact List.map_id t

@[simp] theorem scan_append (f g : Fragment) : scan (f ++ g) = scan f ++ scan g :=
  Symbol.chars_append f g

theorem scan_flatten (fs : List Fragment) : scan fs.flatten = (fs.map scan).flatten :=
  List.map_flatten

theorem text_flatten (fs : List Fragment) : text fs.flatten = (fs.map text).flatten := by
  induction fs with
  | nil => rfl
  | cons f fs ih => rw [List.flatten_cons, text_append, ih, List.map_cons, List.flatten_cons]

theorem scan_flatMap {ι : Type} (xs : List ι) (f : ι → Fragment) :
    scan (xs.flatMap f) = xs.flatMap fun x => scan (f x) :=
  List.map_flatMap

theorem scan_protect_cell (cell : Cell) :
    scan cell.protect = List.replicate cell.shown.utf8Size mask := by
  have hpos : 0 < cell.shown.utf8Size := cell.shown.utf8Size_pos
  obtain ⟨n, hn⟩ := Nat.exists_eq_succ_of_ne_zero (Nat.ne_of_gt hpos)
  rw [Cell.protect, hn, List.replicate_succ, Nat.succ_sub_one, scan, Symbol.chars_cons]
  exact congrArg _ (List.map_replicate ..)

/-- All that shows of protected text is its length in bytes. -/
theorem scan_protect (f : Fragment) :
    scan (protect f) = List.replicate (Text.byteLength (scan f)) mask := by
  induction f with
  | nil => rfl
  | cons cell f ih =>
    have hcons : protect (cell :: f) = cell.protect ++ protect f := rfl
    have hscan : scan (cell :: f) = cell.shown :: scan f := rfl
    rw [hcons, scan_append, scan_protect_cell, ih, hscan, Text.byteLength_cons,
      List.replicate_append_replicate]

theorem scan_literal (t : Text) :
    scan (literal t) = List.replicate (Text.byteLength t) mask := by
  rw [literal, scan_protect, scan_plain]

end Fragment

end TextExpander
