import TextExpander.Parens

/-!
# Outlines

Where the calls of a text are. A call is a known name directly followed by a parenthesis. The
outline of a text lists its outermost calls, from left to right, with the text between them; what
stands inside the parentheses of a call is kept as it is. It ends with the text after the last
call, or with a call whose parenthesis is never closed.

The scanner meets a name only as a whole word, so it keeps the word that it is in. After the
closing parenthesis of a call it starts afresh, since no word goes on across a parenthesis.

## Main definitions

* `Outline.findCall`: the first call of a text.
* `Outline.scan`: the outline of a text.
* `Outline.isOpen`: whether the outline ends in a call that is never closed.
-/

namespace TextExpander

/-- A text as the sequence of its outermost calls. -/
inductive Outline (α β : Type) where
  /-- Text without a call. -/
  | text (rest : List α)
  /-- A call that is never closed, the text before it, and what follows its parenthesis. -/
  | unclosed (before : List α) (callee : β) (after : List α)
  /-- A call with what its parentheses enclose, the text before it, and what comes next. -/
  | call (before : List α) (callee : β) (inside : List α) (next : Outline α β)
  deriving Repr

/-- A call up to its opening parenthesis. -/
structure CallSite (α β : Type) where
  /-- The text before the name. -/
  before : List α
  /-- What the name refers to. -/
  callee : β
  /-- What follows the opening parenthesis. -/
  after : List α
  deriving Repr

namespace Outline

variable {α β : Type} [Symbol α]

/-- What a word refers to. Only an identifier refers to anything. -/
def refer (resolve : Text → Option β) (word : List α) : Option β :=
  if Text.isIdentifier (Symbol.chars word) then resolve (Symbol.chars word) else none

/-- Looks for the first call. The symbols of the current word, and those passed before it, are kept
last first. -/
def findCall (resolve : Text → Option β) :
    (passed word : List α) → List α → Option (CallSite α β)
  | _, _, [] => none
  | passed, word, a :: rest =>
    if Symbol.isWord a then findCall resolve passed (a :: word) rest
    else if Symbol.shown a = '(' then
      match refer resolve word.reverse with
      | some callee => some ⟨passed.reverse, callee, rest⟩
      | none => findCall resolve (a :: (word ++ passed)) [] rest
    else findCall resolve (a :: (word ++ passed)) [] rest

theorem length_after_findCall {resolve : Text → Option β} {passed word xs : List α}
    {site : CallSite α β} (h : findCall resolve passed word xs = some site) :
    site.after.length < xs.length := by
  induction xs generalizing passed word with
  | nil => simp [findCall] at h
  | cons a xs ih =>
    rw [findCall] at h
    split at h
    · exact Nat.lt_succ_of_lt (ih h)
    · split at h
      · split at h
        · obtain rfl := by simpa using h
          simp
        · exact Nat.lt_succ_of_lt (ih h)
      · exact Nat.lt_succ_of_lt (ih h)

/-- The outline of a text, given what each name refers to. -/
def scan (resolve : Text → Option β) (xs : List α) : Outline α β :=
  match _hsite : findCall resolve [] [] xs with
  | none => text xs
  | some site =>
    match _hclose : Parens.close? site.after with
    | none => unclosed site.before site.callee site.after
    | some (inside, rest) => call site.before site.callee inside (scan resolve rest)
termination_by xs.length
decreasing_by
  have hlt := length_after_findCall _hsite
  have hle := Parens.length_of_close? _hclose
  omega

/-- Whether the outline ends in a call that is never closed. -/
def isOpen : Outline α β → Bool
  | text _ => false
  | unclosed .. => true
  | call _ _ _ next => next.isOpen

end Outline

end TextExpander
