import TextExpander.Proofs.OpenCall
import TextExpander.Proofs.Shown

/-!
# Definitions that stand for the same

An expansion learns of a table only what the names in a text refer to, and of a definition only its
name, the number of its parameters, and its body with values in it. So two tables under which each
name refers to callees that are alike in this give the same expansions, with the same faults. Where
a definition was read from, for one, makes no difference.

## Main definitions

* `Callee.Alike`, `Table.Alike`: callees, and tables, that no expansion tells apart.
* `Outline.Alike`: outlines that differ only in what their calls refer to.

## Main results

* `Outline.alike_scan`: names that refer to related things give related outlines.
* `Table.Alike.expand_eq`, `Table.Alike.hasOpenCall_eq`: tables that are alike.
-/

namespace TextExpander

/-! ### Outlines -/

namespace Outline

variable {α β γ : Type} {R : β → γ → Prop}

/-- The outlines have their calls in the same places, with related callees. -/
inductive Alike (R : β → γ → Prop) : Outline α β → Outline α γ → Prop
  /-- Text without a call. -/
  | text (rest : List α) : Alike R (text rest) (text rest)
  /-- A call that is never closed. -/
  | unclosed (before after : List α) {callee : β} {callee' : γ} : R callee callee' →
      Alike R (unclosed before callee after) (unclosed before callee' after)
  /-- A call, and what comes next. -/
  | call (before inside : List α) {callee : β} {callee' : γ} {next : Outline α β}
      {next' : Outline α γ} : R callee callee' → Alike R next next' →
      Alike R (call before callee inside next) (call before callee' inside next')

theorem Alike.isOpen_eq {o : Outline α β} {o' : Outline α γ} (h : Alike R o o') :
    o.isOpen = o'.isOpen := by
  induction h with
  | text => rfl
  | unclosed => rfl
  | call _ _ _ _ ih => exact ih

/-- The first calls, if there are any, are at the same place and related. -/
def SameSite (R : β → γ → Prop) (site : CallSite α β) (site' : CallSite α γ) : Prop :=
  site.before = site'.before ∧ R site.callee site'.callee ∧ site.after = site'.after

variable [Symbol α] {resolve : Text → Option β} {resolve' : Text → Option γ}

theorem rel_refer (h : ∀ name, Option.Rel R (resolve name) (resolve' name)) (word : List α) :
    Option.Rel R (refer resolve word) (refer resolve' word) := by
  rw [refer, refer]
  split_ifs
  · exact h _
  · exact .none

theorem rel_findCall (h : ∀ name, Option.Rel R (resolve name) (resolve' name))
    (passed word xs : List α) :
    Option.Rel (SameSite R) (findCall resolve passed word xs)
      (findCall resolve' passed word xs) := by
  induction xs generalizing passed word with
  | nil => exact .none
  | cons a xs ih =>
    have hrefer := rel_refer h word.reverse
    rcases symbol_cases resolve word a with hword | ⟨callee, ha, hcallee⟩ | ⟨hword, hnone⟩
    · rw [findCall_word hword, findCall_word hword]
      exact ih passed (a :: word)
    · rw [hcallee] at hrefer
      generalize hcallee' : refer resolve' word.reverse = found at hrefer
      cases hrefer with
      | some hR =>
        rw [findCall_call ha hcallee, findCall_call ha hcallee']
        exact .some ⟨rfl, hR, rfl⟩
    · have hnone' : Symbol.shown a = '(' → refer resolve' word.reverse = none := by
        intro ha
        rw [hnone ha] at hrefer
        generalize refer resolve' word.reverse = found at hrefer ⊢
        cases hrefer
        rfl
      rw [findCall_other hword hnone, findCall_other hword hnone']
      exact ih (a :: (word ++ passed)) []

/-- **Names that refer to related things give related outlines.** -/
theorem alike_scan (h : ∀ name, Option.Rel R (resolve name) (resolve' name)) (xs : List α) :
    Alike R (scan resolve xs) (scan resolve' xs) := by
  fun_induction scan resolve xs with
  | case1 xs hnone =>
    have hsite := rel_findCall h [] [] xs
    rw [hnone] at hsite
    generalize hnone' : findCall resolve' [] [] xs = found at hsite
    cases hsite
    rw [scan_of_none hnone']
    exact .text xs
  | case2 xs site hsome hclose =>
    have hsite := rel_findCall h [] [] xs
    rw [hsome] at hsite
    generalize hsome' : findCall resolve' [] [] xs = found at hsite
    cases hsite with
    | some hsame =>
      obtain ⟨hbefore, hcallee, hafter⟩ := hsame
      rw [scan_of_unclosed hsome' (hafter ▸ hclose), ← hbefore, ← hafter]
      exact .unclosed _ _ hcallee
  | case3 xs site hsome inside rest hclose ih =>
    have hsite := rel_findCall h [] [] xs
    rw [hsome] at hsite
    generalize hsome' : findCall resolve' [] [] xs = found at hsite
    cases hsite with
    | some hsame =>
      obtain ⟨hbefore, hcallee, hafter⟩ := hsame
      rw [scan_of_call hsome' (hafter ▸ hclose), ← hbefore]
      exact .call _ _ hcallee ih

end Outline

/-! ### Callees -/

/-- No expansion tells the callees apart. -/
inductive Callee.Alike : Callee → Callee → Prop
  /-- The built-in. -/
  | glue : Alike .glue .glue
  /-- Definitions of one name, with as many parameters, that give the same for the same values. -/
  | user {d d' : Definition} : d.name = d'.name → d.parameters.length = d'.parameters.length →
      (∀ values, values.length = d.parameters.length →
        Expansion.substitute d values = Expansion.substitute d' values) →
      Alike (.user d) (.user d')

theorem Callee.Alike.name_eq {callee callee' : Callee} (h : Alike callee callee') :
    callee.name = callee'.name := by
  cases h with
  | glue => rfl
  | user hname _ _ => exact hname

namespace Expansion

theorem expandOutline_eq_of_alike {o o' : Outline Cell Callee}
    {callValue callValue' : Callee → Fragment → Except Fault Fragment}
    (hcall : ∀ callee callee' inside, Callee.Alike callee callee' →
      callValue callee inside = callValue' callee' inside)
    (h : Outline.Alike Callee.Alike o o') :
    expandOutline callValue o = expandOutline callValue' o' := by
  induction h with
  | text rest => rfl
  | unclosed before after hcallee => rw [expandOutline, expandOutline, hcallee.name_eq]
  | call before inside hcallee _ ih =>
    rw [expandOutline, expandOutline, hcall _ _ inside hcallee, ih]

theorem length_of_mapM {ε α β : Type} {f : α → Except ε β} {xs : List α} {ys : List β}
    (h : xs.mapM f = .ok ys) : ys.length = xs.length := by
  induction xs generalizing ys with
  | nil =>
    obtain rfl := Except.ok.inj h
    rfl
  | cons x xs ih =>
    rw [List.mapM_cons] at h
    cases hy : f x with
    | error e =>
      rw [hy] at h
      cases h
    | ok y =>
      rw [hy] at h
      cases hrest : xs.mapM f with
      | error e =>
        rw [hrest] at h
        cases h
      | ok rest =>
        rw [hrest] at h
        obtain rfl := Except.ok.inj h
        exact congrArg Nat.succ (ih hrest)

theorem expandCall_eq_of_alike {inner inner' : Fragment → Except Fault Fragment}
    (hinner : ∀ f, inner f = inner' f) {callee callee' : Callee}
    (h : Callee.Alike callee callee') (inside : Fragment) :
    expandCall inner callee inside = expandCall inner' callee' inside := by
  obtain rfl : inner = inner' := funext hinner
  cases h with
  | glue => rfl
  | @user d d' hname hlength hsubstitute =>
    simp only [expandCall, hname, hlength]
    split_ifs with harity
    · cases hvalues : (Parens.arguments inside).mapM inner with
      | error what => rfl
      | ok values =>
        have hcount : values.length = d.parameters.length := by
          rw [length_of_mapM hvalues, harity, hlength]
        exact congrArg inner (hsubstitute values hcount)
    · rfl

end Expansion

/-! ### Tables -/

namespace Table

/-- Each name refers to callees that no expansion tells apart. -/
def Alike (t t' : Table) : Prop :=
  ∀ name, Option.Rel Callee.Alike (t.callee? name) (t'.callee? name)

variable {t t' : Table}

theorem Alike.expandFragment_eq (h : t.Alike t') (limit levels : Nat) (f : Fragment) :
    Expansion.expandFragment t limit levels f = Expansion.expandFragment t' limit levels f := by
  induction levels generalizing f with
  | zero =>
    refine Expansion.expandOutline_eq_of_alike (fun callee callee' inside hcallee => ?_)
      (Outline.alike_scan h f)
    rw [hcallee.name_eq]
  | succ levels ih =>
    exact Expansion.expandOutline_eq_of_alike
      (fun callee callee' inside hcallee => Expansion.expandCall_eq_of_alike ih hcallee inside)
      (Outline.alike_scan h f)

/-- **Tables that are alike** expand every text to the same, or fail in the same way. -/
theorem Alike.expand_eq (h : t.Alike t') (limit : Nat) (text : Text) :
    expand t limit text = expand t' limit text := by
  rw [expand, expand, h.expandFragment_eq]

theorem Alike.hasOpenCall_eq (h : t.Alike t') (text : Text) :
    hasOpenCall t text = hasOpenCall t' text :=
  (Outline.alike_scan h text).isOpen_eq

end Table

end TextExpander
