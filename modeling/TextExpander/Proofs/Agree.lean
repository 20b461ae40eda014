import Mathlib.Data.List.Forall2

/-!
# Two computations side by side

Two computations that may fail agree if both fail, with errors that correspond, or both give values
that correspond. Agreement is kept by doing one thing after another and by doing the same to each
member of a list, so two expansions can be compared step by step, without a case for every way in
which they could have failed before.

## Main definitions

* `Agree`: the outcomes of two computations correspond.
-/

namespace TextExpander

variable {ε ε' α β γ δ : Type}

/-- The outcomes of two computations correspond: errors by `E`, values by `R`. -/
inductive Agree (E : ε → ε' → Prop) (R : α → β → Prop) : Except ε α → Except ε' β → Prop
  /-- Both fail. -/
  | error {e : ε} {e' : ε'} : E e e' → Agree E R (.error e) (.error e')
  /-- Both give a value. -/
  | ok {a : α} {b : β} : R a b → Agree E R (.ok a) (.ok b)

namespace Agree

variable {E : ε → ε' → Prop} {R : α → β → Prop} {S : γ → δ → Prop}

theorem imp {R' : α → β → Prop} {x : Except ε α} {y : Except ε' β} (h : Agree E R x y)
    (hR : ∀ a b, R a b → R' a b) : Agree E R' x y := by
  cases h with
  | error he => exact error he
  | ok hab => exact ok (hR _ _ hab)

theorem bind {x : Except ε α} {y : Except ε' β} {f : α → Except ε γ} {g : β → Except ε' δ}
    (h : Agree E R x y) (hfg : ∀ a b, R a b → Agree E S (f a) (g b)) :
    Agree E S (x >>= f) (y >>= g) := by
  cases h with
  | error he => exact error he
  | ok hab => exact hfg _ _ hab

/-- The same is done to each member of a list, so the results correspond one by one. -/
theorem mapM {f : α → Except ε γ} {g : β → Except ε' δ} {xs : List α} {ys : List β}
    (h : List.Forall₂ R xs ys) (hfg : ∀ a b, R a b → Agree E S (f a) (g b)) :
    Agree E (fun cs ds => List.Forall₂ S cs ds ∧ ds.length = ys.length) (xs.mapM f)
      (ys.mapM g) := by
  induction h with
  | nil => exact ok ⟨.nil, rfl⟩
  | cons hab _ ih =>
    rw [List.mapM_cons, List.mapM_cons]
    refine (hfg _ _ hab).bind fun c d hcd => ?_
    refine ih.bind fun cs ds hcs => ok ⟨.cons hcd hcs.1, ?_⟩
    rw [List.length_cons, List.length_cons, hcs.2]

end Agree

end TextExpander
