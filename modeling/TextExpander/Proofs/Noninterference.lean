import TextExpander.Proofs.Agree
import TextExpander.Proofs.OpenCall

/-!
# Protected text is never read

What `glue` puts together stays in the text, but the scanner sees only marks in its place. So two
fragments that look the same to the scanner expand alike, whatever they carry: both fail, with the
same fault, or both succeed, and the results look the same again. This is a statement about two
runs, and it has to survive every place where text is taken apart and put together: the cutting into
calls and arguments, `glue` itself, which joins what is carried and hides it anew, the binding of
values to parameters, and the scanning of the body with the values in it.

## Main results

* `expansion_reads_only_what_is_shown`: two runs on fragments that look the same.
* `Expansion.expandFragment_hidden`: what is hidden may be exchanged.
-/

namespace TextExpander

namespace Fragment

/-- Two fragments look the same to the scanner. -/
def SameScan (f g : Fragment) : Prop :=
  scan f = scan g

theorem forall₂_sameScan_iff {fs gs : List Fragment} :
    List.Forall₂ SameScan fs gs ↔ fs.map scan = gs.map scan := by
  rw [← List.forall₂_eq_eq_eq, List.forall₂_map_left_iff, List.forall₂_map_right_iff]
  rfl

end Fragment

namespace Expansion

open Fragment

/-! ### Values in a body -/

theorem lookup_zip_sameScan (parameters : List Text) {values values' : List Fragment}
    (h : List.Forall₂ SameScan values values') (name : Text) :
    ((parameters.zip values).lookup name).map scan =
      ((parameters.zip values').lookup name).map scan := by
  induction h generalizing parameters with
  | nil => rfl
  | cons hv _ ih =>
    cases parameters with
    | nil => rfl
    | cons parameter parameters =>
      rw [List.zip_cons_cons, List.zip_cons_cons, List.lookup_cons, List.lookup_cons]
      cases name == parameter with
      | true => exact congrArg some hv
      | false => exact ih parameters

theorem scan_substituteLexeme {bindings bindings' : List (Text × Fragment)} (l : Lexeme Char)
    (h : ∀ name, (bindings.lookup name).map scan = (bindings'.lookup name).map scan) :
    scan (substituteLexeme bindings l) = scan (substituteLexeme bindings' l) := by
  have hget : ∀ (found : Option Fragment) (f : Fragment),
      scan (found.getD f) = (found.map scan).getD (scan f) := by
    intro found f
    cases found <;> rfl
  rw [substituteLexeme, substituteLexeme]
  split_ifs
  · rw [hget, hget, h]
  · rfl

theorem scan_substitute (d : Definition) {values values' : List Fragment}
    (h : List.Forall₂ SameScan values values') :
    scan (substitute d values) = scan (substitute d values') := by
  rw [substitute, substitute, scan_flatMap, scan_flatMap]
  exact List.flatMap_congr fun l _ =>
    scan_substituteLexeme l (lookup_zip_sameScan d.parameters h)

/-! ### Two runs -/

/-- Two expansions have the same fault, or their results look the same. -/
abbrev LookAlike : Except Fault Fragment → Except Fault Fragment → Prop :=
  Agree Eq SameScan

theorem lookAlike_expandOutline {callValue callValue' : Callee → Fragment → Except Fault Fragment}
    (hcall : ∀ callee inside inside', SameScan inside inside' →
      LookAlike (callValue callee inside) (callValue' callee inside'))
    {o o' : Outline Cell Callee} (h : o.chars = o'.chars) :
    LookAlike (expandOutline callValue o) (expandOutline callValue' o') := by
  induction o generalizing o' with
  | text rest =>
    cases o' with
    | text rest' => exact .ok (Outline.text.inj h)
    | unclosed | call => cases h
  | unclosed before callee after =>
    cases o' with
    | unclosed before' callee' after' =>
      obtain ⟨-, rfl, -⟩ := Outline.unclosed.inj h
      exact .error rfl
    | text | call => cases h
  | call before callee inside next ih =>
    cases o' with
    | call before' callee' inside' next' =>
      obtain ⟨hbefore, rfl, hinside, hnext⟩ := Outline.call.inj h
      refine (hcall callee inside inside' hinside).bind fun value value' hvalue => ?_
      refine (ih hnext).bind fun rest rest' hrest => .ok ?_
      rw [SameScan, scan_append, scan_append, scan_append, scan_append, hvalue, hrest]
      exact congrArg (· ++ _ ++ _) hbefore
    | text | unclosed => cases h

theorem forall₂_arguments {f g : Fragment} (h : SameScan f g) :
    List.Forall₂ SameScan (Parens.arguments f) (Parens.arguments g) := by
  rw [forall₂_sameScan_iff]
  calc (Parens.arguments f).map scan = Parens.arguments (scan f) :=
        (Parens.arguments_chars f).symm
    _ = Parens.arguments (scan g) := congrArg _ h
    _ = (Parens.arguments g).map scan := Parens.arguments_chars g

theorem lookAlike_expandCall {inner inner' : Fragment → Except Fault Fragment}
    (hinner : ∀ f g, SameScan f g → LookAlike (inner f) (inner' g)) (callee : Callee)
    {f g : Fragment} (h : SameScan f g) :
    LookAlike (expandCall inner callee f) (expandCall inner' callee g) := by
  have harguments := forall₂_arguments h
  have hvalues := Agree.mapM harguments hinner
  cases callee with
  | glue =>
    -- The values are joined and hidden: what shows is how long they are.
    refine hvalues.bind fun values values' hv => .ok ?_
    rw [SameScan, scan_protect, scan_protect, scan_flatten, scan_flatten,
      forall₂_sameScan_iff.mp hv.1]
  | user d =>
    simp only [expandCall, harguments.length_eq]
    split_ifs
    · refine hvalues.bind fun values values' hv => ?_
      exact hinner _ _ (scan_substitute d hv.1)
    · exact .error rfl

/-- The induction is on the levels that are left: arguments, and bodies with the values in them,
are expanded one level further down. -/
theorem lookAlike_expandFragment (table : Table) (limit levels : Nat) {f g : Fragment}
    (h : SameScan f g) :
    LookAlike (expandFragment table limit levels f) (expandFragment table limit levels g) := by
  have houtline : ∀ {f g : Fragment}, SameScan f g →
      (Outline.scan table.callee? f).chars = (Outline.scan table.callee? g).chars := by
    intro f g h
    rw [← Outline.scan_chars, ← Outline.scan_chars]
    exact congrArg _ h
  induction levels generalizing f g with
  | zero =>
    rw [expandFragment, expandFragment]
    refine lookAlike_expandOutline ?_ (houtline h)
    intro callee inside inside' _
    exact .error rfl
  | succ levels ih =>
    rw [expandFragment, expandFragment]
    refine lookAlike_expandOutline ?_ (houtline h)
    intro callee inside inside' hinside
    exact lookAlike_expandCall (fun _ _ => ih) callee hinside

/-- **What is hidden may be exchanged.** Only its length in bytes shows, in the result too. -/
theorem expandFragment_hidden (table : Table) (limit levels : Nat) (before after : Fragment)
    {s t : Text} (h : Text.byteLength s = Text.byteLength t) :
    LookAlike (expandFragment table limit levels (before ++ literal s ++ after))
      (expandFragment table limit levels (before ++ literal t ++ after)) := by
  refine lookAlike_expandFragment table limit levels ?_
  rw [SameScan, scan_append, scan_append, scan_append, scan_append, scan_literal, scan_literal, h]

end Expansion

/-- **Protected text is never read.** Two fragments that look the same to the scanner expand alike,
under every table, with every limit and at every depth: both fail, with the same fault, or both
succeed, and their results look the same. -/
theorem expansion_reads_only_what_is_shown (table : Table) (limit levels : Nat) (f g : Fragment)
    (h : f.scan = g.scan) :
    (∃ what, Expansion.expandFragment table limit levels f = .error what ∧
        Expansion.expandFragment table limit levels g = .error what) ∨
      ∃ f' g', Expansion.expandFragment table limit levels f = .ok f' ∧
        Expansion.expandFragment table limit levels g = .ok g' ∧ f'.scan = g'.scan := by
  have hagree := Expansion.lookAlike_expandFragment table limit levels h
  generalize Expansion.expandFragment table limit levels f = x at hagree ⊢
  generalize Expansion.expandFragment table limit levels g = y at hagree ⊢
  cases hagree with
  | error hwhat => exact Or.inl ⟨_, rfl, hwhat ▸ rfl⟩
  | ok hscan => exact Or.inr ⟨_, _, rfl, rfl, hscan⟩

/-- A protected comma and parenthesis in the argument of a call, and two letters in their place. -/
theorem expansion_reads_only_what_is_shown_of_glue :
    let table : Table := Table.empty.put ⟨['f'], [['x']], "[x]".toList, ⟨⟨['d']⟩, 1⟩⟩
    let f := Fragment.plain "f(".toList ++ Fragment.literal ",)".toList ++ Fragment.plain [')']
    let g := Fragment.plain "f(".toList ++ Fragment.literal "ab".toList ++ Fragment.plain [')']
    f.scan = g.scan ∧ ∃ f' g', Expansion.expandFragment table 10 10 f = .ok f' ∧
      Expansion.expandFragment table 10 10 g = .ok g' ∧ f'.scan = g'.scan := by
  intro table f g
  have hscan : f.scan = g.scan := by decide
  refine ⟨hscan, ?_⟩
  rcases expansion_reads_only_what_is_shown table 10 10 f g hscan with ⟨what, hf, -⟩ | hok
  · have hvalue : (Expansion.expandFragment table 10 10 f).isOk = true := by decide +kernel
    rw [hf] at hvalue
    cases hvalue
  · exact hok

end TextExpander
