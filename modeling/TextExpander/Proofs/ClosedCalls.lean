import TextExpander.Proofs.Balance
import TextExpander.Proofs.Bodies

/-!
# Calls that are closed

A text that ends inside a call has no expansion. Conversely, if it does not, and no definition has
an unbalanced body, then no parenthesis is found unclosed anywhere in the expansion: not in the
text, not in an argument, and not in a body with values in it.

The text itself need not be balanced, only what is scanned again. An expansion replaces each call by
a value. The parentheses of a call go with it, and the value is balanced; so the expansion leaves a
level as the text does, and that of a balanced text is balanced again. This carries over from the
arguments to the values, from the values to the body that they are put into, and from there to its
expansion. What `glue` makes shows no parenthesis at all.

## Main definitions

* `Meets`: what the outcome of a computation is like.

## Main results

* `Expansion.neutral_substitute`: balanced values in a balanced body.
* `Expansion.meets_expandFragment`: what an expansion without open calls does to the level.
* `unbalanced_faults_come_from_open_calls`: which texts have a parenthesis that is never closed.
-/

namespace TextExpander

/-! ### Outcomes -/

section Outcomes

variable {ε α β : Type} {E : ε → Prop} {P : α → Prop} {Q : β → Prop}

/-- The outcome of a computation is an error with the property `E` or a value with the property
`P`. -/
def Meets (E : ε → Prop) (P : α → Prop) : Except ε α → Prop
  | .error e => E e
  | .ok a => P a

theorem Meets.imp {P' : α → Prop} {x : Except ε α} (h : Meets E P x) (hP : ∀ a, P a → P' a) :
    Meets E P' x := by
  cases x with
  | error e => exact h
  | ok a => exact hP a h

theorem Meets.bind {x : Except ε α} {f : α → Except ε β} (h : Meets E P x)
    (hf : ∀ a, P a → Meets E Q (f a)) : Meets E Q (x >>= f) := by
  cases x with
  | error e => exact h
  | ok a => exact hf a h

theorem Meets.mapM {f : α → Except ε β} {xs : List α} (h : ∀ x ∈ xs, Meets E Q (f x)) :
    Meets E (fun ys => ∀ y ∈ ys, Q y) (xs.mapM f) := by
  induction xs with
  | nil =>
    intro y hy
    cases hy
  | cons x xs ih =>
    rw [List.mapM_cons]
    refine (h x List.mem_cons_self).bind fun y hy => ?_
    refine (ih fun z hz => h z (List.mem_cons_of_mem _ hz)).bind fun ys hys => ?_
    intro z hz
    rcases List.mem_cons.mp hz with rfl | hz
    · exact hy
    · exact hys z hz

end Outcomes

/-! ### Levels of fragments -/

namespace Parens

/-- Pieces that each change the level as other pieces do change it so together. -/
theorem levelAfter?_flatMap {α β γ : Type} [Symbol α] [Symbol β] {f : γ → List α}
    {g : γ → List β} {ls : List γ}
    (h : ∀ l ∈ ls, ∀ level, levelAfter? level (f l) = levelAfter? level (g l)) (level : Nat) :
    levelAfter? level (ls.flatMap f) = levelAfter? level (ls.flatMap g) := by
  induction ls generalizing level with
  | nil => rfl
  | cons l ls ih =>
    rw [List.flatMap_cons, List.flatMap_cons, levelAfter?_append, levelAfter?_append,
      h l List.mem_cons_self]
    congr 1
    funext n
    exact ih (fun l' hl' => h l' (List.mem_cons_of_mem _ hl')) n

theorem levelAfter?_plain (level : Nat) (t : Text) :
    levelAfter? level (Fragment.plain t) = levelAfter? level t := by
  rw [← levelAfter?_chars]
  exact congrArg _ (Fragment.scan_plain t)

/-- What is hidden shows no parenthesis. -/
theorem neutral_protect (f : Fragment) : Neutral f.protect := by
  refine neutral_of_forall fun a ha => ?_
  have hmask : Symbol.shown a = mask := Fragment.shown_eq_mask a ha
  rw [hmask]
  decide

end Parens

namespace Expansion

open Parens

/-- Another fault than a parenthesis that is never closed. -/
def NotUnbalanced (what : Fault) : Prop :=
  ∀ construct, what ≠ .unbalanced construct

theorem mem_entries_of_callee? {table : Table} {word : Text} {d : Definition}
    (h : table.callee? word = some (.user d)) : d ∈ table.entries := by
  rw [Table.callee?] at h
  split_ifs at h
  · cases h
  · obtain ⟨e, he, hd⟩ := Option.map_eq_some_iff.mp h
    obtain rfl := Callee.user.inj hd
    exact List.mem_of_find?_eq_some he

/-! ### Values in a body -/

theorem neutral_of_lookup_zip {parameters : List Text} {values : List Fragment}
    (h : ∀ value ∈ values, Neutral value) {name : Text} {value : Fragment}
    (hvalue : (parameters.zip values).lookup name = some value) : Neutral value := by
  rw [Offsets.lookup_zip] at hvalue
  obtain ⟨index, -, hindex⟩ := Option.bind_eq_some_iff.mp hvalue
  exact h value (List.mem_of_getElem? hindex)

theorem neutral_of_isIdentifier {body : Text} {l : Lexeme Char} (hl : l ∈ Lexeme.split body)
    (h : l.isIdentifier = true) : Neutral l.symbols := by
  obtain ⟨run, -, rfl⟩ := List.mem_map.mp hl
  rw [Lexeme.isIdentifier_ofRun] at h
  exact neutral_of_isWord (Text.isWordChar_of_isIdentifier h)

/-- A parameter is a word, so its value takes the place of what keeps the level. -/
theorem levelAfter?_substituteLexeme {bindings : List (Text × Fragment)}
    (h : ∀ {name value}, bindings.lookup name = some value → Neutral value) {body : Text}
    {l : Lexeme Char} (hl : l ∈ Lexeme.split body) (level : Nat) :
    levelAfter? level (substituteLexeme bindings l) = levelAfter? level l.symbols := by
  rw [substituteLexeme]
  split_ifs with hidentifier
  · cases hlookup : bindings.lookup l.symbols with
    | none => exact levelAfter?_plain level l.symbols
    | some value =>
      rw [Option.getD_some, h hlookup level, neutral_of_isIdentifier hl hidentifier level]
  · exact levelAfter?_plain level l.symbols

theorem neutral_substitute {d : Definition} (hbody : Neutral d.body) {values : List Fragment}
    (h : ∀ value ∈ values, Neutral value) : Neutral (substitute d values) := by
  intro level
  have hlexemes : ∀ l ∈ Lexeme.split d.body, ∀ level,
      levelAfter? level (substituteLexeme (d.parameters.zip values) l) =
        levelAfter? level l.symbols :=
    fun l hl level => levelAfter?_substituteLexeme (neutral_of_lookup_zip h) hl level
  calc levelAfter? level (substitute d values)
      = levelAfter? level (Lexeme.concat (Lexeme.split d.body)) :=
        levelAfter?_flatMap hlexemes level
    _ = levelAfter? level d.body := by rw [Offsets.concat_split]
    _ = some level := hbody level

/-! ### Calls in a text -/

/-- The first call of a text, taken apart. -/
theorem eq_of_findCall {table : Table} {f : Fragment} {site : CallSite Cell Callee}
    (h : Outline.findCall table.callee? [] [] f = some site) :
    ∃ (name : Fragment) (a : Cell), f = site.before ++ name ++ a :: site.after ∧
      Symbol.shown a = '(' ∧ Neutral name ∧ ∃ word, table.callee? word = some site.callee := by
  have hstart : 0 = 0 + Symbol.byteLength ([] : Fragment) := rfl
  obtain ⟨name, a, heq, ha, hrefer, -⟩ := Offsets.candidatesFrom_of_findCall h hstart
  rw [Outline.refer] at hrefer
  split_ifs at hrefer with hidentifier
  refine ⟨name, a, heq, ha, neutral_chars_iff.mp ?_, _, hrefer⟩
  exact neutral_of_isWord (Text.isWordChar_of_isIdentifier hidentifier)

/-- **Calls replaced by balanced values.** If the outline is closed and each call, whose inside is
always balanced, becomes balanced, then no parenthesis is unclosed and the level after the text
stays what it is. -/
theorem meets_expandOutline {table : Table} {callValue : Callee → Fragment → Except Fault Fragment}
    (hcall : ∀ word callee inside, table.callee? word = some callee → Neutral inside →
      Meets NotUnbalanced Neutral (callValue callee inside))
    {f : Fragment} (hopen : (Outline.scan table.callee? f).isOpen = false) :
    Meets NotUnbalanced (fun g => ∀ level, levelAfter? level g = levelAfter? level f)
      (expandOutline callValue (Outline.scan table.callee? f)) := by
  fun_induction Outline.scan table.callee? f with
  | case1 f h => exact fun level => rfl
  | case2 f site h hclose => cases hopen
  | case3 f site h inside rest hclose ih =>
    obtain ⟨name, a, rfl, ha, hname, word, hword⟩ := eq_of_findCall h
    obtain ⟨b, hb, hafter⟩ := eq_of_close? hclose
    have hinside : Neutral inside := neutral_of_close? hclose
    refine (hcall word site.callee inside hword hinside).bind fun value hvalue => ?_
    refine (ih hopen).bind fun g hg => ?_
    intro level
    have hcut : site.before ++ name ++ a :: site.after =
        site.before ++ (name ++ (a :: inside ++ [b])) ++ rest := by
      rw [hafter]
      simp
    rw [hcut, levelAfter?_middle hvalue, levelAfter?_middle
      (hname.append (hinside.parenthesized ha hb)), levelAfter?_append, levelAfter?_append]
    simp only [hg]

theorem meets_expandCall {inner : Fragment → Except Fault Fragment}
    (hinner : ∀ f, Neutral f → Meets NotUnbalanced Neutral (inner f)) {callee : Callee}
    (hcallee : ∀ d, callee = .user d → Neutral d.body) {inside : Fragment} (h : Neutral inside) :
    Meets NotUnbalanced Neutral (expandCall inner callee inside) := by
  have hvalues : Meets NotUnbalanced (fun values => ∀ value ∈ values, Neutral value)
      ((arguments inside).mapM inner) :=
    Meets.mapM fun argument hargument => hinner argument (neutral_of_mem_arguments h _ hargument)
  cases callee with
  | glue => exact hvalues.bind fun values _ => neutral_protect values.flatten
  | user d =>
    simp only [expandCall]
    split_ifs
    · exact hvalues.bind fun values hvalues =>
        hinner _ (neutral_substitute (hcallee d rfl) hvalues)
    · exact nofun

/-- The induction is on the levels of calls that are left. Only the text that is expanded first may
be unbalanced; one level further down everything is balanced, and so has no open call. -/
theorem meets_expandFragment {table : Table} (hbodies : ∀ d ∈ table.entries, Neutral d.body)
    (limit levels : Nat) {f : Fragment}
    (hopen : (Outline.scan table.callee? f).isOpen = false) :
    Meets NotUnbalanced (fun g => ∀ level, levelAfter? level g = levelAfter? level f)
      (expandFragment table limit levels f) := by
  induction levels generalizing f with
  | zero =>
    rw [expandFragment]
    refine meets_expandOutline ?_ hopen
    intro word callee inside hword hinside
    exact nofun
  | succ levels ih =>
    rw [expandFragment]
    refine meets_expandOutline (fun word callee inside hword hinside => ?_) hopen
    refine meets_expandCall (fun g hg => ?_) (fun d hd => ?_) hinside
    · refine (ih (Outline.isOpen_scan_of_neutral _ hg)).imp fun g' hg' level => ?_
      rw [hg' level, hg level]
    · subst hd
      exact hbodies d (mem_entries_of_callee? hword)

end Expansion

/-- **A parenthesis that is never closed belongs to an open call.** A text that ends inside a call
has no expansion. If a text does not, and the bodies of all definitions are balanced, then its
expansion never fails for a parenthesis that is not closed, whatever happens in arguments, in bodies
with values in them, and in what is scanned again. -/
theorem unbalanced_faults_come_from_open_calls (table : Table) (limit : Nat) (t : Text) :
    (hasOpenCall table t = true → ∀ w, expand table limit t ≠ .ok w) ∧
      (hasOpenCall table t = false → (∀ d ∈ table.entries, Text.Balanced d.body) →
        ∀ construct, expand table limit t ≠ .error (.unbalanced construct)) := by
  refine ⟨fun hopen w hw => ?_, fun hopen hbodies construct hfail => ?_⟩
  · obtain ⟨what, hwhat⟩ := expand_of_hasOpenCall limit hopen
    rw [hw] at hwhat
    cases hwhat
  · rw [hasOpenCall_eq_isOpen_plain] at hopen
    have hmeets := Expansion.meets_expandFragment
      (fun d hd => Text.balanced_iff_neutral.mp (hbodies d hd)) limit limit hopen
    rw [expand] at hfail
    cases hexpand : Expansion.expandFragment table limit limit (Fragment.plain t) with
    | ok f =>
      rw [hexpand] at hfail
      cases hfail
    | error what =>
      rw [hexpand] at hfail hmeets
      exact hmeets construct (Except.error.inj hfail)

/-- A text with parentheses that match nothing around a nested call, and the same call left open. -/
theorem unbalanced_faults_around_a_nested_call :
    let table : Table := Table.empty.put ⟨['f'], [['x']], "(x) glue((,x))".toList, ⟨⟨['d']⟩, 1⟩⟩
    (hasOpenCall table ") f(f(a) (b)) (".toList = false ∧
        (∀ d ∈ table.entries, Text.Balanced d.body) ∧
        ∀ construct, expand table 3 ") f(f(a) (b)) (".toList ≠ .error (.unbalanced construct)) ∧
      hasOpenCall table "f(f(a)".toList = true ∧ ∀ w, expand table 3 "f(f(a)".toList ≠ .ok w := by
  intro table
  have hclosed : hasOpenCall table ") f(f(a) (b)) (".toList = false := by decide +kernel
  have hopen : hasOpenCall table "f(f(a)".toList = true := by decide +kernel
  have hbodies : ∀ d ∈ table.entries, Text.Balanced d.body := by decide +kernel
  exact ⟨⟨hclosed, hbodies, (unbalanced_faults_come_from_open_calls table 3 _).2 hclosed hbodies⟩,
    hopen, (unbalanced_faults_come_from_open_calls table 3 _).1 hopen⟩

end TextExpander
