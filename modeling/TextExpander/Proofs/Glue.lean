import TextExpander.Proofs.Agree
import TextExpander.Proofs.Printing
import TextExpander.Proofs.WrittenArguments

/-!
# Texts put together by `glue`

A call of `glue` whose arguments stand in parentheses of their own gives what the arguments expand
to, one after the other. Nothing is lost on the way: the parentheses keep blanks and commas in the
arguments, and `glue` adds nothing between them.

The arguments are expanded one level further down, with one level less that is left. Expansion with
a number of levels left does not depend on the limit that they are left of, but for the number that
is reported when a call nests too deep (`Expansion.agree_expandFragment`). So the arguments fare as
they would alone under a limit that is smaller by one.

## Main definitions

* `Fault.withLimit`: a fault that reports another limit.
* `Text.glueCall`: a call of `glue` with its arguments in parentheses.

## Main results

* `Expansion.agree_expandFragment`: the limit is only reported.
* `Expansion.expandFragment_of_name`: the expansion of a call as it is written.
* `glue_joins_the_expansions_of_its_arguments`: the expansion of such a call.
-/

namespace TextExpander

/-- The fault, with another limit in the place of the one that it reports. -/
def Fault.withLimit (limit : Nat) : Fault → Fault
  | expansionTooDeep name _ => expansionTooDeep name limit
  | what => what

/-! ### The limit is only reported -/

namespace Expansion

/-- Two expansions give the same, or fail for the same fault but for the limit that it reports. -/
abbrev AgreeBut (limit : Nat) : Except Fault Fragment → Except Fault Fragment → Prop :=
  Agree (fun what what' => what' = what.withLimit limit) Eq

theorem agree_expandOutline {limit : Nat}
    {callValue callValue' : Callee → Fragment → Except Fault Fragment}
    (h : ∀ callee inside, AgreeBut limit (callValue callee inside) (callValue' callee inside))
    (o : Outline Cell Callee) :
    AgreeBut limit (expandOutline callValue o) (expandOutline callValue' o) := by
  induction o with
  | text rest => exact .ok rfl
  | unclosed before callee after => exact .error rfl
  | call before callee inside next ih =>
    refine (h callee inside).bind fun value value' hvalue => ?_
    refine ih.bind fun rest rest' hrest => .ok ?_
    rw [hvalue, hrest]

theorem agree_mapM {limit : Nat} {inner inner' : Fragment → Except Fault Fragment}
    (h : ∀ f, AgreeBut limit (inner f) (inner' f)) (fs : List Fragment) :
    Agree (fun what what' => what' = what.withLimit limit) Eq (fs.mapM inner) (fs.mapM inner') := by
  have hsame : List.Forall₂ Eq fs fs := List.forall₂_same.mpr fun f _ => rfl
  have hinner : ∀ f g, f = g → AgreeBut limit (inner f) (inner' g) := by
    rintro f _ rfl
    exact h f
  refine (Agree.mapM hsame hinner).imp fun values values' hv => ?_
  rw [List.forall₂_eq_eq_eq] at hv
  exact hv.1

theorem agree_expandCall {limit : Nat} {inner inner' : Fragment → Except Fault Fragment}
    (h : ∀ f, AgreeBut limit (inner f) (inner' f)) (callee : Callee) (inside : Fragment) :
    AgreeBut limit (expandCall inner callee inside) (expandCall inner' callee inside) := by
  have hvalues := agree_mapM h (Parens.arguments inside)
  cases callee with
  | glue =>
    refine hvalues.bind fun values values' hv => .ok ?_
    rw [hv]
  | user d =>
    simp only [expandCall]
    split_ifs
    · refine hvalues.bind fun values values' hv => ?_
      rw [hv]
      exact h _
    · exact .error rfl

/-- **The limit is only reported.** With as many levels left, an expansion gives the same under
every limit, but for the limit that a fault reports. -/
theorem agree_expandFragment (table : Table) (limit limit' levels : Nat) (f : Fragment) :
    AgreeBut limit' (expandFragment table limit levels f)
      (expandFragment table limit' levels f) := by
  induction levels generalizing f with
  | zero => exact agree_expandOutline (fun callee inside => .error rfl) _
  | succ levels ih => exact agree_expandOutline (agree_expandCall ih) _

/-! ### Calls as they are written -/

/-- The expansion of a call with nothing around it. -/
theorem expandFragment_of_name {table : Table} {name inside : Fragment} {callee : Callee}
    (hname : Outline.refer table.callee? name = some callee) {a b : Cell}
    (ha : Symbol.shown a = '(') (hinside : Parens.Neutral inside) (hb : Symbol.shown b = ')')
    (limit levels : Nat) :
    expandFragment table limit (levels + 1) (name ++ a :: (inside ++ [b])) =
      expandCall (expandFragment table limit levels) callee inside := by
  have hrest : Outline.scan table.callee? ([] : Fragment) = .text [] := Outline.scan_of_none rfl
  rw [expandFragment, Outline.scan_of_name hname ha hinside hb, hrest]
  simp only [expandOutline]
  cases expandCall (expandFragment table limit levels) callee inside with
  | error what => rfl
  | ok value => simp [bind, Except.bind, pure, Except.pure]

end Expansion

/-! ### Arguments in parentheses -/

namespace Text

/-- A text in parentheses. -/
def inParens (t : Text) : Text :=
  '(' :: t ++ [')']

/-- A call of `glue` with each argument in parentheses of its own. -/
def glueCall (ts : List Text) : Text :=
  glueName ++ '(' :: ([',', ' '].intercalate (ts.map inParens) ++ [')'])

theorem separated_inParens (t : Text) (ts : List Text) :
    Parens.Separated ([',', ' '].intercalate ((t :: ts).map inParens))
      ((([], t) :: ts.map fun u => ([' '], u)).map fun w : Text × Text => w.1 ++ inParens w.2) := by
  rw [List.map_cons, Definition.intercalate_comma_space]
  have hpieces : inParens t :: (ts.map inParens).map (' ' :: ·) =
      (([], t) :: ts.map fun u => ([' '], u)).map fun w : Text × Text => w.1 ++ inParens w.2 := by
    simp
  rw [← hpieces]
  exact Parens.separated_intercalate (List.cons_ne_nil _ _)

theorem inParens_writes {before t : Text} (hbefore : ∀ c ∈ before, Symbol.isSpace c = true)
    (ht : t.Balanced) : Parens.Writes (before ++ inParens t) t :=
  ⟨before, inParens t, [], by simp, hbefore, by simp,
    .wrapped rfl rfl (balanced_iff_neutral.mp ht)⟩

variable {ts : List Text}

/-- What `glue` is called with is balanced, and the texts are its arguments. -/
theorem arguments_glueCall (hne : ts ≠ []) (h : ∀ t ∈ ts, t.Balanced) :
    Parens.Neutral ([',', ' '].intercalate (ts.map inParens)) ∧
      Parens.arguments ([',', ' '].intercalate (ts.map inParens)) = ts := by
  obtain ⟨t, ts, rfl⟩ := List.exists_cons_of_ne_nil hne
  rw [List.forall_mem_cons] at h
  have hseparated := separated_inParens t ts
  have hspace : ∀ c ∈ [' '], Symbol.isSpace c = true := List.forall_mem_singleton.mpr (by decide)
  have hwrites : ∀ w ∈ ([], t) :: ts.map fun u => ([' '], u),
      Parens.Writes (w.1 ++ inParens w.2) w.2 := by
    rw [List.forall_mem_cons, List.forall_mem_map]
    exact ⟨inParens_writes (by simp) h.1, fun u hu => inParens_writes hspace (h.2 u hu)⟩
  have hblank : Symbol.isBlank ([',', ' '].intercalate ((t :: ts).map inParens)) = false := by
    cases ts with
    | nil => rfl
    | cons u ts => rfl
  refine ⟨hseparated.neutral (List.forall_mem_map.mpr fun w hw => ?_), ?_⟩
  · exact (hwrites w hw).unsplit.neutral
  · rw [Parens.arguments_of_separated hseparated hwrites hblank]
    simp [Function.comp_def]

end Text

/-! ### Expansion -/

section Outcomes

variable {ε α β : Type} {f : α → Except ε β}

theorem mapM_of_forall₂ {xs : List α} {ys : List β}
    (h : List.Forall₂ (fun x y => f x = .ok y) xs ys) : xs.mapM f = .ok ys := by
  induction h with
  | nil => rfl
  | cons hx _ ih =>
    rw [List.mapM_cons, hx, ih]
    rfl

/-- The first error is the one that counts. -/
theorem mapM_of_error {before after : List α} {x : α} {e : ε}
    (hbefore : ∀ y ∈ before, ∃ z, f y = .ok z) (hx : f x = .error e) :
    (before ++ x :: after).mapM f = .error e := by
  induction before with
  | nil =>
    rw [List.nil_append, List.mapM_cons, hx]
    rfl
  | cons y before ih =>
    obtain ⟨z, hz⟩ := hbefore y List.mem_cons_self
    rw [List.cons_append, List.mapM_cons, hz,
      ih fun y' hy' => hbefore y' (List.mem_cons_of_mem y hy')]
    rfl

end Outcomes

/-- The values of `glue` carry what they were expanded to. -/
theorem Fragment.text_flatten_of_forall₂ {vs : List Text} {fs : List Fragment}
    (h : List.Forall₂ (fun v f => text f = v) vs fs) : text fs.flatten = vs.flatten := by
  have hvs : List.Forall₂ (· = ·) (fs.map text) vs := List.forall₂_map_left_iff.mpr h.flip
  rw [List.forall₂_eq_eq_eq] at hvs
  rw [text_flatten, hvs]

namespace Expansion

/-- The expansion of a text is that of the plain fragment, with as many levels left, under any
limit. -/
theorem agree_expand (table : Table) (limit limit' : Nat) (t : Text) :
    Agree (fun what what' => what' = what.withLimit limit') (fun v f => Fragment.text f = v)
      (expand table limit t) (expandFragment table limit' limit (Fragment.plain t)) := by
  have hagree := agree_expandFragment table limit limit' limit (Fragment.plain t)
  rw [expand]
  generalize expandFragment table limit limit (Fragment.plain t) = x at hagree ⊢
  generalize expandFragment table limit' limit (Fragment.plain t) = y at hagree ⊢
  cases hagree with
  | error hwhat => exact .error hwhat
  | ok hvalue => exact .ok (hvalue ▸ rfl)

theorem expandFragment_glueCall (table : Table) (limit levels : Nat) {ts : List Text}
    (hne : ts ≠ []) (h : ∀ t ∈ ts, t.Balanced) :
    expandFragment table limit (levels + 1) (Fragment.plain (Text.glueCall ts)) = (do
      let values ← (ts.map Fragment.plain).mapM (expandFragment table limit levels)
      return Fragment.protect values.flatten) := by
  obtain ⟨hneutral, harguments⟩ := Text.arguments_glueCall hne h
  have hglue : Outline.refer table.callee? (Fragment.plain glueName) = some .glue := rfl
  have hinside : Parens.Neutral
      (Fragment.plain ([',', ' '].intercalate (ts.map Text.inParens))) := by
    intro level
    rw [Parens.levelAfter?_plain, hneutral level]
  have hplain : Fragment.plain (Text.glueCall ts) = Fragment.plain glueName ++ Cell.plain '(' ::
      (Fragment.plain ([',', ' '].intercalate (ts.map Text.inParens)) ++ [Cell.plain ')']) :=
    Fragment.plain_call _ _ []
  rw [hplain, expandFragment_of_name hglue rfl hinside rfl]
  simp only [expandCall, Parens.arguments_plain, harguments]

end Expansion

/-- A call of `glue` joins what its arguments expand to under the limit that is smaller by one. -/
theorem agree_glueCall (table : Table) (limit : Nat) {ts : List Text} (hne : ts ≠ [])
    (h : ∀ t ∈ ts, t.Balanced) :
    Agree (fun what what' => what' = what.withLimit (limit + 1)) (fun vs w => w = vs.flatten)
      (ts.mapM (expand table limit)) (expand table (limit + 1) (Text.glueCall ts)) := by
  have hplain : List.Forall₂ (fun t f => f = Fragment.plain t) ts (ts.map Fragment.plain) :=
    List.forall₂_map_right_iff.mpr (List.forall₂_same.mpr fun t _ => rfl)
  have hvalues := Agree.mapM hplain fun t f (hf : f = Fragment.plain t) =>
    hf ▸ Expansion.agree_expand table limit (limit + 1) t
  rw [expand, Expansion.expandFragment_glueCall table (limit + 1) limit hne h]
  generalize ts.mapM (expand table limit) = x at hvalues ⊢
  generalize (ts.map Fragment.plain).mapM
    (Expansion.expandFragment table (limit + 1) limit) = y at hvalues ⊢
  cases hvalues with
  | error hwhat => exact .error hwhat
  | ok hv => exact .ok ((Fragment.text_protect _).trans (Fragment.text_flatten_of_forall₂ hv.1))

/-- **`glue` is transparent for arguments in parentheses.** Each argument is a balanced text, of
whatever blanks and commas, or empty. If each of them expands under a limit, then the call expands
under the limit that is larger by one, to the expansions one after the other. Otherwise it fails as
the first argument that fails, except that a call that nests too deep is reported with the larger
limit. -/
theorem glue_joins_the_expansions_of_its_arguments (table : Table) (limit : Nat) (ts : List Text)
    (hne : ts ≠ []) (hbalanced : ∀ t ∈ ts, t.Balanced) :
    (∀ vs, List.Forall₂ (fun t v => expand table limit t = .ok v) ts vs →
      expand table (limit + 1) (Text.glueCall ts) = .ok vs.flatten) ∧
    (∀ before t after what, ts = before ++ t :: after →
      (∀ s ∈ before, ∃ v, expand table limit s = .ok v) → expand table limit t = .error what →
        expand table (limit + 1) (Text.glueCall ts) = .error (what.withLimit (limit + 1))) := by
  have hagree := agree_glueCall table limit hne hbalanced
  generalize expand table (limit + 1) (Text.glueCall ts) = outcome at hagree ⊢
  refine ⟨fun vs hvs => ?_, fun before t after what hts hbefore hwhat => ?_⟩
  · rw [mapM_of_forall₂ hvs] at hagree
    cases hagree with
    | ok hw => rw [hw]
  · rw [hts, mapM_of_error hbefore hwhat] at hagree
    cases hagree with
    | error hwhat' => rw [hwhat']

/-- Blanks, a comma and nothing at all in the arguments, and an argument that nests too deep after
one that does not. -/
theorem glue_of_blanks_and_of_a_deep_call :
    let table : Table := Table.empty.put ⟨['f'], [['x']], "x".toList, ⟨⟨['d']⟩, 1⟩⟩
    expand table 2 "glue(( a, ), (), (f(b)))".toList = .ok " a, b".toList ∧
      expand table 2 "glue((f(a)), (f(f(b))))".toList = .error (.expansionTooDeep ['f'] 2) := by
  intro table
  constructor
  · exact (glue_joins_the_expansions_of_its_arguments table 1 [" a, ".toList, [], "f(b)".toList]
      (List.cons_ne_nil _ _) (by decide)).1 [" a, ".toList, [], "b".toList]
      (.cons (by decide +kernel) (.cons (by decide +kernel) (.cons (by decide +kernel) .nil)))
  · exact (glue_joins_the_expansions_of_its_arguments table 1 ["f(a)".toList, "f(f(b))".toList]
      (List.cons_ne_nil _ _) (by decide)).2 ["f(a)".toList] "f(f(b))".toList []
      (.expansionTooDeep ['f'] 1) rfl (List.forall_mem_singleton.mpr ⟨"a".toList, by decide +kernel⟩) (by decide +kernel)

end TextExpander
