import TextExpander.Proofs.Agree
import TextExpander.Proofs.Bodies
import TextExpander.Proofs.CallArguments

/-!
# Expansion by offsets stays within bounds

Offsets are found in the scan of a fragment, where a protected character is a run of marks and every
place between two marks is a boundary, but they cut the text as well, where it is not. No cut goes
wrong, because every offset stands next to a character that is not protected, or at an end of the
fragment, and the fragments that come up are whole.

The proof follows the two expanders side by side. Wherever the one goes on with a number the other
goes on with a decomposition, and the number is the length of the part in front. So the expander by
offsets gives what the expander on cells gives, and has no way left to fail a check.

## Main results

* `Offsets.follows_replaceFrom`: the calls of a fragment, by offsets.
* `expansion_by_offsets_never_breaches`: expansion by offsets is expansion.
-/

namespace TextExpander

namespace Offsets

/-! ### Side by side -/

/-- A fragment as it is, and the whole fragment that it stands for. -/
def Shows (v : Views) (f : Fragment) : Prop :=
  v = f.views ∧ f.Whole

/-- An expansion by offsets has the fault of an expansion on cells, or its result. -/
abbrev Follows : Except Stop Views → Except Fault Fragment → Prop :=
  Agree (fun stop what => stop = .fault what) Shows

theorem forall₂_shows {fs : List Fragment} (h : ∀ f ∈ fs, f.Whole) :
    List.Forall₂ Shows (fs.map Fragment.views) fs := by
  rw [List.forall₂_map_left_iff, List.forall₂_same]
  exact fun f hf => ⟨rfl, h f hf⟩

theorem eq_map_of_forall₂_shows {vs : List Views} {fs : List Fragment}
    (h : List.Forall₂ Shows vs fs) : vs = fs.map Fragment.views ∧ ∀ f ∈ fs, f.Whole := by
  induction h with
  | nil => exact ⟨rfl, by simp⟩
  | cons hvf _ ih =>
    obtain ⟨rfl, hwhole⟩ := ih
    exact ⟨by rw [hvf.1, List.map_cons], by simpa using ⟨hvf.2, hwhole⟩⟩

theorem text_flatten (fs : List Fragment) :
    Fragment.text fs.flatten = (fs.map Fragment.views).flatMap Views.text := by
  rw [Fragment.text_flatten, List.flatMap_def, List.map_map]
  rfl

theorem views_protect_flatten {fs : List Fragment} (h : ∀ f ∈ fs, f.Whole) :
    (Fragment.protect fs.flatten).views =
      Views.literal ((fs.map Fragment.views).flatMap Views.text) := by
  rw [(Fragment.Whole.flatten h).protect_eq_literal, Fragment.views_literal, text_flatten]

theorem follows_expandCall {inner : Views → Except Stop Views}
    {inner' : Fragment → Except Fault Fragment}
    (hinner : ∀ f : Fragment, f.Whole → Follows (inner f.views) (inner' f)) (callee : Callee)
    {inside : Fragment} (hinside : inside.Whole) :
    Follows (expandCall inner callee ((Parens.arguments inside).map Fragment.views))
      (Expansion.expandCall inner' callee inside) := by
  have hshows : ∀ v f, Shows v f → Follows (inner v) (inner' f) := by
    rintro v f ⟨rfl, hf⟩
    exact hinner f hf
  have hvalues := Agree.mapM (forall₂_shows hinside.arguments) hshows
  cases callee with
  | glue =>
    refine hvalues.bind fun vs fs hvs => .ok ?_
    obtain ⟨rfl, hwhole⟩ := eq_map_of_forall₂_shows hvs.1
    exact ⟨(views_protect_flatten hwhole).symm, (Fragment.Whole.flatten hwhole).protect⟩
  | user d =>
    simp only [expandCall, Expansion.expandCall, List.length_map]
    split_ifs with harity
    · refine hvalues.bind fun vs fs hvs => ?_
      obtain ⟨rfl, hwhole⟩ := eq_map_of_forall₂_shows hvs.1
      rw [substitute_eq (hvs.2.trans harity)]
      exact hinner _ (whole_substitute d hwhole)
    · exact .error rfl

/-! ### Calls -/

open Fragment (Whole scan shown_ne_mask byteLength_scan_append)

theorem replaceFrom_skip (callValue : Callee → List Views → Except Stop Views) (v : Views)
    {skipped : List Candidate} {copied : Nat} (h : ∀ c ∈ skipped, c.start < copied)
    (left : List Candidate) (result : Views) :
    replaceFrom callValue v (skipped ++ left) result copied =
      replaceFrom callValue v left result copied := by
  induction skipped with
  | nil => rfl
  | cons c skipped ih =>
    rw [List.cons_append, replaceFrom, if_pos (h c List.mem_cons_self),
      ih fun d hd => h d (List.mem_cons_of_mem _ hd)]

theorem name_of_callee? {table : Table} {name : Text} {callee : Callee}
    (h : table.callee? name = some callee) : callee.name = name := by
  rw [Table.callee?] at h
  split_ifs at h with hglue
  · obtain rfl := Option.some.inj h
    exact hglue.symm
  · obtain ⟨d, hd, rfl⟩ := Option.map_eq_some_iff.mp h
    have hname := List.find?_some hd
    exact beq_iff_eq.mp hname

/-- **The first call of a whole fragment.** The parts around its name and its parenthesis are whole,
and it is the first of the candidates. -/
theorem exists_call {table : Table} {rest : Fragment} {site : CallSite Cell Callee}
    (hsite : Outline.findCall table.callee? [] [] rest = some site) (hrest : rest.Whole)
    (base : Nat) :
    ∃ (name : Fragment) (a : Cell), rest = site.before ++ name ++ a :: site.after ∧
      Symbol.shown a = '(' ∧ name.scan = site.callee.name ∧
      Whole site.before ∧ Whole (site.before ++ name ++ [a]) ∧ Whole site.after ∧
      candidatesFrom table.callee? base [] rest.scan =
        ⟨name.scan, base + Text.byteLength (scan site.before),
            base + Text.byteLength (scan (site.before ++ name)), site.callee⟩ ::
          candidatesFrom table.callee? (base + Text.byteLength (scan (site.before ++ name)) + 1) []
            (scan site.after) := by
  have hbase : base = base + Symbol.byteLength ([] : Fragment) := rfl
  obtain ⟨name, a, heq, ha, hrefer, hcandidates⟩ := candidatesFrom_of_findCall hsite hbase
  have hname : Text.isIdentifier (scan name) = true ∧
      table.callee? (scan name) = some site.callee := by
    rw [Outline.refer] at hrefer
    split_ifs at hrefer with hidentifier
    exact ⟨hidentifier, hrefer⟩
  have hrest' : Whole (site.before ++ name ++ a :: site.after) := by
    rw [← heq]
    exact hrest
  obtain ⟨hfront, hopening, hafter⟩ := hrest'.split (shown_ne_mask ha (by decide))
  have hbefore : Whole site.before := by
    apply hfront.of_append_left
    intro b hb
    have hword : Text.isWordChar b.shown = true :=
      Text.isWordChar_of_isIdentifier hname.1 _ (List.mem_map_of_mem hb)
    intro hmask
    rw [hmask] at hword
    exact absurd hword (by decide)
  exact ⟨name, a, heq, ha, (name_of_callee? hname.2).symm, hbefore, hfront.append hopening, hafter,
    hcandidates⟩

theorem closingOffset_views {f before after : Fragment} {a : Cell} {opening : Nat}
    (hf : f = before ++ a :: after) (ha : Symbol.shown a = '(')
    (hopening : opening = Text.byteLength before.scan) :
    closingOffset f.views.scan opening =
      .ok ((Parens.close? after).map fun sides =>
        opening + 1 + Text.byteLength (Fragment.scan sides.1)) := by
  have hscan : f.scan = before.scan ++ '(' :: after.scan := by
    rw [hf, Fragment.scan_append, ← ha]
    rfl
  rw [Fragment.scan_views, closingOffset_eq hscan hopening, Fragment.scan, Parens.close?_chars,
    Option.map_map]
  rfl

theorem byteLength_scan_singleton {a : Cell} {c : Char} (h : Symbol.shown a = c) :
    Text.byteLength (scan [a]) = c.utf8Size := by
  rw [scan, Symbol.chars_cons, h]
  rfl

/-- The candidates after an opening parenthesis are those up to the closing one and those after
it. -/
theorem exists_skipped (resolve : Text → Option Callee) (inside rest : Fragment) {b : Cell}
    (hb : Symbol.shown b = ')') (start : Nat) :
    ∃ skipped, candidatesFrom resolve start [] (scan (inside ++ b :: rest)) =
        skipped ++ candidatesFrom resolve (start + Text.byteLength inside.scan + 1) [] rest.scan ∧
      ∀ c ∈ skipped, c.start < start + Text.byteLength inside.scan + 1 := by
  have hscan : scan (inside ++ b :: rest) = inside.scan ++ ')' :: rest.scan := by
    rw [Fragment.scan_append, ← hb]
    rfl
  have hlength : start + Text.byteLength [] + Text.byteLength (inside.scan ++ [')']) =
      start + Text.byteLength inside.scan + 1 := by
    rw [Text.byteLength_append, Nat.add_assoc start (Text.byteLength inside.scan)]
    rfl
  refine ⟨candidatesFrom resolve start [] (inside.scan ++ [')']), ?_, fun c hc => ?_⟩
  · rw [hscan, candidatesFrom_append_cons (by decide), hlength]
  · rw [← hlength]
    exact start_lt_of_mem_candidatesFrom hc

theorem expandOutline_call (callValue : Callee → Fragment → Except Fault Fragment)
    (before inside result : Fragment) (callee : Callee) (next : Outline Cell Callee) :
    (Expansion.expandOutline callValue (.call before callee inside next)).map (result ++ ·) = (do
      let value ← callValue callee inside
      (Expansion.expandOutline callValue next).map (result ++ before ++ value ++ ·)) := by
  rw [Expansion.expandOutline]
  cases callValue callee inside with
  | error what => rfl
  | ok value =>
    cases Expansion.expandOutline callValue next with
    | error what => rfl
    | ok rest =>
      have hassoc : result ++ (before ++ value ++ rest) = result ++ before ++ value ++ rest := by
        simp only [List.append_assoc]
      exact congrArg Except.ok hassoc

/-- **One call by offsets.** The arguments and the text before the call are cut out, the candidates
between the parentheses are skipped, and the rest goes on behind the closing parenthesis. -/
theorem replaceFrom_call {table : Table} {callValue : Callee → List Views → Except Stop Views}
    {f passed before name inside rest : Fragment} {a b : Cell} {callee : Callee} {result : Views}
    (hf : f = passed ++ (before ++ name ++ [a]) ++ inside ++ [b] ++ rest) (hpassed : Whole passed)
    (hbefore : Whole before) (hfront : Whole (before ++ name ++ [a])) (hinside : Whole inside)
    (ha : Symbol.shown a = '(') (hb : Symbol.shown b = ')')
    (hclose : Parens.close? (inside ++ b :: rest) = some (inside, rest)) :
    replaceFrom callValue f.views
        (⟨name.scan, Text.byteLength passed.scan + Text.byteLength before.scan,
            Text.byteLength passed.scan + Text.byteLength (scan (before ++ name)), callee⟩ ::
          candidatesFrom table.callee?
            (Text.byteLength passed.scan + Text.byteLength (scan (before ++ name)) + 1) []
            (scan (inside ++ b :: rest)))
        result (Text.byteLength passed.scan) = (do
      let value ← callValue callee ((Parens.arguments inside).map Fragment.views)
      replaceFrom callValue f.views
        (candidatesFrom table.callee?
          (Text.byteLength (scan (passed ++ (before ++ name ++ [a]) ++ inside ++ [b]))) []
          rest.scan)
        ((result.push before.views).push value)
        (Text.byteLength (scan (passed ++ (before ++ name ++ [a]) ++ inside ++ [b])))) := by
  have hopened : f = passed ++ (before ++ name) ++ a :: (inside ++ b :: rest) := by
    rw [hf]
    simp
  have hfrontLength : Text.byteLength passed.scan + Text.byteLength (scan (before ++ name)) + 1 =
      Text.byteLength (scan (passed ++ (before ++ name ++ [a]))) := by
    rw [byteLength_scan_append passed, byteLength_scan_append _ [a], byteLength_scan_singleton ha,
      Nat.add_assoc]
    rfl
  have hpassedLength : Text.byteLength passed.scan + Text.byteLength (scan (before ++ name)) + 1 +
      Text.byteLength inside.scan + 1 =
        Text.byteLength (scan (passed ++ (before ++ name ++ [a]) ++ inside ++ [b])) := by
    rw [byteLength_scan_append _ [b], byteLength_scan_append _ inside, hfrontLength,
      byteLength_scan_singleton hb]
    rfl
  have harguments := callArguments_eq (hf.trans (List.append_assoc ..)) (hpassed.append hfront)
    hinside hfrontLength rfl
  have hcut : f.views.cut (Text.byteLength passed.scan)
      (Text.byteLength passed.scan + Text.byteLength before.scan) = .ok before.views := by
    have hparts : f = passed ++ before ++ (name ++ a :: (inside ++ b :: rest)) := by
      rw [hopened]
      simp
    exact Views.cut_of_parts hparts hpassed hbefore rfl rfl
  obtain ⟨skipped, hcandidates, hskipped⟩ := exists_skipped table.callee? inside rest hb
    (Text.byteLength passed.scan + Text.byteLength (scan (before ++ name)) + 1)
  rw [hpassedLength] at hcandidates hskipped
  rw [replaceFrom, if_neg (Nat.not_lt.mpr (Nat.le_add_right ..)),
    closingOffset_views hopened ha (byteLength_scan_append ..).symm, hclose, hcandidates]
  rw [← hfrontLength] at harguments
  simp only [Option.map_some, bind, Except.bind, harguments, hcut, hpassedLength,
    replaceFrom_skip callValue f.views hskipped]

/-- **The calls of a fragment by offsets.** The induction is on the outline of what is left. -/
theorem follows_replaceFrom {table : Table}
    {callValue : Callee → List Views → Except Stop Views}
    {callValue' : Callee → Fragment → Except Fault Fragment}
    (hcall : ∀ callee (inside : Fragment), inside.Whole →
      Follows (callValue callee ((Parens.arguments inside).map Fragment.views))
        (callValue' callee inside))
    {f passed rest : Fragment} (hf : f = passed ++ rest) (hpassed : passed.Whole)
    (hrest : rest.Whole) {result : Fragment} (hresult : result.Whole) :
    Follows
      (replaceFrom callValue f.views
        (candidatesFrom table.callee? (Text.byteLength passed.scan) [] rest.scan) result.views
        (Text.byteLength passed.scan))
      ((Expansion.expandOutline callValue' (Outline.scan table.callee? rest)).map
        (result ++ ·)) := by
  fun_induction Outline.scan table.callee? rest generalizing passed result with
  | case1 rest hsite =>
    have hnone : candidatesFrom table.callee? (Text.byteLength passed.scan) [] (scan rest) = [] :=
      candidatesFrom_of_findCall_none hsite _
    have hparts : f = passed ++ rest ++ [] := by rw [hf, List.append_nil]
    have hend : f.views.byteLength =
        Text.byteLength passed.scan + Text.byteLength (scan rest) := by
      rw [Views.byteLength, Fragment.text_views, hf, Fragment.text_append, Text.byteLength_append,
        hpassed.byteLength_text, hrest.byteLength_text]
    rw [hnone, replaceFrom, Views.cut_of_parts hparts hpassed hrest rfl hend]
    exact .ok ⟨(Fragment.views_append result rest).symm, hresult.append hrest⟩
  | case2 rest site hsite hclose =>
    obtain ⟨name, a, heq, ha, hname, -, -, -, hcandidates⟩ :=
      exists_call hsite hrest (Text.byteLength passed.scan)
    have hparts : f = passed ++ (site.before ++ name) ++ a :: site.after := by
      rw [hf, heq, List.append_assoc passed]
    rw [hcandidates, replaceFrom, if_neg (Nat.not_lt.mpr (Nat.le_add_right ..)),
      closingOffset_views hparts ha (byteLength_scan_append ..).symm, hclose, hname]
    exact .error rfl
  | case3 rest site hsite inside rest' hclose ih =>
    obtain ⟨name, a, heq, ha, -, hbefore, hfront, hafter, hcandidates⟩ :=
      exists_call hsite hrest (Text.byteLength passed.scan)
    obtain ⟨b, hb, hsides⟩ := Parens.eq_of_close? hclose
    rw [hsides] at heq hafter hclose
    obtain ⟨hinside, hclosing, hrest'⟩ := hafter.split (shown_ne_mask hb (by decide))
    have hf' : f = passed ++ (site.before ++ name ++ [a]) ++ inside ++ [b] ++ rest' := by
      rw [hf, heq]
      simp
    rw [hcandidates, hsides,
      replaceFrom_call hf' hpassed hbefore hfront hinside ha hb hclose, expandOutline_call]
    refine (hcall site.callee inside hinside).bind fun v value hvalue => ?_
    obtain ⟨rfl, hvalue⟩ := hvalue
    rw [← Fragment.views_append, ← Fragment.views_append]
    exact ih hf' (((hpassed.append hfront).append hinside).append hclosing) hrest'
      ((hresult.append hbefore).append hvalue)

theorem follows_replaceCalls {table : Table}
    {callValue : Callee → List Views → Except Stop Views}
    {callValue' : Callee → Fragment → Except Fault Fragment}
    (hcall : ∀ callee (inside : Fragment), inside.Whole →
      Follows (callValue callee ((Parens.arguments inside).map Fragment.views))
        (callValue' callee inside))
    {f : Fragment} (hf : f.Whole) :
    Follows (replaceCalls table callValue f.views)
      (Expansion.expandOutline callValue' (Outline.scan table.callee? f)) := by
  have hfollows : Follows
      (replaceFrom callValue f.views (candidatesFrom table.callee? 0 [] f.scan) Views.empty 0)
      ((Expansion.expandOutline callValue' (Outline.scan table.callee? f)).map ([] ++ ·)) :=
    follows_replaceFrom hcall (List.nil_append f).symm .nil hf .nil
  have hmap : ∀ x : Except Fault Fragment, x.map ([] ++ ·) = x := by
    intro x
    cases x <;> rfl
  rw [hmap] at hfollows
  rw [replaceCalls, Fragment.scan_views, candidates_eq]
  exact hfollows

/-- The induction is on the levels that are left: arguments, and bodies with the values in them, are
expanded one level further down. -/
theorem follows_expandViews (table : Table) (limit levels : Nat) {f : Fragment} (hf : f.Whole) :
    Follows (expandViews table limit levels f.views)
      (Expansion.expandFragment table limit levels f) := by
  induction levels generalizing f with
  | zero =>
    apply follows_replaceCalls _ hf
    intro callee inside _
    exact .error rfl
  | succ levels ih =>
    apply follows_replaceCalls _ hf
    intro callee inside hinside
    exact follows_expandCall (fun _ => ih) callee hinside

end Offsets

/-- **Expansion by offsets stays within bounds.** For every table, limit and text it gives the text
or the fault that expansion on cells gives. So no check on its way fails: every cut is in order,
within bounds and between characters of text and scan, every parameter that is found has a value,
every closing parenthesis is looked for at an opening one, and no subtraction goes below zero. -/
theorem expansion_by_offsets_never_breaches (table : Table) (limit : Nat) (t : Text) :
    expandByOffsets table limit t = (expand table limit t).mapError Stop.fault ∧
      ∀ what, expandByOffsets table limit t ≠ .error (.breach what) := by
  have hfollows := Offsets.follows_expandViews table limit limit (.of_plain t)
  rw [Fragment.views_plain] at hfollows
  rw [expandByOffsets, expand]
  generalize Offsets.expandViews table limit limit (Views.plain t) = run at hfollows
  generalize Expansion.expandFragment table limit limit (Fragment.plain t) = run' at hfollows
  cases hfollows with
  | error hstop =>
    subst hstop
    refine ⟨rfl, fun what h => ?_⟩
    cases h
  | ok hshows =>
    obtain ⟨rfl, -⟩ := hshows
    refine ⟨rfl, fun what h => ?_⟩
    cases h

end TextExpander
