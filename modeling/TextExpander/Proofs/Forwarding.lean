import TextExpander.Proofs.Glue
import TextExpander.Proofs.Literal

/-!
# Values that are handed on

A macro may do nothing with its parameter but call the next macro with it. At each call the value is
put into a body, the body is scanned, and the value is split off and expanded once more. What `glue`
has made comes through all of this as it is: it shows nothing but marks, so it is one argument,
nothing of it is trimmed, and no call is found in it.

An empty value shows nothing at all. Between the parentheses of the next call there is then nothing,
and a call with nothing between its parentheses has no argument. So the second macro of a chain
refuses it, while a single macro takes it.

## Main definitions

* `Table.Binds`: a name is defined with the parameter `x` and a given body.
* `Table.Forwards`: each name of a chain hands its parameter to the next.
* `Fragment.call`: a call as a fragment.

## Main results

* `Fragment.arguments_protect`: protected text is one argument, unless it is empty.
* `Table.Binds.expandFragment`: a call of a macro with one parameter.
* `Table.Forwards.expandFragment`: a protected value goes through a chain.
* `glued_values_are_forwarded`: what `glue` has made goes through, unless it is empty and handed on.
-/

namespace TextExpander

/-- The name of the parameter. -/
def parameterName : Text := ['x']

namespace Table

/-- A name is defined with the parameter `x` and the body. It is the name neither of the parameter
nor of the built-in. -/
structure Binds (table : Table) (name body : Text) : Prop where
  /-- The name can be called. -/
  identifier : Text.isIdentifier name = true
  /-- It is not the parameter. -/
  ne_parameter : name ≠ parameterName
  /-- It is not that of the built-in. -/
  ne_glue : name ≠ glueName
  /-- It has a definition with the parameter and the body. -/
  definition : ∃ d, table.get? name = some d ∧ d.parameters = [parameterName] ∧ d.body = body

/-- Each name is defined to call the next one with its parameter; the last one puts its parameter
in brackets. -/
inductive Forwards (table : Table) : (name : Text) → (rest : List Text) → Prop
  /-- The last name. -/
  | last {name : Text} : table.Binds name "[x]".toList → Forwards table name []
  /-- A name with another one after it. -/
  | next {name next : Text} {rest : List Text} : table.Binds name (next ++ "(x)".toList) →
      Forwards table next rest → Forwards table name (next :: rest)

theorem Forwards.binds {table : Table} {name : Text} {rest : List Text}
    (h : table.Forwards name rest) : ∃ body, table.Binds name body := by
  cases h with
  | last h => exact ⟨_, h⟩
  | next h _ => exact ⟨_, h⟩

theorem Binds.refer {table : Table} {name body : Text} (h : table.Binds name body) :
    ∃ d, Outline.refer table.callee? (Fragment.plain name) = some (.user d) ∧ d.name = name ∧
      d.parameters = [parameterName] ∧ d.body = body := by
  obtain ⟨d, hget, hparameters, hbody⟩ := h.definition
  refine ⟨d, ?_, name_of_get? hget, hparameters, hbody⟩
  rw [Expansion.refer_plain h.identifier, callee?, if_neg h.ne_glue, hget, Option.map_some]

end Table

namespace Fragment

/-- A call of a plain name, with a fragment between its parentheses. -/
def call (name : Text) (inside : Fragment) : Fragment :=
  plain name ++ Cell.plain '(' :: (inside ++ [Cell.plain ')'])

/-! ### Values that show marks -/

variable {f : Fragment}

theorem findCall_of_no_opening {table : Table} (h : ∀ a ∈ f, Symbol.shown a ≠ '(') :
    Outline.findCall table.callee? [] [] f = none := by
  refine Outline.findCall_eq_none_iff.mpr ?_
  rintro front a rest rfl ha
  exact absurd ha (h a (List.mem_append_right front List.mem_cons_self))

theorem no_opening_protect : ∀ a ∈ protect f, Symbol.shown a ≠ '(' := by
  intro a ha
  have hmask : Symbol.shown a = mask := shown_eq_mask a ha
  rw [hmask]
  decide

/-- Protected text is one argument, unless it is empty. -/
theorem arguments_protect (hne : protect f ≠ []) :
    Parens.arguments (protect f) = [protect f] := by
  have hshown : ∀ a ∈ protect f, Symbol.shown a = mask := shown_eq_mask
  have hspace : ∀ a ∈ protect f, Symbol.isSpace a = false := fun a ha => by
    rw [Symbol.isSpace, hshown a ha]
    decide
  have hunsplit : Parens.Unsplit (protect f) :=
    Parens.unsplit_of_forall (Parens.neutral_protect f) fun a ha => by
      rw [hshown a ha]
      decide
  have hunwrap : Parens.unwrap? (protect f) = none := by
    refine Option.eq_none_iff_forall_not_mem.mpr fun inside hinside => ?_
    obtain ⟨a, b, ha, -, -, hf⟩ := Parens.unwrap?_eq_some_iff.mp hinside
    have hmem : a ∈ protect f := by
      rw [hf]
      exact List.mem_cons_self
    exact no_opening_protect a hmem ha
  refine (Parens.Spells.bare hunsplit (Symbol.trim_of_forall hspace) hunwrap).arguments ?_
  obtain ⟨a, rest, hcons⟩ := List.exists_cons_of_ne_nil hne
  rw [Symbol.isBlank, List.all_eq_false]
  exact ⟨a, by simp [hcons], by simp [hspace a (by simp [hcons])]⟩

theorem literal_ne_nil {t : Text} (h : t ≠ []) : literal t ≠ [] := by
  intro hnil
  have htext := text_literal t
  rw [hnil] at htext
  exact h htext.symm

theorem text_brackets (u : Text) :
    text (Cell.plain '[' :: (literal u ++ [Cell.plain ']'])) = '[' :: (u ++ [']']) := by
  have hcons : text (Cell.plain '[' :: (literal u ++ [Cell.plain ']'])) =
      '[' :: text (literal u ++ [Cell.plain ']']) := rfl
  rw [hcons, text_append, text_literal]
  rfl

end Fragment

/-! ### Bodies -/

namespace Expansion

/-- The body of the last macro, with a value in it. -/
theorem substitute_brackets {d : Definition} (hparameters : d.parameters = [parameterName])
    (hbody : d.body = "[x]".toList) (value : Fragment) :
    substitute d [value] = Cell.plain '[' :: (value ++ [Cell.plain ']']) := by
  have hsplit : Lexeme.split "[x]".toList =
      [⟨.other, ['[']⟩, ⟨.identifier, parameterName⟩, ⟨.other, [']']⟩] := by
    decide
  rw [substitute, hparameters, hbody, hsplit]
  simp [substituteLexeme, Lexeme.isIdentifier, Fragment.plain]

/-- The body of a macro that hands its parameter on, with a value in it. -/
theorem substitute_call {d : Definition} (hparameters : d.parameters = [parameterName])
    {next : Text} (hnext : Text.isIdentifier next = true) (hne : next ≠ parameterName)
    (hbody : d.body = next ++ "(x)".toList) (value : Fragment) :
    substitute d [value] = Fragment.call next value := by
  have hsplit : Lexeme.split "(x)".toList =
      [⟨.other, ['(']⟩, ⟨.identifier, parameterName⟩, ⟨.other, [')']⟩] := by
    decide
  have hword : Lexeme.split (next ++ "(x)".toList) =
      ⟨.identifier, next⟩ :: Lexeme.split "(x)".toList := by
    have hnil : next ≠ [] := fun h => by simp [h, Text.isIdentifier] at hnext
    have hbreak : ∀ c ∈ "(x)".toList.head?, Symbol.isWord c = !true := by
      intro c hc
      obtain rfl : '(' = c := by simpa using hc
      decide
    rw [Lexeme.split_append hnil (Text.isWordChar_of_isIdentifier hnext) hbreak, Lexeme.ofRun,
      Lexeme.kindOf, Symbol.chars_text, if_pos hnext]
  have hlookup : [(parameterName, value)].lookup next = none := by
    rw [List.lookup_cons, beq_eq_false_iff_ne.mpr hne]
    rfl
  rw [substitute, hparameters, hbody, hword, hsplit]
  simp [Fragment.call, substituteLexeme, Lexeme.isIdentifier, Fragment.plain, hlookup]

end Expansion

/-! ### Chains -/

variable {table : Table} {name next : Text} {rest : List Text}

/-- **A call of a macro with one parameter**, with one argument whose value is known. -/
theorem Table.Binds.expandFragment {body : Text} (h : table.Binds name body) (limit levels : Nat)
    {inside argument value : Fragment} (hinside : Parens.Neutral inside)
    (hargument : Parens.arguments inside = [argument])
    (hvalue : Expansion.expandFragment table limit levels argument = .ok value) :
    ∃ d : Definition, d.parameters = [parameterName] ∧ d.body = body ∧
      Expansion.expandFragment table limit (levels + 1)
          (Fragment.call name inside) =
        Expansion.expandFragment table limit levels (Expansion.substitute d [value]) := by
  obtain ⟨d, hrefer, -, hparameters, hbody⟩ := h.refer
  refine ⟨d, hparameters, hbody, ?_⟩
  rw [Fragment.call, Expansion.expandFragment_of_name hrefer rfl hinside rfl, Expansion.expandCall,
    hargument, hparameters]
  simp [hvalue, bind, Except.bind, pure, Except.pure]

/-- The body of a macro that hands on, with a value in it, calls the next one with the value. -/
theorem Table.Binds.expandFragment_next {body : Text} (h : table.Binds name (next ++ "(x)".toList))
    (hnext : table.Binds next body) (limit levels : Nat) {inside argument value : Fragment}
    (hinside : Parens.Neutral inside) (hargument : Parens.arguments inside = [argument])
    (hvalue : Expansion.expandFragment table limit levels argument = .ok value) :
    Expansion.expandFragment table limit (levels + 1) (Fragment.call name inside) =
      Expansion.expandFragment table limit levels (Fragment.call next value) := by
  obtain ⟨d, hparameters, hbody, heq⟩ := h.expandFragment limit levels hinside hargument hvalue
  rw [heq, Expansion.substitute_call hparameters hnext.identifier hnext.ne_parameter hbody]

/-- With nothing between the parentheses there is an argument too few. -/
theorem Table.Binds.expandFragment_empty {body : Text} (h : table.Binds name body)
    (limit levels : Nat) :
    Expansion.expandFragment table limit (levels + 1) (Fragment.call name []) =
      .error (.arityMismatch name 1 0) := by
  obtain ⟨d, hrefer, hname, hparameters, -⟩ := h.refer
  have hnone : Parens.arguments ([] : Fragment) = [] := rfl
  rw [Fragment.call, Expansion.expandFragment_of_name hrefer rfl (fun level => rfl) rfl,
    Expansion.expandCall, hnone, hparameters, ← hname]
  rfl

/-- **A protected value goes through a chain**, whatever it is written as in the first call. The
induction is on the chain: from the second call on the value is its own argument. -/
theorem Table.Forwards.expandFragment (h : table.Forwards name rest) (limit : Nat) {f : Fragment}
    (hf : Fragment.protect f ≠ [] ∨ rest = []) {levels : Nat} (hlevels : rest.length ≤ levels)
    {inside argument : Fragment} (hinside : Parens.Neutral inside)
    (hargument : Parens.arguments inside = [argument])
    (hvalue : Expansion.expandFragment table limit levels argument = .ok (Fragment.protect f)) :
    Expansion.expandFragment table limit (levels + 1) (Fragment.call name inside) =
      .ok (Cell.plain '[' :: (Fragment.protect f ++ [Cell.plain ']'])) := by
  induction h generalizing levels inside argument with
  | last h =>
    obtain ⟨d, hparameters, hbody, heq⟩ := h.expandFragment limit levels hinside hargument hvalue
    rw [heq, Expansion.substitute_brackets hparameters hbody]
    refine Expansion.expandFragment_of_findCall_none limit levels
      (Fragment.findCall_of_no_opening ?_)
    rintro a (_ | ⟨_, ha⟩)
    · decide
    · rcases List.mem_append.mp ha with ha | ha
      · exact Fragment.no_opening_protect a ha
      · obtain rfl := List.mem_singleton.mp ha
        decide
  | @next name next rest h hnext ih =>
    have hne : Fragment.protect f ≠ [] := hf.resolve_right (List.cons_ne_nil _ _)
    obtain ⟨body, hbinds⟩ := hnext.binds
    rw [h.expandFragment_next hbinds limit levels hinside hargument hvalue]
    rw [List.length_cons] at hlevels
    obtain ⟨levels, rfl⟩ : ∃ n, levels = n + 1 := ⟨levels - 1, by omega⟩
    refine ih (.inl hne) (Nat.le_of_succ_le_succ hlevels) (Parens.neutral_protect f)
      (Fragment.arguments_protect hne) ?_
    exact Expansion.expandFragment_of_findCall_none limit levels
      (Fragment.findCall_of_no_opening Fragment.no_opening_protect)

/-! ### Glued values -/

/-- A call can be an argument as it stands. -/
theorem Parens.spells_call {inside : Text} (hname : Text.isIdentifier name = true)
    (hinside : Neutral inside) :
    Spells (name ++ ('(' :: inside ++ [')'])) (name ++ ('(' :: inside ++ [')'])) := by
  have hword : ∀ c ∈ name, Text.isWordChar c = true := Text.isWordChar_of_isIdentifier hname
  obtain ⟨c, name, rfl⟩ : ∃ c rest, name = c :: rest := by
    cases name with
    | nil => cases hname
    | cons c rest => exact ⟨c, rest, rfl⟩
  have hc := hword c List.mem_cons_self
  have hunsplit : Unsplit (c :: name) :=
    unsplit_of_forall (neutral_of_isWord hword) fun a ha hcomma => by
      have hcomma' : a = ',' := hcomma
      rw [hcomma'] at ha
      exact absurd (hword ',' ha) (by decide)
  refine .bare (hunsplit.append (hinside.unsplit_parenthesized rfl rfl)) ?_ ?_
  · refine Symbol.trim_of_ends (fun a ha => ?_) fun a ha => ?_
    · obtain rfl : c = a := by simpa using ha
      rw [← Bool.not_eq_true]
      intro hspace
      have hbreak : Text.isWordChar c = false := Text.isWordChar_of_isSpace hspace
      rw [hbreak] at hc
      cases hc
    · rw [← List.append_assoc, List.getLast?_concat, Option.mem_some] at ha
      rw [← ha]
      decide
  · refine Option.eq_none_iff_forall_not_mem.mpr fun inner hinner => ?_
    obtain ⟨a, b, ha, -, -, heq⟩ := unwrap?_eq_some_iff.mp hinner
    obtain ⟨rfl, -⟩ := List.cons.inj heq
    have ha' : c = '(' := ha
    rw [ha'] at hc
    exact absurd hc (by decide)

/-- The value that `glue` makes of one argument in parentheses that holds no call. -/
theorem Expansion.expandFragment_glueCall_of_findCall_none {u : Text} (hu : u.Balanced)
    (hcall : Outline.findCall table.callee? [] [] u = none) (limit levels : Nat) :
    expandFragment table limit (levels + 1) (Fragment.plain (Text.glueCall [u])) =
      .ok (Fragment.literal u) := by
  have hplain := expandFragment_of_findCall_none limit levels (Outline.findCall_plain_eq_none hcall)
  rw [expandFragment_glueCall table limit levels (List.cons_ne_nil u [])
    (List.forall_mem_singleton.mpr hu)]
  simp [hplain, bind, Except.bind, pure, Except.pure, Fragment.literal]

/-- A call of `glue` is one argument. -/
theorem Text.arguments_glueCall_self {ts : List Text} (hne : ts ≠ []) (h : ∀ t ∈ ts, t.Balanced) :
    Parens.Neutral (glueCall ts) ∧ Parens.arguments (glueCall ts) = [glueCall ts] := by
  have hspells := Parens.spells_call (by decide : isIdentifier glueName = true)
    (arguments_glueCall hne h).1
  exact ⟨hspells.unsplit.neutral, hspells.arguments rfl⟩

/-- **Glued values are forwarded.** The first macro of a chain is called with what `glue` makes of a
balanced text in parentheses; the text holds no call. Whatever else it holds, it comes out in the
brackets of the last macro as it went in. Only an empty text that is handed on does not: the second
macro of the chain then lacks its argument. -/
theorem glued_values_are_forwarded (table : Table) (name : Text) (rest : List Text) (u : Text)
    (limit : Nat) (hchain : table.Forwards name rest) (hu : u.Balanced)
    (hcall : ∀ called, Text.isIdentifier called = true → Outline.HoldsCall called u →
      table.callee? called = none) (hlimit : rest.length + 2 ≤ limit) :
    (u ≠ [] ∨ rest = [] →
      expand table limit (name ++ '(' :: (Text.glueCall [u] ++ [')'])) =
        .ok ('[' :: (u ++ [']']))) ∧
    (∀ next later, u = [] → rest = next :: later →
      expand table limit (name ++ '(' :: (Text.glueCall [u] ++ [')'])) =
        .error (.arityMismatch next 1 0)) := by
  obtain ⟨levels, rfl⟩ : ∃ n, limit = n + 2 := ⟨limit - 2, by omega⟩
  obtain ⟨hneutral, harguments⟩ :=
    Text.arguments_glueCall_self (List.cons_ne_nil u []) (List.forall_mem_singleton.mpr hu)
  have hinside : Parens.Neutral (Fragment.plain (Text.glueCall [u])) := fun level => by
    rw [Parens.levelAfter?_plain, hneutral level]
  have hargument : Parens.arguments (Fragment.plain (Text.glueCall [u])) =
      [Fragment.plain (Text.glueCall [u])] := by
    rw [Parens.arguments_plain, harguments, List.map_singleton]
  have hvalue := Expansion.expandFragment_glueCall_of_findCall_none hu
    (Outline.findCall_eq_none_iff_holdsCall.mpr hcall) (levels + 2) levels
  have hplain : Fragment.plain (name ++ '(' :: (Text.glueCall [u] ++ [')'])) =
      Fragment.call name (Fragment.plain (Text.glueCall [u])) :=
    Fragment.plain_call name (Text.glueCall [u]) []
  rw [expand, hplain]
  constructor
  · intro hne
    have hprotect : Fragment.literal u ≠ [] ∨ rest = [] := hne.imp_left Fragment.literal_ne_nil
    rw [hchain.expandFragment (levels + 2) hprotect (by omega) hinside hargument hvalue]
    exact congrArg Except.ok (Fragment.text_brackets u)
  · rintro next later rfl rfl
    cases hchain with
    | next hname hnext =>
      obtain ⟨body, hbinds⟩ := hnext.binds
      rw [hname.expandFragment_next hbinds (levels + 2) (levels + 1) hinside hargument hvalue]
      exact congrArg _ (hbinds.expandFragment_empty (levels + 2) levels)

/-- Two macros hand on a text with a comma, blanks, parentheses of its own, and the names of the
macros and of their parameter. -/
theorem glued_value_goes_through_two_macros :
    let table := (Table.empty.put ⟨['f'], [['x']], "g(x)".toList, ⟨⟨['d']⟩, 1⟩⟩).put
      ⟨['g'], [['x']], "[x]".toList, ⟨⟨['d']⟩, 2⟩⟩
    let u : Text := " , (f x)\n(g)é, ".toList
    table.Forwards ['f'] [['g']] ∧ u.Balanced ∧
      (∀ called, Text.isIdentifier called = true → Outline.HoldsCall called u →
        table.callee? called = none) ∧
      expand table 3 "f(glue(( , (f x)\n(g)é, )))".toList = .ok "[ , (f x)\n(g)é, ]".toList := by
  intro table u
  have hchain : table.Forwards ['f'] [['g']] :=
    .next ⟨by decide, by decide, by decide, _, rfl, rfl, rfl⟩
      (.last ⟨by decide, by decide, by decide, _, rfl, rfl, rfl⟩)
  have hu : Text.Balanced u := by decide
  have hcall : ∀ called, Text.isIdentifier called = true → Outline.HoldsCall called u →
      table.callee? called = none :=
    Outline.findCall_eq_none_iff_holdsCall.mp (by decide +kernel)
  have hforward := (glued_values_are_forwarded table ['f'] [['g']] u 3 hchain hu hcall le_rfl).1
    (.inl (List.cons_ne_nil _ _))
  have htext : ['f'] ++ '(' :: (Text.glueCall [u] ++ [')']) =
      "f(glue(( , (f x)\n(g)é, )))".toList := by
    decide
  rw [htext] at hforward
  exact ⟨hchain, hu, hcall, hforward⟩

/-- The second macro refuses an empty text, although the chain is one, the text is balanced, it
holds no call and the limit is not met. -/
theorem empty_value_is_refused_by_the_second_macro :
    let table := (Table.empty.put ⟨['f'], [['x']], "g(x)".toList, ⟨⟨['d']⟩, 1⟩⟩).put
      ⟨['g'], [['x']], "[x]".toList, ⟨⟨['d']⟩, 2⟩⟩
    table.Forwards ['f'] [['g']] ∧ Text.Balanced [] ∧
      (∀ called, Text.isIdentifier called = true → Outline.HoldsCall called [] →
        table.callee? called = none) ∧ [['g']].length + 2 ≤ 3 ∧
      expand table 3 "f(glue(()))".toList = .error (.arityMismatch ['g'] 1 0) ∧
      expand table 3 "f(glue(()))".toList ≠ .ok "[]".toList := by
  intro table
  have hrun : expand table 3 "f(glue(()))".toList = .error (.arityMismatch ['g'] 1 0) := by decide +kernel
  refine ⟨.next ⟨by decide, by decide, by decide, _, rfl, rfl, rfl⟩
    (.last ⟨by decide, by decide, by decide, _, rfl, rfl, rfl⟩), by decide,
    Outline.findCall_eq_none_iff_holdsCall.mp rfl, le_rfl, hrun, ?_⟩
  rw [hrun]
  intro heq
  cases heq

end TextExpander
