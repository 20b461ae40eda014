import TextExpander.Definition
import TextExpander.Error

/-!
# The table of definitions

The definitions known at a point of the document, at most one for each name. The built-in `glue`
is not in the table; it is found before any definition of that name.

## Main definitions

* `Table`: definitions with distinct names.
* `Table.get?`, `Table.put`: look-up and insertion.
* `Table.define`: insertion under a policy for names that are taken.
* `Callee`, `Table.callee?`: what a name in a call refers to.
-/

namespace TextExpander

/-- The list of definitions with `d` in the place of the definition of the same name, or at the end
if there is none. -/
def putDefinition (d : Definition) : List Definition → List Definition
  | [] => [d]
  | e :: rest => if e.name = d.name then d :: rest else e :: putDefinition d rest

theorem mem_names_putDefinition {d : Definition} {entries : List Definition} {name : Text} :
    name ∈ (putDefinition d entries).map Definition.name ↔
      name = d.name ∨ name ∈ entries.map Definition.name := by
  induction entries with
  | nil => simp [putDefinition]
  | cons e rest ih =>
    rw [putDefinition]
    split
    · next h => simp [h]
    · rw [List.map_cons, List.mem_cons, ih, List.map_cons, List.mem_cons, or_left_comm]

theorem nodup_names_putDefinition {d : Definition} {entries : List Definition}
    (h : (entries.map Definition.name).Nodup) :
    ((putDefinition d entries).map Definition.name).Nodup := by
  induction entries with
  | nil => simp [putDefinition]
  | cons e rest ih =>
    rw [List.map_cons, List.nodup_cons] at h
    rw [putDefinition]
    split
    · next heq => rw [List.map_cons, List.nodup_cons, ← heq]; exact h
    · next hne =>
      rw [List.map_cons, List.nodup_cons, mem_names_putDefinition]
      exact ⟨fun hmem => hmem.elim hne h.1, ih h.2⟩

/-- The definitions known at a point of the document. -/
structure Table where
  /-- The definitions, in the order in which their names were first defined. -/
  entries : List Definition := []
  /-- No name is defined twice. -/
  distinct : (entries.map Definition.name).Nodup := by simp

/-- What a name in a call refers to. -/
inductive Callee where
  /-- The built-in that joins its arguments and protects the result. -/
  | glue
  /-- A definition of the document. -/
  | user (definition : Definition)
  deriving DecidableEq, Repr

/-- The name of the built-in. -/
def glueName : Text := "glue".toList

/-- The name that a callee is called by. -/
def Callee.name : Callee → Text
  | glue => glueName
  | user definition => definition.name

namespace Table

/-- The table without definitions. -/
def empty : Table := {}

/-- The number of definitions. -/
def size (t : Table) : Nat :=
  t.entries.length

/-- The definition of a name. -/
def get? (t : Table) (name : Text) : Option Definition :=
  t.entries.find? fun d => d.name == name

theorem name_of_get? {t : Table} {name : Text} {d : Definition} (h : t.get? name = some d) :
    d.name = name := by
  have hfound := List.find?_some h
  exact beq_iff_eq.mp hfound

/-- The table with a definition in the place of an earlier one of its name, or in addition. -/
def put (t : Table) (d : Definition) : Table where
  entries := putDefinition d t.entries
  distinct := nodup_names_putDefinition t.distinct

theorem find?_putDefinition (d : Definition) (entries : List Definition) (name : Text) :
    (putDefinition d entries).find? (fun e => e.name == name) =
      if d.name = name then some d else entries.find? fun e => e.name == name := by
  induction entries with
  | nil => by_cases h : d.name = name <;> simp [putDefinition, h]
  | cons e rest ih =>
    rw [putDefinition]
    split
    · next heq => by_cases h : d.name = name <;> simp [h, heq]
    · next hne =>
      by_cases he : e.name = name
      · simp [he, show d.name ≠ name from fun h => hne (he.trans h.symm)]
      · simp [he, ih]

/-- After an insertion its name has the new definition, and every other name what it had. -/
theorem get?_put (t : Table) (d : Definition) (name : Text) :
    (t.put d).get? name = if d.name = name then some d else t.get? name :=
  find?_putDefinition d t.entries name

/-- The table with a definition in addition; a name that is taken is dealt with as the policy says.
-/
def define (policy : Redefinition) (t : Table) (d : Definition) : Except Error Table :=
  match policy, t.get? d.name with
  | .reject, some previous => .error (.fault d.location (.redefinition d.name previous.location))
  | _, _ => .ok (t.put d)

/-- What a name refers to when it is called: the built-in before any definition. -/
def callee? (t : Table) (name : Text) : Option Callee :=
  if name = glueName then some .glue else (t.get? name).map .user

end Table

end TextExpander
