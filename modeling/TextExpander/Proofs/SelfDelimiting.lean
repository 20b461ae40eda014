import Mathlib.Logic.Function.Basic
import Mathlib.Tactic.SplitIfs
import TextExpander.Text.Quoted

/-!
# Codes that tell where they end

A value is written as a text, and something follows. The code of the values is self-delimiting if
value and rest can both be told from the whole, whatever the rest is. Such codes may be put one
after the other, and a list of values may be written without a mark between them
(`SelfDelimiting.append`, `SelfDelimiting.flatMap_injective`). So what is written by several fields,
each in its own way, can be read back if each field can.

There are two reasons why a field tells where it ends. A number or a keyword ends with a character
that it does not contain. A quoted text does contain its end mark, but only with a backslash before
it: each character has a self-delimiting form of its own, and no form starts with the end mark.

## Main definitions

* `SelfDelimiting`: value and rest can be told from the code of the value before the rest.

## Main results

* `SelfDelimiting.ended`, `SelfDelimiting.list_ended`: codes with an end mark.
* `Text.toDigits_injective`: a number can be told from its digits.
* `Text.selfDelimiting_quote`: a text can be told from its quoted form.
-/

namespace TextExpander

variable {α β : Type}

/-- Whatever follows the code of a value, the value and what follows can be told. -/
structure SelfDelimiting (code : α → Text) : Prop where
  /-- The same whole is made of the same value and the same rest. -/
  inj {a b : α} {s t : Text} : code a ++ s = code b ++ t → a = b ∧ s = t

namespace SelfDelimiting

variable {f : α → Text} {g : β → Text}

theorem append (hf : SelfDelimiting f) (hg : SelfDelimiting g) :
    SelfDelimiting fun x : α × β => f x.1 ++ g x.2 := by
  refine ⟨fun {x y s t} h => ?_⟩
  obtain ⟨a, b⟩ := x
  obtain ⟨a', b'⟩ := y
  simp only [List.append_assoc] at h
  obtain ⟨rfl, hrest⟩ := hf.inj h
  obtain ⟨rfl, rfl⟩ := hg.inj hrest
  exact ⟨rfl, rfl⟩

/-- A fixed text in front of the code. -/
theorem after (hf : SelfDelimiting f) (front : Text) : SelfDelimiting fun a => front ++ f a := by
  refine ⟨fun {a b s t} h => ?_⟩
  simp only [List.append_assoc] at h
  exact hf.inj (List.append_cancel_left h)

/-- A fixed text behind the code. -/
theorem before (hf : SelfDelimiting f) (back : Text) : SelfDelimiting fun a => f a ++ back := by
  refine ⟨fun {a b s t} h => ?_⟩
  simp only [List.append_assoc] at h
  obtain ⟨rfl, hrest⟩ := hf.inj h
  exact ⟨rfl, List.append_cancel_left hrest⟩

theorem comp (hf : SelfDelimiting f) {key : β → α} (hkey : Function.Injective key) :
    SelfDelimiting fun b => f (key b) := by
  refine ⟨fun {a b s t} h => ?_⟩
  obtain ⟨hab, rfl⟩ := hf.inj h
  exact ⟨hkey hab, rfl⟩

theorem append_cons_inj {stop : Char} {u v s t : Text} (hu : stop ∉ u) (hv : stop ∉ v)
    (h : u ++ stop :: s = v ++ stop :: t) : u = v ∧ s = t := by
  have hsplit := congrArg (List.splitOn stop) h
  rw [List.splitOn_append_cons_self_of_not_mem hu, List.splitOn_append_cons_self_of_not_mem hv]
    at hsplit
  obtain ⟨rfl, -⟩ := List.cons.inj hsplit
  exact ⟨rfl, List.tail_eq_of_cons_eq (List.append_cancel_left h)⟩

/-- A code with an end mark that occurs in no code. -/
theorem ended (hf : Function.Injective f) {stop : Char} (hstop : ∀ a, stop ∉ f a) :
    SelfDelimiting fun a => f a ++ [stop] := by
  refine ⟨fun {a b s t} h => ?_⟩
  simp only [List.append_assoc, List.singleton_append] at h
  obtain ⟨hab, rfl⟩ := append_cons_inj (hstop a) (hstop b) h
  exact ⟨hf hab, rfl⟩

/-- A list with an end mark that starts no code of a member. -/
theorem list_ended (hf : SelfDelimiting f) {stop : Char}
    (hstop : ∀ a s t, f a ++ s ≠ stop :: t) :
    SelfDelimiting fun as : List α => as.flatMap f ++ [stop] := by
  refine ⟨fun {as bs s t} h => ?_⟩
  induction as generalizing bs with
  | nil =>
    cases bs with
    | nil => exact ⟨rfl, List.tail_eq_of_cons_eq h⟩
    | cons b bs =>
      simp only [List.flatMap_cons, List.append_assoc] at h
      exact absurd h.symm (hstop b _ _)
  | cons a as ih =>
    cases bs with
    | nil =>
      simp only [List.flatMap_cons, List.append_assoc] at h
      exact absurd h (hstop a _ _)
    | cons b bs =>
      simp only [List.flatMap_cons, List.append_assoc] at h
      obtain ⟨rfl, hrest⟩ := hf.inj h
      obtain ⟨rfl, rfl⟩ := ih (by simpa using hrest)
      exact ⟨rfl, rfl⟩

/-- A list that is all there is needs no end mark. -/
theorem flatMap_injective (hf : SelfDelimiting f) (hne : ∀ a, f a ≠ []) :
    Function.Injective (List.flatMap f) := by
  intro as bs h
  induction as generalizing bs with
  | nil =>
    cases bs with
    | nil => rfl
    | cons b bs =>
      rw [List.flatMap_cons] at h
      exact absurd (List.append_eq_nil_iff.mp h.symm).1 (hne b)
  | cons a as ih =>
    cases bs with
    | nil =>
      rw [List.flatMap_cons] at h
      exact absurd (List.append_eq_nil_iff.mp h).1 (hne a)
    | cons b bs =>
      obtain ⟨rfl, hrest⟩ := hf.inj h
      rw [ih hrest]

end SelfDelimiting

namespace Text

/-! ### Numbers -/

theorem digitChar_inj : ∀ m < 16, ∀ n < 16, Nat.digitChar m = Nat.digitChar n → m = n := by
  decide

/-- **A number can be told from its digits.** -/
theorem toDigits_injective {base : Nat} (hbase : 1 < base) (hle : base ≤ 16) :
    Function.Injective (Nat.toDigits base) := by
  intro m
  induction m using Nat.strongRecOn with
  | ind m ih =>
    intro n h
    have hpos : 0 < base := Nat.lt_trans Nat.zero_lt_one hbase
    have hdigit : ∀ k, k % base < 16 := fun k => Nat.lt_of_lt_of_le (Nat.mod_lt k hpos) hle
    have hnonempty : ∀ k, Nat.toDigits base k ≠ [] := fun k => Nat.toDigits_ne_nil
    rw [Nat.toDigits_eq_if hbase, Nat.toDigits_eq_if hbase (n := n)] at h
    split_ifs at h with hm hn hn
    · exact digitChar_inj m (Nat.lt_of_lt_of_le hm hle) n (Nat.lt_of_lt_of_le hn hle)
        (List.singleton_inj.mp h)
    · rcases List.append_eq_singleton_iff.mp h.symm with ⟨hnil, -⟩ | ⟨-, hnil⟩
      · exact absurd hnil (hnonempty _)
      · cases hnil
    · rcases List.append_eq_singleton_iff.mp h with ⟨hnil, -⟩ | ⟨-, hnil⟩
      · exact absurd hnil (hnonempty _)
      · cases hnil
    · obtain ⟨hfront, hlast⟩ := List.append_inj' h rfl
      have hdiv : m / base = n / base := ih _ (Nat.div_lt_self (by omega) hbase) hfront
      have hmod : m % base = n % base :=
        digitChar_inj _ (hdigit m) _ (hdigit n) (List.singleton_inj.mp hlast)
      rw [← Nat.div_add_mod m base, ← Nat.div_add_mod n base, hdiv, hmod]

theorem exists_of_mem_toDigits {base : Nat} (hbase : 1 < base) {n : Nat} {c : Char}
    (h : c ∈ Nat.toDigits base n) : ∃ d < base, c = Nat.digitChar d := by
  induction n using Nat.strongRecOn with
  | ind n ih =>
    rw [Nat.toDigits_eq_if hbase] at h
    split_ifs at h with hn
    · exact ⟨n, hn, List.mem_singleton.mp h⟩
    · rcases List.mem_append.mp h with h | h
      · exact ih _ (Nat.div_lt_self (by omega) hbase) h
      · exact ⟨n % base, Nat.mod_lt n (by omega), List.mem_singleton.mp h⟩

/-- A decimal number with a colon behind it. -/
theorem selfDelimiting_decimal : SelfDelimiting fun n => decimal n ++ [':'] := by
  refine .ended (toDigits_injective (by decide) (by decide)) fun n hmem => ?_
  obtain ⟨d, hd, hcolon⟩ := exists_of_mem_toDigits (by decide) hmem
  revert d
  decide

/-- A hexadecimal number with a brace behind it. -/
theorem selfDelimiting_hexadecimal : SelfDelimiting fun n => hexadecimal n ++ ['\x7d'] := by
  refine .ended (toDigits_injective (by decide) (by decide)) fun n hmem => ?_
  obtain ⟨d, hd, hbrace⟩ := exists_of_mem_toDigits (by decide) hmem
  revert d
  decide

/-! ### Quoted texts -/

/-- The character that a letter behind a backslash stands for. -/
def unmark : Char → Char
  | 't' => '\t'
  | 'r' => '\r'
  | 'n' => '\n'
  | '0' => '\x00'
  | c => c

/-- **The form of a character**: the character itself, a letter behind a backslash, or a number. -/
theorem quoteChar_cases (c : Char) :
    (c ≠ '\\' ∧ c ≠ '"' ∧ quoteChar c = [c]) ∨
      (∃ mark, mark ≠ 'u' ∧ unmark mark = c ∧ quoteChar c = ['\\', mark]) ∨
      quoteChar c = ['\\', 'u', '\x7b'] ++ (hexadecimal c.toNat ++ ['\x7d']) := by
  rw [quoteChar]
  split_ifs with htab hreturn hfeed hnull hquote hbackslash
  · exact .inr (.inl ⟨'t', by decide, htab.symm, rfl⟩)
  · exact .inr (.inl ⟨'r', by decide, hreturn.symm, rfl⟩)
  · exact .inr (.inl ⟨'n', by decide, hfeed.symm, rfl⟩)
  · exact .inr (.inl ⟨'0', by decide, hnull.symm, rfl⟩)
  · exact .inr (.inl ⟨'"', by decide, hquote.symm, rfl⟩)
  · exact .inr (.inl ⟨'\\', by decide, hbackslash.symm, rfl⟩)
  · exact .inr (.inr (by rw [List.append_assoc]))
  · exact .inl ⟨hbackslash, hquote, rfl⟩

/-- The three kinds of forms are told apart by their first two characters. -/
theorem selfDelimiting_quoteChar : SelfDelimiting quoteChar := by
  refine ⟨fun {c d s t} h => ?_⟩
  rcases quoteChar_cases c with ⟨hc, -, hform⟩ | ⟨mark, hmark, hc, hform⟩ | hform <;>
    rcases quoteChar_cases d with ⟨hd, -, hform'⟩ | ⟨mark', hmark', hd, hform'⟩ | hform' <;>
    rw [hform, hform'] at h
  · exact List.cons.inj h
  · exact absurd (List.cons.inj h).1 hc
  · exact absurd (List.cons.inj h).1 hc
  · exact absurd (List.cons.inj h).1.symm hd
  · obtain ⟨-, hrest⟩ := List.cons.inj h
    obtain ⟨rfl, hst⟩ := List.cons.inj hrest
    exact ⟨hc.symm.trans hd, hst⟩
  · obtain ⟨-, hrest⟩ := List.cons.inj h
    exact absurd (List.cons.inj hrest).1 hmark
  · exact absurd (List.cons.inj h).1.symm hd
  · obtain ⟨-, hrest⟩ := List.cons.inj h
    exact absurd (List.cons.inj hrest).1.symm hmark'
  · obtain ⟨hcd, hst⟩ := (selfDelimiting_hexadecimal.after ['\\', 'u', '\x7b']).inj h
    exact ⟨Char.toNat_inj.mp hcd, hst⟩

/-- No form starts with the quote that ends a text. -/
theorem quoteChar_append_ne (c : Char) (s t : Text) : quoteChar c ++ s ≠ '"' :: t := by
  intro h
  rcases quoteChar_cases c with ⟨-, hquote, hform⟩ | ⟨mark, -, -, hform⟩ | hform <;>
    rw [hform] at h
  · exact hquote (List.cons.inj h).1
  · cases (List.cons.inj h).1
  · cases (List.cons.inj h).1

/-- **A text can be told from its quoted form**, whatever follows. -/
theorem selfDelimiting_quote : SelfDelimiting quote :=
  (selfDelimiting_quoteChar.list_ended quoteChar_append_ne).after ['"']

end Text

end TextExpander
