import TextExpander.Document.Termination

/-!
# Step boundaries

Handing the steps of a document on goes through a sequence of places in the document, each with the
state that was reached there. These pairs are what a statement about every moment of a run is about:
a property that holds at the start and is kept by each step holds at all of them, and a run that
ends without an error ends at one of them, where the document ends.

## Main definitions

* `Cursor.Reached`: a place and a state between two steps.
* `Cursor.Stops`: the ways in which a run stops.

## Main results

* `Cursor.Reached.invariant`: what each step keeps holds at every boundary.
* `Cursor.stops_feed`: every run stops at a boundary.
* `Cursor.reached_of_feed`: a run without an error stops at a boundary at the end of the document.
* `Cursor.feed_invariant`: what each step keeps holds where the run stops, with an error or without.
* `Cursor.Reached.invariant_of_next`, `Cursor.feed_invariant_of_next`: the same for what only the
  steps of the document at hand keep.
-/

namespace TextExpander

namespace Cursor

variable {σ : Type} {read : σ → Reader} {limit : Nat} {act : σ → Step → σ × Option Error}
  {c d : Cursor} {s t : σ}

/-- The places and states between two steps, when the steps from the place `c` on are handed on to
`act` in the state `s`. -/
inductive Reached (read : σ → Reader) (limit : Nat) (act : σ → Step → σ × Option Error)
    (c : Cursor) (s : σ) : Cursor → σ → Prop
  /-- Before the first step. -/
  | start : Reached read limit act c s c s
  /-- After one step more. -/
  | step {d d' : Cursor} {t t' : σ} {next : Step} : Reached read limit act c s d t →
      d.next? (read t) limit = .ok (some (next, d')) → act t next = (t', none) →
      Reached read limit act c s d' t'

/-- What each step of the document keeps, at the boundary where it is taken, holds at every
boundary. -/
theorem Reached.invariant_of_next {P : σ → Prop}
    (hact : ∀ {d d' t next}, Reached read limit act c s d t →
      d.next? (read t) limit = .ok (some (next, d')) → P t → P (act t next).1)
    (hs : P s) (h : Reached read limit act c s d t) : P t := by
  induction h with
  | start => exact hs
  | @step _ _ t t' next hreached hnext hstep ih =>
    have hkept : P (act t next).1 := hact hreached hnext ih
    rwa [hstep] at hkept

/-- **What each step keeps holds at every boundary.** -/
theorem Reached.invariant {P : σ → Prop} (hact : ∀ t next, P t → P (act t next).1) (hs : P s)
    (h : Reached read limit act c s d t) : P t :=
  h.invariant_of_next (fun _ _ => hact _ _) hs

/-- The boundaries after the first step are boundaries. -/
theorem Reached.after_step {c' : Cursor} {s' : σ} {next : Step}
    (hnext : c.next? (read s) limit = .ok (some (next, c'))) (hact : act s next = (s', none))
    (h : Reached read limit act c' s' d t) : Reached read limit act c s d t := by
  induction h with
  | start => exact Reached.start.step hnext hact
  | step _ hnext' hact' ih => exact ih.step hnext' hact'

/-- How a run stops: at a boundary, because the document ends there, because it cannot be read on,
or because the next step is refused. -/
inductive Stops (read : σ → Reader) (limit : Nat) (act : σ → Step → σ × Option Error)
    (c : Cursor) (s : σ) : σ × Option Error → Prop
  /-- The document ends. -/
  | ended {d : Cursor} {t : σ} : Reached read limit act c s d t →
      d.next? (read t) limit = .ok none → Stops read limit act c s (t, none)
  /-- The document cannot be read on. -/
  | unread {d : Cursor} {t : σ} {e : Error} : Reached read limit act c s d t →
      d.next? (read t) limit = .error e → Stops read limit act c s (t, some e)
  /-- The next step is refused. -/
  | refused {d d' : Cursor} {t t' : σ} {next : Step} {e : Error} :
      Reached read limit act c s d t → d.next? (read t) limit = .ok (some (next, d')) →
      act t next = (t', some e) → Stops read limit act c s (t', some e)

theorem Stops.after_step {c' : Cursor} {s' : σ} {next : Step} {x : σ × Option Error}
    (hnext : c.next? (read s) limit = .ok (some (next, c'))) (hact : act s next = (s', none))
    (h : Stops read limit act c' s' x) : Stops read limit act c s x := by
  cases h with
  | ended hreached hend => exact .ended (hreached.after_step hnext hact) hend
  | unread hreached he => exact .unread (hreached.after_step hnext hact) he
  | refused hreached hnext' hact' =>
    exact .refused (hreached.after_step hnext hact) hnext' hact'

/-- **Where a run stops.** -/
theorem stops_feed (read : σ → Reader) (limit : Nat) (act : σ → Step → σ × Option Error)
    (c : Cursor) (s : σ) : Stops read limit act c s (feed read limit act c s) := by
  induction c using (follows_wellFounded limit).induction generalizing s with
  | _ c ih =>
    cases hnext : c.next? (read s) limit with
    | error e =>
      rw [feed_of_error hnext]
      exact .unread .start hnext
    | ok next =>
      cases next with
      | none =>
        rw [feed_of_end hnext]
        exact .ended .start hnext
      | some next =>
        obtain ⟨next, d⟩ := next
        rw [feed_of_step hnext]
        cases hact : act s next with
        | mk s' failure =>
          cases failure with
          | some e => exact .refused .start hnext hact
          | none => exact (ih d ⟨read s, next, hnext⟩ s').after_step hnext hact

/-- **A run without an error.** It stops at a boundary, and there the document ends. -/
theorem reached_of_feed (h : feed read limit act c s = (t, none)) :
    ∃ d, Reached read limit act c s d t ∧ d.next? (read t) limit = .ok none := by
  have hstops := stops_feed read limit act c s
  rw [h] at hstops
  cases hstops with
  | ended hreached hend => exact ⟨_, hreached, hend⟩

/-- What each step of the document keeps, at the boundary where it is taken, holds where the run
stops, for whatever reason it does. -/
theorem feed_invariant_of_next {P : σ → Prop}
    (hact : ∀ {d d' t next}, Reached read limit act c s d t →
      d.next? (read t) limit = .ok (some (next, d')) → P t → P (act t next).1)
    (hs : P s) : P (feed read limit act c s).1 := by
  have hstops := stops_feed read limit act c s
  generalize feed read limit act c s = x at hstops ⊢
  cases hstops with
  | ended hreached _ => exact hreached.invariant_of_next hact hs
  | unread hreached _ => exact hreached.invariant_of_next hact hs
  | @refused _ _ t _ next _ hreached hnext hrefused =>
    have hkept : P (act t next).1 := hact hreached hnext (hreached.invariant_of_next hact hs)
    rwa [hrefused] at hkept

/-- **What each step keeps holds where the run stops**, with an error or without. -/
theorem feed_invariant {P : σ → Prop} (hact : ∀ t next, P t → P (act t next).1) (hs : P s) :
    P (feed read limit act c s).1 :=
  feed_invariant_of_next (fun _ _ => hact _ _) hs

end Cursor

end TextExpander
