/-!
# Checked programs

Programs on offsets can go wrong where programs on texts cannot: a cut can miss the boundary of a
character, a loop can come back to where it was, a count can fall below zero. A checked program
fails at the first of these things instead of going on with something in its place, and so what it
gives, if it gives anything, was come by without them.

* `loop`: a loop that fails where an iteration gets no further.
* `loop_eq_ok`: a loop gives what an invariant promises, if each iteration keeps the promise.
-/

namespace Flashdeck.Checked

/-- What a checked program fails at. -/
inductive Lapse where
  /-- A text is cut outside of it or inside a character. -/
  | cut
  /-- An iteration ends no further than it began. -/
  | stall
  /-- There is no word where one begins. -/
  | missingWord
  /-- More is taken away than there is. -/
  | underflow
  /-- A number that is no character is made one. -/
  | noChar
deriving DecidableEq, Repr

/-- What a checked program comes to: its lapse, or what it gives without one. -/
abbrev Attempt := Except Lapse

/-- A program goes on with what another one gives. -/
@[simp] theorem ok_bind {α β : Type} (value : α) (next : α → Attempt β) :
    (Except.ok value : Attempt α) >>= next = next value := rfl

@[simp] theorem pure_eq_ok {α : Type} (value : α) : (pure value : Attempt α) = .ok value := rfl

/-- What a checked program gives for an optional value that has to be there. -/
def require {α : Type} (lapse : Lapse) : Option α → Attempt α
  | some value => .ok value
  | none => .error lapse

theorem require_eq_ok_iff {α : Type} {lapse : Lapse} {found : Option α} {value : α} :
    require lapse found = .ok value ↔ found = some value := by
  cases found with
  | none => simp [require]
  | some value => simp [require]

/-- A difference that has to be one. -/
def subtract (amount decrement : Nat) : Attempt Nat :=
  require .underflow (if decrement ≤ amount then some (amount - decrement) else none)

theorem subtract_of_le {amount decrement : Nat} (le : decrement ≤ amount) :
    subtract amount decrement = .ok (amount - decrement) :=
  require_eq_ok_iff.2 (if_pos le)

variable {σ β : Type} {place : σ → Nat} {limit : Nat} {pass : σ → Attempt (β ⊕ σ)}

/-- Repeats an iteration until it gives a result and no further state. A state that is not in a later
place than the one before it, or not in a place up to `limit`, is a lapse. -/
def loop (place : σ → Nat) (limit : Nat) (pass : σ → Attempt (β ⊕ σ)) (state : σ) : Attempt β :=
  match pass state with
  | .error lapse => .error lapse
  | .ok (.inl out) => .ok out
  | .ok (.inr next) =>
    if place state < place next ∧ place next ≤ limit then loop place limit pass next
    else .error .stall
termination_by limit - place state

/-- A loop gives what `Promises` says of the state that it begins with, if an iteration gives what is
promised or goes on, to a later place, in a state that is promised the same. -/
theorem loop_eq_ok {Promises : σ → β → Prop}
    (keeps : ∀ state out, Promises state out → pass state = .ok (.inl out) ∨
      ∃ next, pass state = .ok (.inr next) ∧ place state < place next ∧ place next ≤ limit ∧
        Promises next out)
    {state : σ} {out : β} (promised : Promises state out) :
    loop place limit pass state = .ok out := by
  induction left : limit - place state using Nat.strongRecOn generalizing state with
  | ind n ih =>
    rcases keeps state out promised with done | ⟨next, went, further, within, again⟩
    · rw [loop, done]
    · have others := ih (limit - place next) (by omega) again rfl
      rw [loop, went]
      exact (if_pos ⟨further, within⟩).trans others

end Flashdeck.Checked
