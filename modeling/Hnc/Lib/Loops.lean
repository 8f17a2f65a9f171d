import Mathlib.Tactic.Common

/-!
# Loops with a variant

The body of a `while` loop either ends the loop with a result or leaves a state
for the next turn.  A loop comes with a number that gets smaller on every turn
that goes on, so it ends, and its result is a function of the state.

A loop over a list that is given its turns instead never runs out of them when
it has one for every element that is left.
-/

namespace Loops

/-- What one turn of a loop comes to. -/
inductive Turn (State Result : Type) where
  | done (result : Result)
  | again (state : State)

/-- The turn of a body that may stop with an error of its own. -/
def Turn.ofExcept {State Result Error : Type} :
    Except Error (Turn State Result) → Turn State (Except Error Result)
  | .error e => .done (.error e)
  | .ok (.done result) => .done (.ok result)
  | .ok (.again state) => .again state

theorem Turn.ofExcept_again {State Result Error : Type}
    {body : Except Error (Turn State Result)} {state : State}
    (goesOn : Turn.ofExcept body = .again state) :
    body = .ok (.again state) := by
  cases body with
  | error e => cases goesOn
  | ok turn =>
      cases turn with
      | done result => cases goesOn
      | again next => cases goesOn; rfl

structure Loop (State Result : Type) where
  turn : State → Turn State Result
  variant : State → Nat
  decreases : ∀ {s s' : State}, turn s = .again s' → variant s' < variant s

namespace Loop

variable {State Result : Type} (l : Loop State Result)

/-- At most so many turns. -/
def turns : Nat → State → Option Result
  | 0, _ => none
  | left + 1, s =>
      match l.turn s with
      | .done result => some result
      | .again s' => turns left s'

variable {l}

variable {left : Nat} {s : State}

/-- The variant bounds the number of turns. -/
theorem turns_isSome (enough : l.variant s < left) :
    (l.turns left s).isSome = true := by
  induction left generalizing s with
  | zero => exact absurd enough (Nat.not_lt_zero _)
  | succ left induction =>
      rw [turns]
      cases body : l.turn s with
      | done result => rfl
      | again s' =>
          have smaller := l.decreases body
          exact induction (by omega)

/-- Turns that are left over change nothing. -/
theorem turns_eq {other : Nat} (enough : l.variant s < left)
    (also : l.variant s < other) : l.turns left s = l.turns other s := by
  induction left generalizing s other with
  | zero => exact absurd enough (Nat.not_lt_zero _)
  | succ left induction =>
      cases other with
      | zero => exact absurd also (Nat.not_lt_zero _)
      | succ other =>
          rw [turns, turns]
          cases body : l.turn s with
          | done result => rfl
          | again s' =>
              have smaller := l.decreases body
              exact induction (by omega) (by omega)

variable (l)

/-- The result of the loop. -/
def exec (s : State) : Result :=
  (l.turns (l.variant s + 1) s).get (turns_isSome (Nat.lt_succ_self _))

variable {l}

theorem exec_done {result : Result} (body : l.turn s = .done result) :
    l.exec s = result := by
  have ends : l.turns (l.variant s + 1) s = some result := by
    rw [turns, body]
  simp only [exec, ends, Option.get_some]

theorem exec_again {s s' : State} (body : l.turn s = .again s') :
    l.exec s = l.exec s' := by
  have smaller := l.decreases body
  have same : l.turns (l.variant s + 1) s =
      l.turns (l.variant s' + 1) s' := by
    rw [turns, body]
    exact turns_eq smaller (Nat.lt_succ_self _)
  simp only [exec, same]

/-- What every turn keeps holds when the loop ends. -/
theorem exec_induction (inv : State → Prop) {s : State} (start : inv s)
    (kept : ∀ s s', inv s → l.turn s = .again s' → inv s') :
    ∃ last, inv last ∧ l.turn last = .done (l.exec s) := by
  induction size : l.variant s using Nat.strongRecOn
    generalizing s with
  | ind n induction =>
      cases body : l.turn s with
      | done result =>
          exact ⟨s, start, by rw [exec_done body]; exact body⟩
      | again s' =>
          have smaller := l.decreases body
          rw [exec_again body]
          exact induction (l.variant s') (by omega) (kept s s' start body) rfl

/-- The states whose turns lead from one state to another. -/
inductive Path (l : Loop State Result) : State → List State → State → Prop where
  | here (s : State) : Path l s [] s
  | turn {s s' last : State} {between : List State}
      (body : l.turn s = .again s') (rest : Path l s' between last) :
      Path l s (s :: between) last

theorem turns_eq_exec (enough : l.variant s < left) :
    l.turns left s = some (l.exec s) := by
  rw [exec, Option.some_get]
  exact turns_eq enough (Nat.lt_succ_self _)

end Loop

section Crosses

variable {α Result : Type} {loop within after : Nat → List α → Result}

/-- The loop comes out behind `text` as the loop `after`, with enough turns for
the rest. -/
def Crosses (loop after : Nat → List α → Result) (text rest : List α) : Prop :=
  ∀ fuel, (text ++ rest).length ≤ fuel →
    ∃ left, rest.length ≤ left ∧ loop fuel (text ++ rest) = after left rest

/-- A turn is left for an element that is left. -/
theorem exists_turn {a : α} {rest : List α} {fuel : Nat}
    (enough : (a :: rest).length ≤ fuel) :
    ∃ left, fuel = left + 1 ∧ rest.length ≤ left := by
  rw [List.length_cons] at enough
  exact ⟨fuel - 1, by omega, by omega⟩

theorem Crosses.nil (rest : List α) : Crosses loop loop [] rest :=
  fun fuel enough => ⟨fuel, enough, rfl⟩

variable {rest : List α}

theorem Crosses.append {left right : List α}
    (first : Crosses loop within left (right ++ rest))
    (second : Crosses within after right rest) :
    Crosses loop after (left ++ right) rest := by
  intro fuel enough
  rw [List.append_assoc] at enough ⊢
  obtain ⟨between, long, same⟩ := first fuel enough
  obtain ⟨last, longLast, sameLast⟩ := second between long
  exact ⟨last, longLast, same.trans sameLast⟩

/-- One turn takes the loop over a text. -/
theorem Crosses.turn {a : α} {text : List α}
    (passes : ∀ left, loop (left + 1) (a :: (text ++ rest)) = after left rest) :
    Crosses loop after (a :: text) rest := by
  intro fuel enough
  obtain ⟨left, rfl, long⟩ := @exists_turn _ a (text ++ rest) fuel enough
  rw [List.length_append] at long
  exact ⟨left, Nat.le_trans (Nat.le_add_left _ _) long, passes left⟩

/-- Between two brackets the loop runs as the loop `within`. -/
theorem Crosses.bracket {opening closing : α} {inner text : List α}
    (opened : ∀ left text, loop (left + 1) (opening :: text) = within left text)
    (closed : ∀ left text, within (left + 1) (closing :: text) = loop left text)
    (inside : Crosses within within inner (closing :: (text ++ rest)))
    (behind : Crosses loop after text rest) :
    Crosses loop after (opening :: inner ++ closing :: text) rest := by
  have enters : Crosses loop within [opening]
      ((inner ++ closing :: text) ++ rest) :=
    .turn fun left => opened left _
  have leaves : Crosses within loop [closing] (text ++ rest) :=
    .turn fun left => closed left _
  have close : Crosses within after ([closing] ++ text) rest :=
    leaves.append behind
  have whole : Crosses within after (inner ++ ([closing] ++ text)) rest :=
    Crosses.append inside close
  exact enters.append whole

end Crosses

end Loops
