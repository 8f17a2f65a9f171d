import Hnc.Json.SafeWriter
import Hnc.Lib.JsonText
import Hnc.Lib.Loops

/-!
# The scanners of `json_set.sh` on laid out text

`findkey` walks over the whole file with a bracket depth and looks only at
strings at one depth between two positions.  On a file that renders nested
objects it finds the first member with the key in the object that opens at the
first of these positions.
-/

namespace Hnc.SafeWriter

open Posix JsonText Loops

theorem strend_body {esc : Bool} {body : Text} (ok : Body esc body)
    (rest : Text) :
    strend esc (body ++ '"' :: rest) = some (body, rest) := by
  induction ok with
  | done => simp [strend]
  | slash _ induction => simp [strend, induction]
  | escaped c _ induction => simp [strend, induction]
  | plain slash quoteFree _ induction =>
      simp [strend, slash, quoteFree, induction]

variable {text : Text}

theorem crosses_objend (balanced : Bal text) (depth : Nat) (rest : Text) :
    Crosses (objend (depth + 1)) (objend (depth + 1)) text rest := by
  induction balanced generalizing depth rest with
  | nil => exact .nil rest
  | @plain c tail plain _ induction =>
      simp only [isPlain, Bool.and_eq_true, bne_iff_ne] at plain
      have first : Crosses (objend (depth + 1)) (objend (depth + 1)) [c]
          (tail ++ rest) := .turn fun left => by simp [objend, plain]
      exact first.append (induction depth rest)
  | @str body tail ok _ induction =>
      have string := strend_body ok (tail ++ rest)
      have first : Crosses (objend (depth + 1)) (objend (depth + 1))
          (quote body) (tail ++ rest) :=
        .turn fun left => by simp [objend, string]
      simpa [quote] using first.append (induction depth rest)
  | curly _ _ innerInduction induction =>
      exact .bracket (fun _ _ => by simp [objend]) (fun _ _ => by simp [objend])
        (innerInduction (depth + 1) _) (induction depth rest)
  | square _ _ innerInduction induction =>
      exact .bracket (fun _ _ => by simp [objend]) (fun _ _ => by simp [objend])
        (innerInduction depth _) (induction depth rest)

variable {o : Obj}

theorem objend_obj (shaped : o.Shaped) (rest : Text) :
    objend 0 (o.render ++ rest).length (o.render ++ rest) = some rest := by
  rw [Obj.render_append, List.length_cons]
  obtain ⟨left, long, same⟩ := crosses_objend shaped.bal_inner 0 ('}' :: rest)
    (o.inner ++ '}' :: rest).length (Nat.le_refl _)
  obtain ⟨left, rfl, _⟩ := exists_turn long
  rw [objend, same]
  simp [objend]

variable {opn clos : Char}

/-- `valend` counts one kind of bracket and takes the other kind for plain
text. -/
theorem crosses_pairEnd
    (pair : (opn = '{' ∧ clos = '}') ∨ (opn = '[' ∧ clos = ']'))
    (balanced : Bal text) (depth : Nat) (rest : Text) :
    Crosses (pairEnd opn clos (depth + 1)) (pairEnd opn clos (depth + 1)) text
      rest := by
  induction balanced generalizing depth rest with
  | nil => exact .nil rest
  | @plain c tail plain _ induction =>
      simp only [isPlain, Bool.and_eq_true, bne_iff_ne] at plain
      have first : Crosses (pairEnd opn clos (depth + 1))
          (pairEnd opn clos (depth + 1)) [c] (tail ++ rest) := by
        apply Crosses.turn
        intro left
        rcases pair with ⟨rfl, rfl⟩ | ⟨rfl, rfl⟩ <;> simp [pairEnd, plain]
      exact first.append (induction depth rest)
  | @str body tail ok _ induction =>
      have string := strend_body ok (tail ++ rest)
      have first : Crosses (pairEnd opn clos (depth + 1))
          (pairEnd opn clos (depth + 1)) (quote body) (tail ++ rest) :=
        .turn fun left => by simp [pairEnd, string]
      simpa [quote] using first.append (induction depth rest)
  | curly _ _ innerInduction induction =>
      rcases pair with ⟨rfl, rfl⟩ | ⟨rfl, rfl⟩
      · exact .bracket (fun _ _ => by simp [pairEnd])
          (fun _ _ => by simp [pairEnd]) (innerInduction (depth + 1) _)
          (induction depth rest)
      · exact .bracket (fun _ _ => by simp [pairEnd])
          (fun _ _ => by simp [pairEnd]) (innerInduction depth _)
          (induction depth rest)
  | square _ _ innerInduction induction =>
      rcases pair with ⟨rfl, rfl⟩ | ⟨rfl, rfl⟩
      · exact .bracket (fun _ _ => by simp [pairEnd])
          (fun _ _ => by simp [pairEnd]) (innerInduction depth _)
          (induction depth rest)
      · exact .bracket (fun _ _ => by simp [pairEnd])
          (fun _ _ => by simp [pairEnd]) (innerInduction (depth + 1) _)
          (induction depth rest)

theorem pairEnd_pair (pair : (opn = '{' ∧ clos = '}') ∨ (opn = '[' ∧ clos = ']'))
    {inner : Text} (balanced : Bal inner) (rest : Text) :
    pairEnd opn clos 0 (opn :: (inner ++ clos :: rest)).length
      (opn :: (inner ++ clos :: rest)) = rest := by
  rw [List.length_cons]
  obtain ⟨left, long, same⟩ := crosses_pairEnd pair balanced 0 (clos :: rest)
    (inner ++ clos :: rest).length (Nat.le_refl _)
  obtain ⟨left, rfl, _⟩ := exists_turn long
  rcases pair with ⟨rfl, rfl⟩ | ⟨rfl, rfl⟩
  · rw [pairEnd, same]
    simp [pairEnd]
  · rw [pairEnd, same]
    simp [pairEnd]

/-- A number or a word: `valend` counts the white space behind it as part of
it. -/
def isBare (value : Text) : Bool :=
  value.head? != some '"' && value.head? != some '{' && value.head? != some '['

/-- The white space that `valend` leaves behind a value. -/
def keptTrail (m : Member) : Text :=
  if isBare m.val then [] else m.trail

theorem endsBare_of_follows {rest : Text} (follows : Follows rest) :
    rest.dropWhile (fun d => !endsBare d) = rest := by
  rcases follows with rfl | ⟨c, tail, rfl, stop⟩
  · rfl
  · rcases stop with rfl | rfl | rfl <;> simp [endsBare]

theorem valend_member {m : Member} (shaped : m.Shaped) {rest : Text}
    (follows : Follows rest) :
    valend (m.fromValue ++ rest) = keptTrail m ++ rest := by
  have split : m.fromValue ++ rest = m.val ++ (m.trail ++ rest) := by
    simp [Member.fromValue]
  have start : skipws (m.val ++ (m.trail ++ rest)) =
      m.val ++ (m.trail ++ rest) := shaped.val.dropWhile_isWs _
  rw [split, valend, start, keptTrail]
  have shape := shaped.val
  have space := shaped.trail
  revert shape
  generalize m.val = value
  intro shape
  cases shape with
  | @str body ok =>
      have string := strend_body ok (m.trail ++ rest)
      simp [string, isBare]
  | @curly inner balanced =>
      have inside := pairEnd_pair (.inl ⟨rfl, rfl⟩) balanced (m.trail ++ rest)
      simpa [isBare] using inside
  | @square inner balanced =>
      have inside := pairEnd_pair (.inr ⟨rfl, rfl⟩) balanced (m.trail ++ rest)
      simpa [isBare] using inside
  | atom nonempty chars =>
      have bare : ∀ c ∈ value ++ m.trail, (!endsBare c) = true := by
        intro c member
        rcases List.mem_append.mp member with inValue | inTrail
        · have char := List.all_eq_true.mp chars c inValue
          simp only [isAtomChar, isPlain, Bool.and_eq_true, bne_iff_ne] at char
          simp [endsBare, char]
        · have white := List.all_eq_true.mp space c inTrail
          simp only [isWs, Bool.or_eq_true, beq_iff_eq] at white
          rcases white with ((rfl | rfl) | rfl) | rfl <;> decide
      have stops : (value ++ (m.trail ++ rest)).dropWhile
          (fun d => !endsBare d) = rest := by
        rw [← List.append_assoc, List.dropWhile_append_of_pos bare]
        exact endsBare_of_follows follows
      cases value with
      | nil => exact absurd rfl nonempty
      | cons c tail =>
          simp only [List.all_cons, isAtomChar, isPlain, Bool.and_eq_true,
            bne_iff_ne] at chars
          simp only [List.cons_append] at stops ⊢
          simp [chars.1.1.1.1, isBare, stops]

/-! ### `findkey` -/

section FindKey

variable {key : Text} {target : Int} {start stop : Text}

/-- The search comes out behind `text` at the same depth, with enough fuel for
the rest. -/
def Passes (key : Text) (target : Int) (start stop : Text) (depth : Int)
    (text rest : Text) : Prop :=
  ∀ fuel, (text ++ rest).length ≤ fuel →
    ∃ left, rest.length ≤ left ∧
      findkeyLoop key target start stop depth fuel (text ++ rest) =
        findkeyLoop key target start stop depth left rest

variable {depth : Int}

theorem Passes.append {left right rest : Text}
    (first : Passes key target start stop depth left (right ++ rest))
    (second : Passes key target start stop depth right rest) :
    Passes key target start stop depth (left ++ right) rest :=
  Crosses.append first second

theorem passes_nil (depth : Int) (rest : Text) :
    Passes key target start stop depth [] rest :=
  Crosses.nil rest

theorem passes_plain (depth : Int) (plain : text.all isPlain = true) (rest : Text) :
    Passes key target start stop depth text rest := by
  induction text with
  | nil => exact passes_nil depth rest
  | cons c text induction =>
      simp only [List.all_cons, Bool.and_eq_true] at plain
      have solid := plain.1
      simp only [isPlain, Bool.and_eq_true, bne_iff_ne] at solid
      have first : Passes key target start stop depth [c] (text ++ rest) :=
        Crosses.turn fun left => by simp [findkeyLoop, solid]
      exact first.append (induction plain.2)

/-- A string that is no hit. -/
theorem passes_string (depth : Int) {body : Text} (ok : Body false body)
    (rest : Text)
    (miss : ¬((quote body ++ rest).length ≤ start.length ∧
      stop.length ≤ (quote body ++ rest).length ∧ depth = target ∧
      (skipws rest).head? = some ':' ∧ body = key)) :
    Passes key target start stop depth (quote body) rest := by
  have text : quote body ++ rest = '"' :: (body ++ '"' :: rest) := by
    simp [quote]
  rw [text] at miss
  have skips : ∀ left, findkeyLoop key target start stop depth (left + 1)
      ('"' :: (body ++ '"' :: rest)) =
        findkeyLoop key target start stop depth left rest := by
    intro left
    rw [findkeyLoop, if_pos rfl, strend_body ok]
    simp only [if_neg miss]
  exact Crosses.turn fun left => by simpa using skips left

/-- Inside brackets the search is below its depth, or still before the range. -/
theorem quiet_inside {tail rest : Text}
    (quiet : start.length ≤ rest.length ∨ target < depth) :
    start.length ≤ (clos :: (tail ++ rest)).length ∨ target < depth + 1 := by
  rw [List.length_cons, List.length_append]
  omega

/-- Balanced text before the range or below the depth of the search. -/
theorem passes_bal (balanced : Bal text) (depth : Int) (rest : Text)
    (quiet : start.length ≤ rest.length ∨ target < depth) :
    Passes key target start stop depth text rest := by
  induction balanced generalizing depth rest with
  | nil => exact passes_nil depth rest
  | @plain c tail plain _ induction =>
      have first : Passes key target start stop depth [c] (tail ++ rest) :=
        passes_plain depth (by simpa using plain) _
      simpa using first.append (induction depth rest quiet)
  | @str body tail ok _ induction =>
      have miss : ¬((quote body ++ (tail ++ rest)).length ≤ start.length ∧
          stop.length ≤ (quote body ++ (tail ++ rest)).length ∧
          depth = target ∧ (skipws (tail ++ rest)).head? = some ':' ∧
          body = key) := by
        rintro ⟨inRange, _, same, _⟩
        rcases quiet with early | deep
        · simp [quote] at inRange
          omega
        · omega
      have first := passes_string depth ok (tail ++ rest) miss
      simpa [quote] using first.append (induction depth rest quiet)
  | curly _ _ innerInduction induction =>
      exact Crosses.bracket (fun _ _ => by simp [findkeyLoop])
        (fun _ _ => by simp [findkeyLoop])
        (innerInduction (depth + 1) _ (quiet_inside quiet))
        (induction depth rest quiet)
  | square _ _ innerInduction induction =>
      exact Crosses.bracket (fun _ _ => by simp [findkeyLoop])
        (fun _ _ => by simp [findkeyLoop])
        (innerInduction (depth + 1) _ (quiet_inside quiet))
        (induction depth rest quiet)

theorem passes_pair (pair : (opn = '{' ∧ clos = '}') ∨ (opn = '[' ∧ clos = ']'))
    {inner : Text} (balanced : Bal inner) (rest : Text) :
    Passes key target start stop target (opn :: inner ++ [clos]) rest := by
  have below : Passes key target start stop (target + 1) inner
      (clos :: ([] ++ rest)) := passes_bal balanced _ _ (.inr (by omega))
  rcases pair with ⟨rfl, rfl⟩ | ⟨rfl, rfl⟩
  · exact Crosses.bracket (fun _ _ => by simp [findkeyLoop])
      (fun _ _ => by simp [findkeyLoop]) below (.nil rest)
  · exact Crosses.bracket (fun _ _ => by simp [findkeyLoop])
      (fun _ _ => by simp [findkeyLoop]) below (.nil rest)

theorem follows_no_colon {trail rest : Text} (space : blank trail = true)
    (follows : Follows rest) : (skipws (trail ++ rest)).head? ≠ some ':' := by
  rw [skipws, dropWhile_isWs_blank _ space]
  rcases follows with rfl | ⟨c, tail, rfl, stops⟩
  · simp
  · rcases stops with rfl | rfl | rfl <;> simp [isWs]

theorem plain_of_blank (space : blank text = true) : text.all isPlain = true := by
  apply List.all_eq_true.mpr
  intro c member
  exact isPlain_of_isWs (List.all_eq_true.mp space c member)

section

variable {m : Member} (shaped : m.Shaped) {rest : Text} (follows : Follows rest)
include shaped follows

theorem passes_value :
    Passes key target start stop target m.fromValue rest := by
  have tail : Passes key target start stop target m.trail rest :=
    passes_plain target (plain_of_blank shaped.trail) rest
  refine Passes.append ?_ tail
  have shape := shaped.val
  revert shape
  generalize m.val = value
  intro shape
  cases shape with
  | @str body ok =>
      apply passes_string target ok
      rintro ⟨_, _, _, colon, _⟩
      exact follows_no_colon shaped.trail follows colon
  | curly balanced => exact passes_pair (.inl ⟨rfl, rfl⟩) balanced _
  | square balanced => exact passes_pair (.inr ⟨rfl, rfl⟩) balanced _
  | atom _ chars =>
      apply passes_plain
      apply List.all_eq_true.mpr
      intro c member
      have char := List.all_eq_true.mp chars c member
      simp only [isAtomChar, Bool.and_eq_true] at char
      exact char.1.1.1

theorem passes_member (other : m.key ≠ key) :
    Passes key target start stop target m.render rest := by
  have value : Passes key target start stop target m.fromValue rest :=
    passes_value shaped follows
  have colon : ((m.gap ++ ':' :: m.pad).all isPlain) = true := by
    have gap := plain_of_blank shaped.gap
    have pad := plain_of_blank shaped.pad
    simp only [List.all_append, List.all_cons, gap, pad]
    decide
  have between : Passes key target start stop target
      ((m.gap ++ ':' :: m.pad) ++ m.fromValue) rest :=
    (passes_plain target colon _).append value
  have name : Passes key target start stop target (quote m.key)
      (((m.gap ++ ':' :: m.pad) ++ m.fromValue) ++ rest) :=
    passes_string target (shaped.key) _
      fun hit => other hit.2.2.2.2
  have whole := (passes_plain target (plain_of_blank shaped.lead) _).append
    (name.append between)
  simpa [Member.render, Member.fromKey] using whole

/-- The member of the key in the range of the search. -/
theorem findkeyLoop_hit (named : m.key = key)
    (fromStart : (m.fromKey ++ rest).length ≤ start.length)
    (toStop : stop.length ≤ (m.fromKey ++ rest).length) {fuel : Nat}
    (enough : (m.render ++ rest).length ≤ fuel) :
    findkeyLoop key target start stop target fuel (m.render ++ rest) =
      some ⟨m.fromKey ++ rest, m.fromValue ++ rest,
        keptTrail m ++ rest⟩ := by
  have space : Passes key target start stop target m.lead (m.fromKey ++ rest) :=
    passes_plain target (plain_of_blank shaped.lead) _
  obtain ⟨left, long, same⟩ := space fuel (by simpa [Member.render] using enough)
  rw [Member.render, List.append_assoc, same]
  have solid : skipws (m.gap ++ ':' :: (m.pad ++ (m.fromValue ++ rest))) =
      ':' :: (m.pad ++ (m.fromValue ++ rest)) := by
    rw [skipws, dropWhile_isWs_blank _ shaped.gap]
    simp [isWs]
  have value : skipws (m.pad ++ (m.fromValue ++ rest)) = m.fromValue ++ rest := by
    rw [skipws, dropWhile_isWs_blank _ shaped.pad, Member.fromValue,
      List.append_assoc]
    exact shaped.val.dropWhile_isWs _
  rw [m.fromKey_append] at fromStart toStop long ⊢
  obtain ⟨left, rfl, _⟩ := exists_turn long
  have inRange : ('"' :: (m.key ++ '"' :: (m.gap ++ ':' :: (m.pad ++
      (m.fromValue ++ rest))))).length ≤ start.length ∧
      stop.length ≤ ('"' :: (m.key ++ '"' :: (m.gap ++ ':' :: (m.pad ++
        (m.fromValue ++ rest))))).length ∧ target = target ∧
      (skipws (m.gap ++ ':' :: (m.pad ++ (m.fromValue ++ rest)))).head? =
        some ':' ∧ m.key = key :=
    ⟨fromStart, toStop, rfl, by rw [solid]; rfl, named⟩
  rw [findkeyLoop, if_pos rfl, strend_body (shaped.key)]
  dsimp only
  rw [if_pos inRange]
  simp only [solid, List.tail_cons, value, valend_member shaped follows]

end

theorem strend_length {esc : Bool} {raw after : Text}
    (read : strend esc text = some (raw, after)) :
    after.length ≤ text.length := by
  induction text generalizing esc raw after with
  | nil => cases read
  | cons c text induction =>
      have tail : ∀ {other : Bool} {tail : Text × Text},
          (strend other text).map (fun found => (c :: found.1, found.2)) =
            some tail → tail.2.length ≤ (c :: text).length := by
        intro other tail mapped
        obtain ⟨⟨inner, behind⟩, inside, rfl⟩ := Option.map_eq_some_iff.mp mapped
        have shorter := induction inside
        simp only [List.length_cons]
        omega
      rw [strend] at read
      split at read
      · exact tail read
      · split at read
        · exact tail read
        · split at read
          · cases read
            simp
          · exact tail read

theorem findkeyLoop_behind {rest : Text} (behind : rest.length < stop.length)
    (depth : Int) (fuel : Nat) :
    findkeyLoop key target start stop depth fuel rest = none := by
  induction fuel generalizing depth rest with
  | zero => cases rest <;> rfl
  | succ fuel induction =>
      cases rest with
      | nil => rfl
      | cons c tail =>
          have shorter : tail.length < stop.length := by
            simp at behind
            omega
          rw [findkeyLoop]
          split
          · cases read : strend false tail with
            | none => rfl
            | some found =>
                obtain ⟨raw, after⟩ := found
                have less := strend_length read
                have miss : ¬((c :: tail).length ≤ start.length ∧
                    stop.length ≤ (c :: tail).length ∧ depth = target ∧
                    (skipws after).head? = some ':' ∧ raw = key) := by
                  rintro ⟨_, inRange, _⟩
                  omega
                simp only [if_neg miss]
                exact induction (by omega) depth
          · split
            · exact induction shorter _
            · split
              · exact induction shorter _
              · exact induction shorter _

/-- What the search finds behind an object. -/
def Done (stop rest : Text) : Prop :=
  rest.length < stop.length ∨ blank rest = true

theorem findkeyLoop_done {rest : Text} (done : Done stop rest) (depth : Int)
    (fuel : Nat) (enough : rest.length ≤ fuel) :
    findkeyLoop key target start stop depth fuel rest = none := by
  rcases done with behind | space
  · exact findkeyLoop_behind behind depth fuel
  · have passes : Passes key target start stop depth rest [] :=
      passes_plain depth (plain_of_blank space) []
    obtain ⟨left, _, same⟩ := passes fuel (by simpa using enough)
    rw [List.append_nil] at same
    rw [same]
    cases left <;> rfl

/-- The positions of the first member with a key. -/
def foundIn (key : Text) (members : List Member) (rest : Text) :
    Option Found :=
  (findMember key members).map fun (m, after) =>
    ⟨m.fromKey ++ closing after rest, m.fromValue ++ closing after rest,
      keptTrail m ++ closing after rest⟩

theorem findkeyLoop_closing {after : List Member} (shaped : ∀ m ∈ after, m.Shaped)
    {rest : Text} (fromStart : (closing after rest).length ≤ start.length)
    (toStop : stop.length ≤ ('}' :: rest).length) (done : Done stop rest)
    {fuel : Nat} (enough : (closing after rest).length ≤ fuel) :
    findkeyLoop key target start stop target fuel (closing after rest) =
      foundIn key after rest := by
  induction after generalizing fuel with
  | nil =>
      rw [closing_nil] at enough ⊢
      obtain ⟨fuel, rfl, _⟩ := exists_turn enough
      rw [findkeyLoop]
      simp [foundIn, findMember,
        findkeyLoop_done done (target - 1) fuel (by simpa using enough)]
  | cons m after induction =>
      have first : m.Shaped := shaped m (by simp)
      have lengths : (closing after rest).length ≤
          (m.fromKey ++ closing after rest).length := by
        simp
      rw [closing_cons] at fromStart enough ⊢
      obtain ⟨fuel, rfl, _⟩ := exists_turn enough
      have comma : findkeyLoop key target start stop target (fuel + 1)
          (',' :: (m.render ++ closing after rest)) =
          findkeyLoop key target start stop target fuel
            (m.render ++ closing after rest) := by
        rw [findkeyLoop]
        simp
      have inside : ('}' :: rest).length ≤ (closing after rest).length := by
        simp [closing]
      rw [comma]
      by_cases named : m.key = key
      · rw [findkeyLoop_hit first (follows_closing after rest) named
          (by simp [Member.render] at fromStart ⊢; omega) (by omega)
          (by simpa using enough)]
        simp [foundIn, findMember, named]
      · have passes : Passes key target start stop target m.render
            (closing after rest) :=
          passes_member first (follows_closing after rest) named
        obtain ⟨left, long, same⟩ := passes fuel (by simpa using enough)
        have tail := @induction (fun other member => shaped other (by simp [member]))
          (by simp at fromStart ⊢; omega) left long
        rw [same, tail]
        simp [foundIn, findMember, named]

theorem findkeyLoop_obj (shaped : o.Shaped) {rest : Text}
    (fromStart : (o.render ++ rest).length ≤ start.length)
    (toStop : stop.length ≤ ('}' :: rest).length) (done : Done stop rest)
    (below : depth + 1 = target) {fuel : Nat}
    (enough : (o.render ++ rest).length ≤ fuel) :
    findkeyLoop key target start stop depth fuel (o.render ++ rest) =
      foundIn key o.members rest := by
  rw [Obj.render_append] at fromStart enough ⊢
  obtain ⟨fuel, rfl, _⟩ := exists_turn enough
  have opened : findkeyLoop key target start stop depth (fuel + 1)
      ('{' :: (o.inner ++ '}' :: rest)) =
      findkeyLoop key target start stop target fuel
        (o.inner ++ '}' :: rest) := by
    rw [findkeyLoop, ← below]
    simp
  rw [opened]
  have enoughInner : (o.inner ++ '}' :: rest).length ≤ fuel := by
    simpa using enough
  obtain ⟨members, hollow⟩ := o
  cases members with
  | nil =>
      rw [Obj.inner_nil] at enoughInner ⊢
      have passes : Passes key target start stop target hollow
          (closing [] rest) := passes_plain target (plain_of_blank shaped.hollow) _
      obtain ⟨left, long, same⟩ := passes fuel enoughInner
      rw [same]
      refine findkeyLoop_closing (by simp) ?_ toStop done long
      simp [closing_nil] at fromStart ⊢
      omega
  | cons m after =>
      have first : m.Shaped := shaped.members m (by simp)
      have others : ∀ other ∈ after, other.Shaped := fun other member =>
        shaped.members other (by simp [member])
      have inside : ('}' :: rest).length ≤ (closing after rest).length := by
        simp [closing]
      rw [Obj.inner_cons] at enoughInner fromStart ⊢
      by_cases named : m.key = key
      · rw [findkeyLoop_hit first (follows_closing after rest) named
          (by simp [Member.render] at fromStart ⊢; omega)
          (by simp at inside toStop ⊢; omega) enoughInner]
        simp [foundIn, findMember, named]
      · have passes : Passes key target start stop target m.render
            (closing after rest) :=
          passes_member first (follows_closing after rest) named
        obtain ⟨left, long, same⟩ := passes fuel enoughInner
        rw [same, findkeyLoop_closing others
          (by simp at fromStart ⊢; omega) toStop done long]
        simp [foundIn, findMember, named]

/-- Text that leaves this many braces open. -/
inductive Opens : Nat → Text → Prop where
  | balanced {text : Text} : Bal text → Opens 0 text
  | deeper {depth : Nat} {outer inner : Text} : Opens depth outer → Bal inner →
      Opens (depth + 1) (outer ++ '{' :: inner)

/-- The search comes into an object that stands this deep in the file. -/
theorem findkeyLoop_opens {depth : Nat} {outer : Text}
    (opens : Opens depth outer) {rest : Text}
    (early : start.length ≤ rest.length) {fuel : Nat}
    (enough : (outer ++ rest).length ≤ fuel) :
    ∃ left, rest.length ≤ left ∧
      findkeyLoop key target start stop 0 fuel (outer ++ rest) =
        findkeyLoop key target start stop depth left rest := by
  induction opens generalizing rest fuel with
  | balanced balanced =>
      have passes : Passes key target start stop 0 _ rest :=
        passes_bal balanced 0 rest (.inl early)
      exact passes fuel enough
  | @deeper depth outer inner _ balanced induction =>
      rw [List.append_assoc, List.cons_append] at enough ⊢
      obtain ⟨between, long, same⟩ := @induction ('{' :: (inner ++ rest))
        (by simp; omega) fuel enough
      obtain ⟨between, rfl, _⟩ := exists_turn long
      have passes : Passes key target start stop (depth + 1) inner rest :=
        passes_bal balanced _ rest (.inl early)
      obtain ⟨left, longLeft, inside⟩ := passes between (by simpa using long)
      refine ⟨left, longLeft, ?_⟩
      rw [same, findkeyLoop]
      simpa using inside

end FindKey

/-- `findkey` in an object of the file, between its braces. -/
theorem findkey_obj {depth : Nat} {outer : Text} (opens : Opens depth outer)
    (shaped : o.Shaped) (rest key : Text) :
    findkey (outer ++ (o.render ++ rest)) key (depth + 1) (o.render ++ rest)
        ('}' :: rest) =
      foundIn key o.members rest := by
  obtain ⟨left, long, same⟩ := findkeyLoop_opens opens
    (Nat.le_refl (o.render ++ rest).length) (Nat.le_refl _)
  rw [findkey, same]
  exact findkeyLoop_obj shaped (Nat.le_refl _) (Nat.le_refl _)
    (.inl (by simp)) rfl long

/-- `findkey` among the members of the file's own object. -/
theorem findkey_top {pre : Text} (before : blank pre = true) (shaped : o.Shaped)
    {post : Text} (behind : blank post = true) (key : Text) :
    findkey (pre ++ (o.render ++ post)) key 1 (pre ++ (o.render ++ post)) [] =
      foundIn key o.members post := by
  have passes : Passes key 1 (pre ++ (o.render ++ post)) [] 0 pre
      (o.render ++ post) := passes_plain 0 (plain_of_blank before) _
  obtain ⟨left, long, same⟩ := passes _ (Nat.le_refl _)
  rw [findkey, same]
  apply findkeyLoop_obj shaped _ _ (.inr behind) (by decide) long
  · simp
  · simp

end Hnc.SafeWriter
