import Hnc.Lib.JsonText

/-!
# Names as a simple reader takes them

A reader that undoes escapes one character at a time takes the character behind
a backslash for itself.  Different texts may be read as one name, and a search
for a name comes to the first of them.
-/

namespace JsonText

open Posix

/-- The name that is read from the characters between two quotes. -/
def readName (esc : Bool) : Text → Text
  | [] => []
  | c :: rest =>
      if esc then c :: readName false rest
      else if c = '\\' then readName true rest
      else c :: readName false rest

def Member.name (m : Member) : Text :=
  readName false m.key

/-- The first member that is read under a name, and the members behind it. -/
def findNamed (target : Text) : List Member → Option (Member × List Member)
  | [] => none
  | m :: after =>
      if m.name = target then some (m, after) else findNamed target after

variable {m : Member}

theorem findNamed_of_split {target : Text} {before : List Member}
    (others : ∀ other ∈ before, other.name ≠ target) (named : m.name = target)
    (after : List Member) :
    findNamed target (before ++ m :: after) = some (m, after) := by
  induction before with
  | nil => simp [findNamed, named]
  | cons first before induction =>
      rw [List.cons_append, findNamed, if_neg (others first (by simp))]
      exact induction fun other member => others other (by simp [member])

/-- The key under which a name stands, or would be written. -/
def keyAmong (target : Text) (members : List Member) : Text :=
  match findNamed target members with
  | some (m, _) => m.key
  | none => escapeName target

def Obj.keyOf (o : Obj) (target : Text) : Text :=
  keyAmong target o.members

theorem readName_escapeName (name : Text) :
    readName false (escapeName name) = name := by
  induction name with
  | nil => rfl
  | cons c name induction =>
      rw [escapeName_cons]
      split
      · rename_i slash
        simp [readName, slash, induction]
      · rename_i notSlash
        split
        · rename_i isQuote
          simp [readName, isQuote, induction]
        · simp [readName, notSlash, induction]

/-- What is read decides what was written. -/
theorem escapeName_inj {left right : Text} :
    escapeName left = escapeName right ↔ left = right := by
  constructor
  · intro same
    rw [← readName_escapeName left, same, readName_escapeName]
  · exact congrArg escapeName

theorem Member.Laid.name_eq_iff (laid : m.Laid) (target : Text) :
    m.name = target ↔ m.key = escapeName target := by
  obtain ⟨name, written⟩ := laid.name
  rw [Member.name, written, readName_escapeName, escapeName_inj]

/-- Among keys that are escaped only where they have to be, a name has one
spelling. -/
theorem findNamed_laid {members : List Member}
    (laid : ∀ m ∈ members, m.Laid) (target : Text) :
    findNamed target members = findMember (escapeName target) members := by
  induction members with
  | nil => rfl
  | cons m members induction =>
      have later := induction fun other member => laid other (by simp [member])
      have here := (laid m (by simp)).name_eq_iff target
      rw [findNamed, findMember, later]
      simp only [here]

theorem findNamed_wf {members : List Member} (wf : ∀ m ∈ members, m.Wf)
    (target : Text) : findNamed target members = findMember target members := by
  rw [findNamed_laid (fun m member => (wf m member).laid) target,
    findMember_escapeName wf]

theorem findNamed_split {target : Text} {members after : List Member}
    (hit : findNamed target members = some (m, after)) :
    m.name = target ∧ ∃ before, members = before ++ m :: after ∧
      ∀ other ∈ before, other.name ≠ target := by
  induction members with
  | nil => cases hit
  | cons first members induction =>
      rw [findNamed] at hit
      split at hit
      · rename_i here
        cases hit
        exact ⟨here, [], rfl, by simp⟩
      · rename_i other
        obtain ⟨named, before, split, others⟩ := induction hit
        refine ⟨named, first :: before, by rw [split]; rfl, ?_⟩
        intro earlier member
        rcases List.mem_cons.mp member with rfl | later
        · exact other
        · exact others earlier later

theorem findNamed_eq_none {target : Text} {members : List Member} :
    findNamed target members = none ↔ ∀ m ∈ members, m.name ≠ target := by
  induction members with
  | nil => simp [findNamed]
  | cons m members induction =>
      rw [findNamed]
      by_cases same : m.name = target
      · simp [same]
      · simp [same, induction]

theorem readName_keyAmong (target : Text) (members : List Member) :
    readName false (keyAmong target members) = target := by
  rw [keyAmong]
  cases hit : findNamed target members with
  | none => exact readName_escapeName target
  | some found => exact (findNamed_split hit).1

theorem findMember_keyAmong (target : Text) (members : List Member) :
    findMember (keyAmong target members) members = findNamed target members := by
  cases hit : findNamed target members with
  | none =>
      rw [findMember_eq_none]
      intro m member same
      apply findNamed_eq_none.mp hit m member
      rw [Member.name, same]
      exact readName_keyAmong target members
  | some found =>
      obtain ⟨m, after⟩ := found
      obtain ⟨_, before, split, others⟩ := findNamed_split hit
      have key : keyAmong target members = m.key := by
        rw [keyAmong, hit]
      rw [key, split]
      apply findMember_split _ rfl
      intro other member same
      apply others other member
      rw [Member.name, same, ← key]
      exact readName_keyAmong target members

theorem Obj.findMember_keyOf (o : Obj) (target : Text) :
    findMember (o.keyOf target) o.members = findNamed target o.members :=
  findMember_keyAmong target o.members

theorem Obj.readName_keyOf (o : Obj) (target : Text) :
    readName false (o.keyOf target) = target :=
  readName_keyAmong target o.members

variable {o : Obj}

theorem Obj.keyOf_of_none {target : Text}
    (hit : findMember (o.keyOf target) o.members = none) :
    o.keyOf target = escapeName target := by
  rw [Obj.findMember_keyOf] at hit
  rw [Obj.keyOf, keyAmong, hit]

/-- Among plain keys a plain name stands under itself. -/
theorem Obj.Wf.keyOf (wf : o.Wf) {target : Text} (plain : plainKey target = true) :
    o.keyOf target = target := by
  rw [Obj.keyOf, keyAmong, findNamed_wf wf.members]
  cases hit : findMember target o.members with
  | none => exact escapeName_plain plain
  | some found => exact (findMember_mem hit).1

theorem Obj.Shaped.body_keyOf (shaped : o.Shaped) (target : Text) :
    Body false (o.keyOf target) := by
  rw [Obj.keyOf, keyAmong]
  cases hit : findNamed target o.members with
  | none => exact body_escapeName target
  | some found =>
      obtain ⟨_, before, split, _⟩ := findNamed_split hit
      exact (shaped.members found.1 (by simp [split])).key

/-- A loop over the members of an object, with a number of turns.  It ends at the
closing brace, passes a comma in a turn of its own, and stops at a member that is
read under the name; `kept` is what it leaves of another one. -/
structure MemberLoop {Result : Type} (loop : Nat → Text → Result)
    (target rest : Text) (absent : Result) (found : Member → List Member → Result)
    (kept : Member → Text) : Prop where
  ends : ∀ fuel {trail}, blank trail = true →
    loop (fuel + 1) (trail ++ closing [] rest) = absent
  comma : ∀ fuel {trail}, blank trail = true → ∀ m after,
    loop (fuel + 1) (trail ++ closing (m :: after) rest) =
      loop fuel (m.render ++ closing after rest)
  member : ∀ fuel {m : Member}, m.Shaped → ∀ after,
    loop (fuel + 1) (m.render ++ closing after rest) =
      if m.name = target then found m after
      else loop fuel (kept m ++ closing after rest)
  keeps : ∀ {m : Member}, m.Shaped →
    blank (kept m) = true ∧ (kept m).length ≤ m.trail.length

namespace MemberLoop

variable {Result : Type} {loop : Nat → Text → Result} {target rest : Text}
  {absent : Result} {found : Member → List Member → Result}
  {kept : Member → Text}
  (members : MemberLoop loop target rest absent found kept)
include members

theorem render {m : Member} {after : List Member}
    (shaped : ∀ other ∈ m :: after, other.Shaped) {fuel : Nat}
    (enough : (m.render ++ closing after rest).length ≤ fuel)
    (behind : ∀ {fuel}, (kept m ++ closing after rest).length ≤ fuel →
      loop fuel (kept m ++ closing after rest) =
        ((findNamed target after).elim absent fun hit => found hit.1 hit.2)) :
    loop fuel (m.render ++ closing after rest) =
      (findNamed target (m :: after)).elim absent fun hit => found hit.1 hit.2 := by
  have first : m.Shaped := shaped m List.mem_cons_self
  have short := (members.keeps first).2
  have lengths : (kept m ++ closing after rest).length + 1 ≤ fuel := by
    simp [Member.render, Member.fromKey, Member.fromValue, quote] at enough ⊢
    omega
  obtain ⟨fuel, rfl⟩ := Nat.exists_eq_add_of_le' (Nat.le_of_add_left_le lengths)
  rw [members.member fuel first, findNamed]
  by_cases same : m.name = target
  · rw [if_pos same, if_pos same]
    rfl
  · rw [if_neg same, if_neg same]
    exact behind (Nat.le_of_succ_le_succ lengths)

theorem closing {after : List Member} (shaped : ∀ m ∈ after, m.Shaped)
    {trail : Text} (space : blank trail = true) {fuel : Nat}
    (enough : (trail ++ JsonText.closing after rest).length ≤ fuel) :
    loop fuel (trail ++ JsonText.closing after rest) =
      (findNamed target after).elim absent fun hit => found hit.1 hit.2 := by
  induction after generalizing trail fuel with
  | nil =>
      rw [closing_nil, List.length_append, List.length_cons] at enough
      obtain ⟨fuel, rfl⟩ := Nat.exists_eq_add_of_le' (show 1 ≤ fuel by omega)
      exact members.ends fuel space
  | cons m after induction =>
      rw [closing_cons, List.length_append, List.length_cons] at enough
      obtain ⟨fuel, rfl⟩ := Nat.exists_eq_add_of_le' (show 1 ≤ fuel by omega)
      rw [members.comma fuel space]
      refine members.render shaped (by omega) ?_
      exact induction (fun other member =>
        shaped other (List.mem_cons_of_mem m member))
        (members.keeps (shaped m List.mem_cons_self)).1

theorem object {o : Obj} (shaped : o.Shaped) {fuel : Nat}
    (enough : (o.inner ++ '}' :: rest).length ≤ fuel) :
    loop fuel (o.inner ++ '}' :: rest) =
      (findNamed target o.members).elim absent fun hit => found hit.1 hit.2 := by
  obtain ⟨list, hollow⟩ := o
  cases list with
  | nil =>
      rw [Obj.inner_nil] at enough ⊢
      exact members.closing (by simp) shaped.hollow enough
  | cons m after =>
      rw [Obj.inner_cons] at enough ⊢
      refine members.render shaped.members enough ?_
      exact members.closing (fun other member =>
        shaped.members other (List.mem_cons_of_mem m member))
        (members.keeps (shaped.members m List.mem_cons_self)).1

end MemberLoop
end JsonText
