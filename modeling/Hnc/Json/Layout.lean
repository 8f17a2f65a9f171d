import Hnc.Json.GuardGrammar
import Hnc.Json.HncJsonEdit

/-!
# The layout of a file is unique

An object is rendered from its members in one way only, so what the grammar says
about a text holds for the members it was put together from.
-/

namespace Hnc

open Posix JsonText

variable {x y : Text}

theorem blank_front_unique {left right : Text} {c d : Char}
    (leftBlank : blank left = true) (rightBlank : blank right = true)
    (leftSolid : isWs c = false) (rightSolid : isWs d = false)
    (same : left ++ c :: x = right ++ d :: y) :
    left = right ∧ c :: x = d :: y := by
  have behind : c :: x = d :: y := by
    have dropped := congrArg (List.dropWhile isWs) same
    rw [dropWhile_isWs_blank _ leftBlank, dropWhile_isWs_blank _ rightBlank,
      dropWhile_isWs_cons _ leftSolid, dropWhile_isWs_cons _ rightSolid]
      at dropped
    exact dropped
  rw [behind] at same
  exact ⟨List.append_cancel_right same, behind⟩

theorem body_unique {left right : Text} (leftBody : Body false left)
    (rightBody : Body false right) (same : left ++ '"' :: x = right ++ '"' :: y) :
    left = right ∧ x = y := by
  have leftRead := HncJson.stringRest_body leftBody x
  have rightRead := HncJson.stringRest_body rightBody y
  rw [same, rightRead] at leftRead
  have behind : y = x := congrArg Prod.snd (Option.some.inj leftRead)
  rw [behind] at same
  exact ⟨List.append_cancel_right same, behind.symm⟩

theorem member_unique {left right : Member} (leftShaped : left.Shaped)
    (rightShaped : right.Shaped) (leftFollows : Follows x)
    (rightFollows : Follows y) (same : left.render ++ x = right.render ++ y) :
    left = right ∧ x = y := by
  have opened : ∀ (m : Member) (behind : Text), m.render ++ behind =
      m.lead ++ '"' :: (m.key ++ '"' :: (m.gap ++ ':' :: (m.pad ++
        (m.fromValue ++ behind)))) := by
    intro m behind
    rw [Member.render, List.append_assoc, m.fromKey_append]
  rw [opened, opened] at same
  obtain ⟨leads, same⟩ := blank_front_unique leftShaped.lead rightShaped.lead
    (by decide) (by decide) same
  obtain ⟨keys, same⟩ := body_unique leftShaped.key rightShaped.key
    (List.cons.inj same).2
  obtain ⟨gaps, same⟩ := blank_front_unique leftShaped.gap rightShaped.gap
    (by decide) (by decide) same
  have values := (List.cons.inj same).2
  have skipped := congrArg HncJson.skipWs values
  rw [HncJson.skipWs_fromValue leftShaped, HncJson.skipWs_fromValue rightShaped]
    at skipped
  have behind := congrArg (HncJson.topValueEnd false false 0) skipped
  rw [HncJson.topValueEnd_member leftShaped leftFollows,
    HncJson.topValueEnd_member rightShaped rightFollows] at behind
  rw [skipped] at values
  have pads := List.append_cancel_right values
  rw [behind] at skipped
  have fromValues := List.append_cancel_right skipped
  have vals : left.val = right.val := by
    rw [← leftShaped.trimWs_fromValue, fromValues, rightShaped.trimWs_fromValue]
  have trails : left.trail = right.trail := by
    rw [Member.fromValue, vals] at fromValues
    exact List.append_cancel_left fromValues
  refine ⟨?_, behind⟩
  obtain ⟨lead', key', gap', pad', val', trail'⟩ := right
  subst leads keys gaps pads vals trails
  rfl

theorem closing_unique {left right : List Member}
    (leftShaped : ∀ m ∈ left, m.Shaped) (rightShaped : ∀ m ∈ right, m.Shaped)
    (same : closing left x = closing right y) : left = right ∧ x = y := by
  induction left generalizing right with
  | nil =>
      cases right with
      | nil => exact ⟨rfl, (List.cons.inj same).2⟩
      | cons m right =>
          exact absurd (List.cons.inj same).1 (by decide)
  | cons m left induction =>
      cases right with
      | nil =>
          exact absurd (List.cons.inj same).1 (by decide)
      | cons m' right =>
          rw [closing_cons, closing_cons] at same
          obtain ⟨first, rest⟩ := member_unique (leftShaped m (by simp))
            (rightShaped m' (by simp)) (follows_closing left x)
            (follows_closing right y) (List.cons.inj same).2
          obtain ⟨others, behind⟩ := induction
            (fun other member => leftShaped other (by simp [member]))
            (fun other member => rightShaped other (by simp [member])) rest
          exact ⟨by rw [first, others], behind⟩

theorem obj_unique {left right : Obj} (leftShaped : left.Shaped)
    (rightShaped : right.Shaped) (same : left.render ++ x = right.render ++ y) :
    left.members = right.members ∧ x = y := by
  rw [Obj.render_append, Obj.render_append] at same
  have inside := (List.cons.inj same).2
  obtain ⟨leftMembers, leftHollow⟩ := left
  obtain ⟨rightMembers, rightHollow⟩ := right
  have opened : ∀ (m : Member) (behind : Text), m.render ++ behind =
      m.lead ++ '"' :: (m.key ++ '"' :: (m.gap ++ ':' :: (m.pad ++
        (m.fromValue ++ behind)))) := by
    intro m behind
    rw [Member.render, List.append_assoc, m.fromKey_append]
  cases leftMembers with
  | nil =>
      cases rightMembers with
      | nil =>
          obtain ⟨_, closings⟩ := blank_front_unique leftShaped.hollow
            rightShaped.hollow (by decide) (by decide) inside
          exact ⟨rfl, (List.cons.inj closings).2⟩
      | cons m right =>
          rw [Obj.inner_cons, opened] at inside
          obtain ⟨_, quoted⟩ := blank_front_unique leftShaped.hollow
            (rightShaped.members m (by simp)).lead (by decide) (by decide)
            inside
          exact absurd (List.cons.inj quoted).1 (by decide)
  | cons m left =>
      cases rightMembers with
      | nil =>
          rw [Obj.inner_cons, opened] at inside
          obtain ⟨_, quoted⟩ := blank_front_unique
            (leftShaped.members m (by simp)).lead rightShaped.hollow
            (by decide) (by decide) inside
          exact absurd (List.cons.inj quoted).1 (by decide)
      | cons m' right =>
          rw [Obj.inner_cons, Obj.inner_cons] at inside
          obtain ⟨first, rest⟩ := member_unique
            (leftShaped.members m (by simp)) (rightShaped.members m' (by simp))
            (follows_closing left x) (follows_closing right y) inside
          obtain ⟨others, behind⟩ := closing_unique
            (fun other member => leftShaped.members other (by simp [member]))
            (fun other member => rightShaped.members other (by simp [member]))
            rest
          exact ⟨by rw [first, others], behind⟩

theorem means_of_derives {o : Obj} (shaped : o.Shaped) {tree : Json}
    (derives : Derives .value o.render tree) :
    ∃ entries, tree = .object entries ∧
      List.Forall₂ Member.Means o.members entries := by
  obtain ⟨other, entries, text, isObject, space, means⟩ :=
    derives.object_inv (by simp [Obj.render])
  have otherShaped : other.Shaped := by
    refine ⟨?_, space⟩
    intro m member
    obtain ⟨entry, _, meant⟩ := exists_meaning means member
    exact meant.shaped
  have texts : o.render ++ [] = other.render ++ [] := by rw [text]
  rw [(obj_unique shaped otherShaped texts).1]
  exact ⟨entries, isObject, means⟩

theorem wf_of_means {o : Obj} {entries : List (Text × Json)}
    (space : blank o.hollow = true)
    (means : List.Forall₂ Member.Means o.members entries)
    (plain : ∀ m ∈ o.members, '\\' ∉ m.key) : o.Wf := by
  refine ⟨?_, space⟩
  intro m member
  obtain ⟨entry, _, meant⟩ := exists_meaning means member
  exact ⟨meant.spaced.lead, plainKey_of_chars meant.key (plain m member),
    meant.spaced.gap, meant.spaced.pad, meant.value.val, meant.spaced.trail⟩

theorem derives_of_denotes {before value after : Text} {tree : Json}
    (val : Val value) (beforeBlank : blank before = true)
    (afterBlank : blank after = true)
    (denotes : Denotes (before ++ (value ++ after)) tree) :
    Derives .value value tree := by
  obtain ⟨before', middle, after', split, beforeBlank', derives,
    afterBlank'⟩ := denotes
  have trimmed := congrArg trimWs split
  rw [trimWs, dropWhile_isWs_blank _ beforeBlank, trimWs,
    dropWhile_isWs_blank _ beforeBlank'] at trimmed
  have left := val.trimWs_append afterBlank
  have right := derives.val.trimWs_append afterBlank'
  rw [trimWs] at left right
  rw [left, right] at trimmed
  rw [trimmed]
  exact derives

end Hnc
