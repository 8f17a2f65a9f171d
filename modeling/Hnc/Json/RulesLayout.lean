import Hnc.Json.FlatStore

/-!
# The layout of a valid `rules.json`

A valid file whose `devices` is an object of objects is a frame around the
devices, and every device is an object with distinct names.
-/

namespace Hnc

open Posix JsonText

/-- Distinct names without escapes. -/
structure PlainNames (entries : List (Text × Json)) : Prop where
  distinct : (entries.map Prod.fst).Nodup
  plain : ∀ name ∈ entries.map Prod.fst, '\\' ∉ name

/-- An object with the member `devices`, which is an object of objects. -/
structure RulesTree (entries devices : List (Text × Json)) : Prop where
  names : PlainNames entries
  listed : ("devices".toList, Json.object devices) ∈ entries
  macs : PlainNames devices
  objects : ∀ entry ∈ devices,
    ∃ fields, entry.2 = .object fields ∧ PlainNames fields

namespace PlainNames

variable {o : Obj} {entries : List (Text × Json)}

theorem wf (names : PlainNames entries) (space : blank o.hollow = true)
    (means : List.Forall₂ Member.Means o.members entries) : o.Wf := by
  apply wf_of_means space means
  intro m member
  apply names.plain
  rw [map_name_of_means means]
  exact List.mem_map_of_mem member

theorem nodup (names : PlainNames entries)
    (means : List.Forall₂ Member.Means o.members entries) :
    (o.members.map Member.key).Nodup :=
  map_name_of_means means ▸ names.distinct

theorem keyed (names : PlainNames entries) (space : blank o.hollow = true)
    (means : List.Forall₂ Member.Means o.members entries) : o.Keyed :=
  ⟨(names.wf space means).laid, names.nodup means⟩

end PlainNames

/-- A file laid out as a frame around its devices, with what its members
mean. -/
structure RulesLayout (file : Text) (f : Frame) (d : Obj)
    (before after devices : List (Text × Json)) : Prop where
  text : chomp (slurp file) = f.body d
  before : List.Forall₂ Member.Means f.before before
  after : List.Forall₂ Member.Means f.after after
  hollow : blank d.hollow = true
  devices : List.Forall₂ Member.Means d.members devices

theorem render_split_hollow (left : List Member) (m : Member)
    (right : List Member) (hollow other : Text) :
    (Obj.mk (left ++ m :: right) hollow).render =
      (Obj.mk (left ++ m :: right) other).render := by
  cases left with
  | nil => rfl
  | cons first rest => rfl

/-- Every valid rules file is laid out. -/
theorem exists_rulesLayout {file : Text} {entries devices : List (Text × Json)}
    (denotes : Denotes file (.object entries))
    (tree : RulesTree entries devices) :
    ∃ f d before after, RulesLayout file f d before after devices ∧
      entries = before ++ ("devices".toList, .object devices) :: after := by
  obtain ⟨pre, middle, post, split, preBlank, derives, postBlank⟩ := denotes
  obtain ⟨root, text, space, means⟩ := derives.object_members
  have wf : root.Wf := tree.names.wf space means
  have flat : Flat file root :=
    ⟨⟨pre, post, by rw [split, text], preBlank, postBlank⟩, ⟨_, means⟩, space,
      fun m member => tree.names.plain m.key (by
        rw [map_name_of_means means]
        exact List.mem_map_of_mem member), tree.names.nodup means⟩
  obtain ⟨front, back, read, frontBlank, backBlank⟩ := flat.chomp_slurp
  obtain ⟨before, after, rfl⟩ := List.append_of_mem tree.listed
  obtain ⟨left, m, right, members, leftMeans, meant, rightMeans⟩ :=
    split_members means
  obtain ⟨d, value, hollow, inside⟩ := meant.value.object_members
  have distinct := flat.distinct
  have mWf : m.Wf := wf.members m (by simp [members])
  have others : ∀ other ∈ left, other.key ≠ "devices".toList := by
    intro other member same
    have name : m.key = "devices".toList := meant.name.symm
    rw [members, List.map_append, List.nodup_append] at distinct
    exact distinct.2.2 other.key (List.mem_map_of_mem member) m.key
      List.mem_cons_self (same.trans name.symm)
  let f : Frame :=
    { pre := front, before := left, lead := m.lead, gap := m.gap, pad := m.pad,
      trail := m.trail, after := right, post := back, blank_pre := frontBlank,
      wf_before := fun other member => wf.members other (by simp [members, member]),
      others := others, blank_lead := mWf.lead, blank_gap := mWf.gap,
      blank_pad := mWf.pad, blank_trail := mWf.trail,
      wf_after := fun other member => wf.members other (by simp [members, member]),
      blank_post := backBlank }
  have field : f.field d = m := by
    have name : "devices".toList = m.key := meant.name
    rw [Frame.field, ← value, name]
  refine ⟨f, d, before, after, ⟨?_, leftMeans, rightMeans, hollow, inside⟩, rfl⟩
  obtain ⟨rootMembers, rootHollow⟩ := root
  simp only at members
  rw [read, Frame.body, Frame.root, field, members,
    render_split_hollow left m right rootHollow []]

namespace RulesLayout

variable {file : Text} {f : Frame} {d : Obj}
  {entries before after devices : List (Text × Json)}

section

variable (layout : RulesLayout file f d before after devices)
  (tree : RulesTree entries devices)
include layout tree

theorem wf : d.Wf :=
  tree.macs.wf layout.hollow layout.devices

theorem device {m : Member} (member : m ∈ d.members) :
    ∃ (o : Obj) (fields : List (Text × Json)), m.val = o.render ∧
      (m.key, Json.object fields) ∈ devices ∧ PlainNames fields ∧
      blank o.hollow = true ∧ List.Forall₂ Member.Means o.members fields := by
  obtain ⟨⟨name, value⟩, listed, meant⟩ := exists_meaning layout.devices member
  obtain ⟨fields, isObject, names⟩ := tree.objects _ listed
  have derives := meant.value
  simp only at isObject
  rw [isObject] at derives listed
  obtain ⟨o, text, hollow, inside⟩ := derives.object_members
  have named : name = m.key := meant.name
  exact ⟨o, fields, text, named ▸ listed, names, hollow, inside⟩

theorem nested : d.Nested := by
  refine ⟨tree.macs.keyed layout.hollow layout.devices, ?_⟩
  intro m member
  obtain ⟨o, fields, text, _, names, hollow, inside⟩ :=
    layout.device tree member
  exact ⟨o, text, names.keyed hollow inside⟩

end

end RulesLayout

end Hnc
