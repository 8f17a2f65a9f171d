import Hnc.Lib.ByteText
import Hnc.Lib.JsonPlace

/-!
# JSON in bytes

A program that prints an object byte by byte prints the encoding of a JSON text
when each of its members is the encoding of a member.
-/

namespace JsonText

open Posix

def Member.bytes (m : Member) : Member :=
  ⟨encode m.lead, encode m.key, encode m.gap, encode m.pad, encode m.val,
    encode m.trail⟩

/-- The bytes of a member with this meaning. -/
def Reads (m : Member) (entry : Text × Json) : Prop :=
  ∃ source : Member, source.bytes = m ∧ source.Means entry

theorem encode_ascii_cons {c : Char} (ascii : c.toNat < 128) (text : Text) :
    encode (c :: text) = c :: encode text := by
  rw [encode_cons, encode_ascii (by simpa using ascii)]
  rfl

theorem encode_quote (body : Text) : encode (quote body) = quote (encode body) := by
  rw [quote, List.cons_append, encode_ascii_cons (by decide), encode_append]
  rfl

theorem Member.render_bytes (m : Member) : m.bytes.render = encode m.render := by
  have colon : encode (':' :: m.pad) = ':' :: encode m.pad :=
    encode_ascii_cons (by decide) _
  simp only [Member.render, Member.fromKey, encode_append, encode_quote, colon]
  simp only [Member.bytes, Member.fromValue, encode_append]

theorem more_bytes (members : List Member) :
    more (members.map Member.bytes) = encode (more members) := by
  rw [more, more, encode_flatMap, List.flatMap_map]
  congr 1
  funext m
  rw [encode_ascii_cons (by decide), m.render_bytes]

theorem Obj.render_bytes (members : List Member) :
    (Obj.mk (members.map Member.bytes) []).render =
      encode (Obj.mk members []).render := by
  have braces : ∀ inner : Text, encode ('\x7b' :: inner ++ ['\x7d']) =
      '\x7b' :: encode inner ++ ['\x7d'] := by
    intro inner
    rw [List.cons_append, encode_ascii_cons (by decide), encode_append]
    rfl
  rw [Obj.render, Obj.render, braces]
  cases members with
  | nil => rfl
  | cons m members =>
      simp only [Obj.inner, List.map_cons, encode_append, m.render_bytes,
        more_bytes]

theorem reads_members {members : List Member} {entries : List (Text × Json)}
    (reads : List.Forall₂ Reads members entries) :
    ∃ sources : List Member, sources.map Member.bytes = members ∧
      List.Forall₂ Member.Means sources entries := by
  induction reads with
  | nil => exact ⟨[], rfl, .nil⟩
  | cons first _ induction =>
      obtain ⟨source, same, meant⟩ := first
      obtain ⟨sources, others, means⟩ := induction
      exact ⟨source :: sources, by rw [List.map_cons, same, others],
        .cons meant means⟩

/-- The printed object is the encoding of an object. -/
theorem reads_object {members : List Member} {entries : List (Text × Json)}
    (reads : List.Forall₂ Reads members entries) :
    ∃ text, encode text = (Obj.mk members []).render ∧
      Derives .value text (.object entries) := by
  obtain ⟨sources, rfl, means⟩ := reads_members reads
  exact ⟨(Obj.mk sources []).render, (Obj.render_bytes sources).symm,
    derives_object rfl means⟩

theorem reads_bare {key val name text : Text} {value : Json}
    (keyBytes : encode name = key) (chars : Chars name)
    (valBytes : encode text = val) (derives : Derives .value text value) :
    Reads (bare key val) (name, value) :=
  ⟨bare name text, by rw [← keyBytes, ← valBytes]; rfl,
    ⟨rfl, rfl, rfl, rfl⟩, chars, rfl, derives⟩

theorem reads_string {key raw : Text} (ascii : ∀ c ∈ key, c.toNat < 128)
    (free : escapeFree key = true) (chars : Chars raw) {body : Text}
    (bytes : encode raw = body) :
    Reads (bare key (quote body)) (key, .string raw) := by
  apply reads_bare (encode_ascii ascii) (chars_of_escapeFree free)
  · rw [encode_quote, bytes]
  · exact .string chars

theorem reads_number {key value : Text} (ascii : ∀ c ∈ key, c.toNat < 128)
    (free : escapeFree key = true) (number : Number value)
    (digits : ∀ c ∈ value, c.toNat < 128) :
    Reads (bare key value) (key, .number value) :=
  reads_bare (encode_ascii ascii) (chars_of_escapeFree free)
    (encode_ascii digits) (.number number)

end JsonText
