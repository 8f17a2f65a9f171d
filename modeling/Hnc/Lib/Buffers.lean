import Hnc.Lib.BigEndian

/-!
# Buffers with checked accesses

A buffer is the list of its bytes.  Every access of a function to a buffer is
checked: one that leaves the buffer stops the function with `outside`, which no
function of C can do by itself.  `failed` is the error result of a function.
-/

namespace Buffers

open BigEndian

/-- Why a function has no result. -/
inductive Stop where
  | failed
  | outside
deriving DecidableEq, Repr

def load (buf : List UInt8) (i : Nat) : Except Stop UInt8 :=
  match buf[i]? with
  | some b => .ok b
  | none => .error .outside

/-- `(buf[i] << 8) | buf[i+1]`. -/
def load16 (buf : List UInt8) (i : Nat) : Except Stop Nat := do
  let hi ← load buf i
  let lo ← load buf (i + 1)
  pure (hi.toNat <<< 8 ||| lo.toNat)

def store (buf : List UInt8) (i : Nat) (b : UInt8) :
    Except Stop (List UInt8) :=
  if i < buf.length then .ok (buf.set i b) else .error .outside

/-- `memcpy(dst + i, src + j, size)`. -/
def copy (dst : List UInt8) (i : Nat) (src : List UInt8) (j size : Nat) :
    Except Stop (List UInt8) :=
  if i + size ≤ dst.length ∧ j + size ≤ src.length then
    .ok (dst.take i ++ (window src j size ++ dst.drop (i + size)))
  else .error .outside

/-- The C string in a buffer. -/
def cString (buf : List UInt8) : Except Stop (List UInt8) :=
  if 0 ∈ buf then .ok (buf.takeWhile (· ≠ 0)) else .error .outside

/-- What `buf` holds once `written` was put at its start. -/
def overlay (written buf : List UInt8) : List UInt8 :=
  written ++ buf.drop written.length

variable {written buf : List UInt8}

theorem overlay_length (fits : written.length ≤ buf.length) :
    (overlay written buf).length = buf.length := by
  rw [overlay, List.length_append, List.length_drop]
  omega

variable {i : Nat}

theorem load_eq {b : UInt8} (there : buf[i]? = some b) : load buf i = .ok b := by
  rw [load, there]

theorem load_inside (inside : i < buf.length) :
    ∃ b, buf[i]? = some b ∧ load buf i = .ok b := by
  have there := List.getElem?_eq_getElem inside
  exact ⟨buf[i], there, load_eq there⟩

theorem shiftLeft_or (hi lo : UInt8) :
    hi.toNat <<< 8 ||| lo.toNat = hi.toNat * 256 + lo.toNat := by
  rw [← Nat.shiftLeft_add_eq_or_of_lt (i := 8) lo.toNat_lt, Nat.shiftLeft_eq]

theorem window_two {hi lo : UInt8} (first : buf[i]? = some hi)
    (second : buf[i + 1]? = some lo) : window buf i 2 = [hi, lo] := by
  obtain ⟨inside, rfl⟩ := List.getElem?_eq_some_iff.mp first
  obtain ⟨inside', rfl⟩ := List.getElem?_eq_some_iff.mp second
  rw [window, List.drop_eq_getElem_cons inside,
    List.drop_eq_getElem_cons inside']
  rfl

theorem load16_eq (inside : i + 2 ≤ buf.length) :
    load16 buf i = .ok (uint16 buf i) := by
  have here : i < buf.length := by omega
  have next : i + 1 < buf.length := by omega
  obtain ⟨hi, first, loadHi⟩ := load_inside here
  obtain ⟨lo, second, loadLo⟩ := load_inside next
  have number : uint16 buf i = hi.toNat * 256 + lo.toNat := by
    rw [uint16, window_two first second]
    simp only [value, List.foldl_cons, List.foldl_nil]
    omega
  simp only [load16, loadHi, loadLo, bind, Except.bind, pure, Except.pure,
    number, shiftLeft_or]

/-- The next byte of what is being written. -/
theorem store_overlay (b : UInt8) (end_ : i = written.length)
    (room : i < buf.length) :
    store (overlay written buf) i b = .ok (overlay (written ++ [b]) buf) := by
  subst end_
  have length := overlay_length (Nat.le_of_lt room)
  rw [store, if_pos (by omega), overlay,
    List.set_append_right _ _ (Nat.le_refl _), Nat.sub_self,
    List.drop_eq_getElem_cons room, overlay, List.append_assoc,
    List.length_append]
  rfl

theorem copy_overlay {src : List UInt8} {j size : Nat} (end_ : i = written.length)
    (room : i + size ≤ buf.length) (inside : j + size ≤ src.length) :
    copy (overlay written buf) i src j size =
      .ok (overlay (written ++ window src j size) buf) := by
  subst end_
  have length : (overlay written buf).length = buf.length :=
    overlay_length (by omega)
  have copied : (window src j size).length = size := by
    rw [window, List.length_take, List.length_drop]
    omega
  have past : written.drop (written.length + size) = [] :=
    List.drop_of_length_le (by omega)
  rw [copy, if_pos ⟨by omega, inside⟩, overlay, List.take_left,
    List.drop_append, List.drop_drop, overlay, List.length_append, copied,
    List.append_assoc, Nat.add_sub_cancel_left, past, List.nil_append]

/-- A field that is written in a buffer in three parts. -/
theorem copy_split {front old behind field : List UInt8} {off : Nat}
    (here : front.length = off) (size : old.length = field.length) :
    copy (front ++ (old ++ behind)) off field 0 field.length =
      .ok (front ++ (field ++ behind)) := by
  have inside : off + field.length ≤ (front ++ (old ++ behind)).length := by
    simp only [List.length_append]
    omega
  have past : (front ++ (old ++ behind)).drop (off + field.length) = behind := by
    rw [← List.append_assoc]
    exact List.drop_left' (by simp only [List.length_append]; omega)
  rw [copy, if_pos ⟨inside, by omega⟩, past, List.take_left' here,
    window, List.drop_zero, List.take_length]

/-- A copy leaves the buffer or keeps its length. -/
theorem copy_cases (dst : List UInt8) (i : Nat) (src : List UInt8) (j size : Nat) :
    copy dst i src j size = .error .outside ∨
      ∃ written, copy dst i src j size = .ok written ∧
        written.length = dst.length := by
  rw [copy]
  by_cases inside : i + size ≤ dst.length ∧ j + size ≤ src.length
  · rw [if_pos inside]
    refine Or.inr ⟨_, rfl, ?_⟩
    simp only [window, List.length_append, List.length_take, List.length_drop]
    omega
  · exact Or.inl (if_neg inside)

theorem takeWhile_nul (text rest : List UInt8) :
    (text ++ 0 :: rest).takeWhile (· ≠ 0) = text.takeWhile (· ≠ 0) := by
  induction text with
  | nil => rfl
  | cons b text induction =>
      rw [List.cons_append, List.takeWhile_cons, List.takeWhile_cons,
        induction]

theorem cString_overlay (text buf : List UInt8) :
    cString (overlay (text ++ [0]) buf) =
      .ok (text.takeWhile (· ≠ 0)) := by
  have whole : overlay (text ++ [0]) buf =
      text ++ 0 :: buf.drop (text ++ [0]).length := by
    rw [overlay, List.append_assoc, List.singleton_append]
  have nul : (0 : UInt8) ∈ text ++ 0 :: buf.drop (text ++ [0]).length :=
    List.mem_append_right _ List.mem_cons_self
  rw [whole, cString, if_pos nul, takeWhile_nul]

end Buffers
