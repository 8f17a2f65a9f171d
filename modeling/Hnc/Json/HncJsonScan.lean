import Hnc.Json.HncJson
import Hnc.Lib.JsonNames

/-!
# The scanners of `hnc_json` on laid out text

What each cursor function returns on a text that is put together from members
and objects: the string scanners stop behind the closing quote, the bracket
scanners pass over balanced text, and the key searches find the first member
with the key.
-/

namespace Hnc.HncJson

open Posix JsonText

theorem stringRest_body {esc : Bool} {body : Text} (ok : Body esc body)
    (rest : Text) :
    stringRest esc (body ++ '"' :: rest) = some (readName esc body, rest) := by
  induction ok with
  | done => simp [stringRest, readName]
  | slash _ induction => simp [stringRest, readName, induction]
  | escaped c _ induction => simp [stringRest, readName, induction]
  | plain slash quoteFree _ induction =>
      simp [stringRest, readName, slash, quoteFree, induction]

variable {m : Member}

theorem parseString_key (shaped : m.Shaped) (rest : Text) :
    parseString ('"' :: (m.key ++ '"' :: rest)) = some (m.name, rest) := by
  rw [Member.name, ← stringRest_body shaped.key rest]
  rfl

theorem bracketEnd_scanner : Scanner bracketEnd fun depth _ => 0 < depth where
  quote _ _ := by simp [bracketEnd]
  string _ _ _ _ := by simp [bracketEnd]
  plain _ plain _ := by
    simp only [isPlain, Bool.and_eq_true, bne_iff_ne] at plain
    simp [bracketEnd, plain]
  bracket := by
    rintro (_ | depth) _ _ inside (⟨⟨⟩⟩ | ⟨⟨⟩⟩)
    · cases inside
    · cases inside
    · exact ⟨depth + 2, by simp, by simp [bracketEnd]⟩
    · exact ⟨depth + 2, by simp, by simp [bracketEnd]⟩

variable {rest : Text}

theorem valueEnd_val {value : Text} (shape : Val value)
    (ends : rest = [] ∨ ∃ c tail, rest = c :: tail ∧ endsScalar c = true) :
    valueEnd (value ++ rest) = rest := by
  have start : skipWs (value ++ rest) = value ++ rest :=
    shape.dropWhile_isWs rest
  unfold valueEnd
  rw [start]
  cases shape with
  | @str body ok =>
      have found := stringRest_body ok rest
      simp [parseString, found]
  | @curly inner balanced =>
      have inside := bracketEnd_scanner.bal balanced (fun _ => Nat.one_pos)
        ('}' :: rest)
      simp [bracketEnd, inside]
  | @square inner balanced =>
      have inside := bracketEnd_scanner.bal balanced (fun _ => Nat.one_pos)
        (']' :: rest)
      simp [bracketEnd, inside]
  | atom nonempty chars =>
      have bare : ∀ c ∈ value, (!endsScalar c) = true := by
        simp only [List.all_eq_true, isAtomChar, isPlain, Bool.and_eq_true,
          bne_iff_ne] at chars
        intro c member
        have char := chars c member
        simp [endsScalar, char]
      have stops : (value ++ rest).dropWhile (fun d => !endsScalar d) =
          rest := by
        rw [List.dropWhile_append_of_pos bare]
        rcases ends with rfl | ⟨c, tail, rfl, stop⟩
        · rfl
        · simp [stop]
      cases value with
      | nil => exact absurd rfl nonempty
      | cons c tail =>
          simp only [List.all_cons, isAtomChar, isPlain, Bool.and_eq_true,
            bne_iff_ne] at chars
          simp only [List.cons_append] at stops ⊢
          simp [chars.1.1.1.1, stops]

theorem endsScalar_of_isWs {c : Char} (space : isWs c = true) :
    endsScalar c = true := by
  simp [endsScalar, space]

variable {trail : Text}

/-- White space and what follows a value both end a bare word. -/
theorem endsScalar_trail (space : blank trail = true) (follows : Follows rest) :
    trail ++ rest = [] ∨
      ∃ c tail, trail ++ rest = c :: tail ∧ endsScalar c = true := by
  cases trail with
  | nil =>
      rcases follows with rfl | ⟨c, tail, rfl, stop⟩
      · exact .inl rfl
      · refine .inr ⟨c, tail, rfl, ?_⟩
        rcases stop with rfl | rfl | rfl <;> decide
  | cons c trail =>
      simp only [blank, List.all_cons, Bool.and_eq_true] at space
      exact .inr ⟨c, trail ++ rest, rfl, endsScalar_of_isWs space.1⟩

theorem valueEnd_member (wf : m.Shaped) (follows : Follows rest) :
    valueEnd (m.fromValue ++ rest) = m.trail ++ rest := by
  have ends := endsScalar_trail wf.trail follows
  simpa [Member.fromValue] using valueEnd_val wf.val ends

theorem skipWs_fromValue (wf : m.Shaped) (rest : Text) :
    skipWs (m.pad ++ (m.fromValue ++ rest)) = m.fromValue ++ rest := by
  rw [skipWs, dropWhile_isWs_blank _ wf.pad]
  simpa [Member.fromValue] using wf.val.dropWhile_isWs (m.trail ++ rest)

theorem skipWs_fromKey (wf : m.Shaped) (rest : Text) :
    skipWs (m.render ++ rest) = m.fromKey ++ rest := by
  have quoted : (m.fromKey ++ rest).dropWhile isWs = m.fromKey ++ rest := by
    simp [Member.fromKey, quote, isWs]
  rw [skipWs, Member.render, List.append_assoc, dropWhile_isWs_blank _ wf.lead,
    quoted]

theorem skipWs_colon (wf : m.Shaped) (rest : Text) :
    skipWs (m.gap ++ ':' :: rest) = ':' :: rest := by
  rw [skipWs, dropWhile_isWs_blank _ wf.gap]
  simp [isWs]

/-- The positions of a member of an object. -/
def foundAt (m : Member) (after : List Member) (rest : Text) : Found :=
  ⟨m.fromKey ++ closing after rest, m.fromValue ++ closing after rest,
    m.trail ++ closing after rest⟩

/-! ### `find_key` -/

theorem findKeyLoop_member (shaped : m.Shaped) {oe target behind : Text}
    {fuel : Nat} (longer : oe.length < (m.render ++ behind).length)
    (follows : Follows behind) :
    findKeyLoop oe target (fuel + 1) (m.render ++ behind) =
      if m.name = target then
        some ⟨m.fromKey ++ behind, m.fromValue ++ behind, m.trail ++ behind⟩
      else findKeyLoop oe target fuel (m.trail ++ behind) := by
  rw [findKeyLoop, if_pos longer, skipWs_fromKey shaped, m.fromKey_append]
  simp only [show ('"' : Char) ≠ ',' by decide, if_false,
    parseString_key shaped, skipWs_colon shaped, if_true,
    skipWs_fromValue shaped, valueEnd_member shaped follows]

theorem skipWs_closing_nil (space : blank trail = true) (rest : Text) :
    skipWs (trail ++ closing [] rest) = '}' :: rest := by
  rw [skipWs, dropWhile_isWs_blank _ space, closing_nil]
  simp [isWs]

theorem skipWs_closing_cons (space : blank trail = true) (m : Member)
    (after : List Member) (rest : Text) :
    skipWs (trail ++ closing (m :: after) rest) =
      ',' :: (m.render ++ closing after rest) := by
  rw [skipWs, dropWhile_isWs_blank _ space, closing_cons]
  simp [isWs]

theorem findKeyLoop_members (rest target : Text) :
    MemberLoop (findKeyLoop rest target) target rest none
      (fun m after => some (foundAt m after rest)) Member.trail where
  ends fuel trail space := by
    rw [findKeyLoop, skipWs_closing_nil space]
    simp [parseString]
  comma fuel trail space m after := by
    have longer : rest.length < (trail ++ closing (m :: after) rest).length := by
      simp [closing]
      omega
    rw [findKeyLoop, if_pos longer, skipWs_closing_cons space]
    simp
  member fuel m shaped after := by
    have longer : rest.length < (m.render ++ closing after rest).length := by
      simp [closing]
      omega
    rw [findKeyLoop_member shaped longer (follows_closing after rest)]
    rfl
  keeps shaped := ⟨shaped.trail, Nat.le_refl _⟩

variable {o : Obj}

/-- `find_key` finds the first member that is read under the name. -/
theorem findKey_shaped (shaped : o.Shaped) (rest target : Text) :
    findKey (o.render ++ rest) rest target =
      (findNamed target o.members).map fun (m, after) =>
        foundAt m after rest := by
  have loop := findKeyLoop_members rest target
  obtain ⟨members, hollow⟩ := o
  rw [Obj.render_append, findKey, List.tail_cons]
  cases members with
  | nil =>
      have solid : skipWs ((Obj.mk [] hollow).inner ++ '}' :: rest) =
          [] ++ closing [] rest := by
        rw [skipWs, Obj.inner, dropWhile_isWs_blank _ shaped.hollow]
        simp [isWs, closing_nil]
      rw [solid]
      refine loop.closing (by simp) rfl ?_
      simp [closing_nil]
      omega
  | cons m after =>
      have first : m.Shaped := shaped.members m (by simp)
      have bare : ({ m with lead := [] } : Member).Shaped :=
        ⟨rfl, first.key, first.gap, first.pad, first.val, first.trail⟩
      have others : ∀ other ∈ after, other.Shaped := fun other member =>
        shaped.members other (by simp [member])
      have search := @MemberLoop.render _ _ _ _ _ _ _ loop { m with lead := [] }
        after (List.forall_mem_cons.mpr ⟨bare, others⟩)
        ('{' :: (m.render ++ closing after rest)).length
        (by simp [Member.render, Member.fromKey, Member.fromValue]; omega)
        (loop.closing others first.trail)
      rw [Obj.inner_cons, skipWs_fromKey first]
      refine search.trans ?_
      simp only [findNamed]
      split <;> rename_i same
      · rw [if_pos (show m.name = target from same)]
        rfl
      · rw [if_neg (show m.name ≠ target from same)]
        cases findNamed target after <;> rfl

theorem findKey_laid (laid : o.Laid) (rest target : Text) :
    findKey (o.render ++ rest) rest target =
      (findMember (escapeName target) o.members).map fun (m, after) =>
        foundAt m after rest := by
  rw [findKey_shaped laid.shaped, findNamed_laid laid.members]

theorem findKey_obj (wf : o.Wf) (rest target : Text) :
    findKey (o.render ++ rest) rest target =
      (findMember target o.members).map fun (m, after) =>
        foundAt m after rest := by
  rw [findKey_shaped wf.shaped, findNamed_wf wf.members]

theorem topValueEnd_scanner : Scanner (fun dep ins e => topValueEnd ins e dep)
    fun dep c => 0 < dep ∨ c ≠ ',' where
  quote _ _ := by simp [topValueEnd]
  string _ _ _ _ := by simp [topValueEnd]
  plain passed plain _ := by
    simp only [isPlain, Bool.and_eq_true, bne_iff_ne] at plain
    rcases passed with deep | other
    · simp [topValueEnd, plain, Nat.ne_of_gt deep]
    · simp [topValueEnd, plain, other]
  bracket {dep} := by
    rintro _ _ _ (⟨⟨⟩⟩ | ⟨⟨⟩⟩)
    · exact ⟨dep + 1, by simp, by simp [topValueEnd]⟩
    · exact ⟨dep + 1, by simp, by simp [topValueEnd]⟩

theorem topValueEnd_follows (follows : Follows rest) :
    topValueEnd false false 0 rest = rest := by
  rcases follows with rfl | ⟨c, tail, rfl, stop⟩
  · rfl
  · rcases stop with rfl | rfl | rfl <;> simp [topValueEnd]

theorem topValueEnd_member (wf : m.Shaped) (follows : Follows rest) :
    topValueEnd false false 0 (m.fromValue ++ rest) = rest := by
  have value := topValueEnd_scanner.val wf.val 0 (fun _ => .inr) (m.trail ++ rest)
  have trail := topValueEnd_scanner.blank wf.trail 0 (fun _ => .inr) rest
  rw [Member.fromValue, List.append_assoc]
  exact value.trans (trail.trans (topValueEnd_follows follows))

theorem lastClose_scanner : Scanner lastClose fun depth _ => 0 < depth where
  quote _ _ := by simp [lastClose]
  string _ _ _ _ := by simp [lastClose]
  plain _ plain _ := by
    simp only [isPlain, Bool.and_eq_true, bne_iff_ne] at plain
    simp [lastClose, plain]
  bracket {depth} := by
    rintro _ _ inside (⟨⟨⟩⟩ | ⟨⟨⟩⟩)
    · exact ⟨depth + 1, by simp, by simp [lastClose, Nat.ne_of_gt inside]⟩
    · exact ⟨depth, fun _ => inside, by simp [lastClose]⟩

theorem lastClose_obj (shaped : o.Shaped) (rest : Text) :
    lastClose 0 false false (o.render ++ rest) = some ('}' :: rest) := by
  have inside := lastClose_scanner.bal shaped.bal_inner (fun _ => Nat.one_pos)
    ('}' :: rest)
  rw [Obj.render_append]
  simp [lastClose, inside]

/-- What a search for a top-level member comes to. -/
def topAnswer (key : Text) (members : List Member) : Except Nat Text :=
  match findMember key members with
  | none => .error 3
  | some (m, _) => .ok (m.val ++ ['\n'])

theorem getTopLoop_member (shaped : m.Shaped) {key behind : Text} {fuel : Nat}
    (follows : Follows behind) :
    getTopLoop key (fuel + 1) (m.render ++ behind) =
      if m.name = key then .ok (m.val ++ ['\n'])
      else getTopLoop key fuel behind := by
  have nonempty : m.render ++ behind ≠ [] := by
    simp [Member.render, Member.fromKey]
  rw [getTopLoop, if_neg nonempty, skipWs_fromKey shaped, m.fromKey_append]
  simp only [show ('"' : Char) ≠ '}' by decide,
    show ('"' : Char) ≠ ',' by decide, if_false, parseString_key shaped,
    skipWs_colon shaped, if_true, skipWs_fromValue shaped,
    topValueEnd_member shaped follows, upTo_append, shaped.trimWs_fromValue]

theorem getTopLoop_members (rest key : Text) :
    MemberLoop (getTopLoop key) key rest (.error 3)
      (fun m _ => .ok (m.val ++ ['\n'])) fun _ => [] where
  ends fuel trail space := by
    rw [getTopLoop, skipWs_closing_nil space]
    simp
  comma fuel trail space m after := by
    have nonempty : trail ++ closing (m :: after) rest ≠ [] := by
      simp [closing_cons]
    rw [getTopLoop, if_neg nonempty, skipWs_closing_cons space]
    simp
  member fuel m shaped after :=
    getTopLoop_member shaped (follows_closing after rest)
  keeps _ := ⟨rfl, Nat.zero_le _⟩

theorem getTopLoop_obj (shaped : o.Shaped) (rest key : Text) :
    getTopLoop key (o.inner ++ '}' :: rest).length (o.inner ++ '}' :: rest) =
      topAnswer (o.keyOf key) o.members := by
  rw [(getTopLoop_members rest key).object shaped (Nat.le_refl _), topAnswer,
    Obj.findMember_keyOf]
  cases findNamed key o.members <;> rfl

/-- `get_top` prints the value of the first member that is read under the
name. -/
theorem getTopInner_shaped (shaped : o.Shaped) {pre : Text}
    (space : blank pre = true) {content post : Text}
    (text : slurp content = pre ++ (o.render ++ post)) (key : Text) :
    getTopInner key content = topAnswer (o.keyOf key) o.members := by
  have start : skipWs (slurp content) = '{' :: (o.inner ++ '}' :: post) := by
    rw [skipWs, text, dropWhile_isWs_blank _ space, Obj.render_append]
    simp [isWs]
  rw [getTopInner, start]
  simpa using getTopLoop_obj shaped post key

theorem topAnswer_keyOf (wf : o.Wf) (key : Text) :
    topAnswer (o.keyOf key) o.members = topAnswer key o.members := by
  rw [topAnswer, topAnswer, Obj.findMember_keyOf, findNamed_wf wf.members]

/-- `get_top` on a laid out file prints the value of the first member with the
key. -/
theorem getTopInner_obj (wf : o.Wf) {pre : Text} (space : blank pre = true)
    {content post : Text} (text : slurp content = pre ++ (o.render ++ post))
    (key : Text) : getTopInner key content = topAnswer key o.members := by
  rw [getTopInner_shaped wf.shaped space text, topAnswer_keyOf wf]

end Hnc.HncJson
