import Hnc.Json.Layout
import Hnc.Json.Literals
import Hnc.Lib.Runs

/-!
# The flat object store of `hnc_json`

`set-top` (or `set-object-key`), `del-object-key` and `get-top` on a file with
one object treat it as a finite map from names to the texts of values, as long
as every literal is the text of one value.  The check of a number lets a value
of several lines pass when one of them is a number, so that more than a value
can get into the file.
-/

namespace Hnc

open Posix JsonText

theorem captured_split (text : Text) :
    ∃ n, text = captured text ++ List.replicate n '\n' := by
  have split := List.takeWhile_append_dropWhile (p := (· == '\n'))
    (l := text.reverse)
  have newlines : ∀ c ∈ text.reverse.takeWhile (· == '\n'), c = '\n' :=
    fun c member => by simpa using List.mem_takeWhile_imp member
  refine ⟨(text.reverse.takeWhile (· == '\n')).length, ?_⟩
  have all := List.eq_replicate_of_mem newlines
  have turned := congrArg List.reverse split
  rw [List.reverse_append, List.reverse_reverse, all, List.reverse_replicate]
    at turned
  exact turned.symm

variable {value : Text}

theorem isNumeral_captured (oneLine : '\n' ∉ captured value)
    (numeral : hasNumeralLine value = true) :
    isNumeral (captured value) = true := by
  obtain ⟨n, split⟩ := captured_split value
  have lines : ∀ n, records (List.replicate n '\n') =
      List.replicate n [] := by
    intro n
    induction n with
    | zero => rfl
    | succ n induction =>
        rw [List.replicate_succ, records, if_pos rfl, induction,
          List.replicate_succ]
  have behind : value ++ ['\n'] =
      captured value ++ '\n' :: List.replicate n '\n' := by
    conv_lhs => rw [split]
    rw [List.append_assoc, ← List.replicate_succ', List.replicate_succ]
  rw [hasNumeralLine, behind, records_append_newline oneLine, lines,
    List.any_cons, Bool.or_eq_true] at numeral
  rcases numeral with here | later
  · exact here
  · obtain ⟨line, member, isNumber⟩ := List.any_eq_true.mp later
    rw [List.eq_of_mem_replicate member] at isNumber
    exact absurd isNumber (by decide)

theorem denotes_captured {tree : Json} :
    Denotes value tree ↔ Denotes (captured value) tree := by
  obtain ⟨n, split⟩ := captured_split value
  have space : blank (List.replicate n '\n') = true := by
    simp [blank, isWs]
  conv_lhs => rw [split]
  exact denotes_append_blank space

theorem derives_of_trimmed {text : Text} {tree : Json}
    (denotes : Denotes text tree) (trimmed : trimWs text = text) :
    Derives .value text tree := by
  obtain ⟨before, middle, after, split, beforeBlank, derives, afterBlank⟩ :=
    denotes
  have same : trimWs text = middle := by
    rw [split, trimWs, dropWhile_isWs_blank _ beforeBlank]
    exact derives.val.trimWs_append afterBlank
  rw [← trimmed, same]
  exact derives

variable {lit : Text} {typ : LiteralType}

namespace HncJson

/-- A number that is accepted stands on one line, and a JSON value that is
accepted has no white space around it. -/
def Clean (value : Text) : LiteralType → Prop
  | .num => hasNumeralLine value = true → '\n' ∉ captured value
  | .json => Guard.jsonGuard (value ++ ['\n']) = true →
      trimWs (captured value) = captured value
  | _ => True

/-- A clean literal has the shape of one value. -/
theorem val_jsonLiteral (clean : Clean value typ)
    (literal : jsonLiteral value typ = some lit) : Val lit := by
  cases typ with
  | str =>
      cases literal
      exact .str (body_quoteString value)
  | num =>
      rw [jsonLiteral] at literal
      split at literal
      · rename_i numeral
        cases literal
        have whole := isNumeral_captured (clean numeral) numeral
        have chars := numeralChars_of_isNumeral whole
        refine .atom (ne_nil_of_isNumeral whole) ?_
        rw [List.all_eq_true] at chars ⊢
        exact fun c member =>
          isAtomChar_of_class (chars c member) (by decide)
      · cases literal
  | bool =>
      rw [jsonLiteral] at literal
      split at literal
      · rename_i word
        cases literal
        rcases word with rfl | rfl
        · exact .atom (by decide) (by decide)
        · exact .atom (by decide) (by decide)
      · cases literal
  | null =>
      rw [jsonLiteral] at literal
      split at literal
      · rename_i word
        cases literal
        rw [word]
        exact .atom (by decide) (by decide)
      · cases literal
  | json =>
      rw [jsonLiteral] at literal
      split at literal
      · rename_i valid
        cases literal
        obtain ⟨tree, denotes⟩ := (Guard.jsonGuard_iff _).mp valid
        rw [denotes_append_newline, denotes_captured] at denotes
        exact (derives_of_trimmed denotes (clean valid)).val
      · cases literal

end HncJson

/-- A valid file with one object, whose names are distinct and free of
escapes. -/
structure Flat (file : Text) (o : Obj) : Prop where
  text : ∃ before after, file = before ++ (o.render ++ after) ∧
    blank before = true ∧ blank after = true
  means : ∃ entries, List.Forall₂ Member.Means o.members entries
  hollow : blank o.hollow = true
  plain : ∀ m ∈ o.members, '\\' ∉ m.key
  distinct : (o.members.map Member.key).Nodup

/-- A valid object file is laid out in one way. -/
theorem exists_flat {file : Text} {entries : List (Text × Json)}
    (denotes : Denotes file (.object entries))
    (distinct : (entries.map Prod.fst).Nodup)
    (plain : ∀ name ∈ entries.map Prod.fst, '\\' ∉ name) :
    ∃ o, Flat file o := by
  obtain ⟨before, middle, after, split, beforeBlank, derives, afterBlank⟩ :=
    denotes
  obtain ⟨o, text, space, means⟩ := derives.object_members
  have names := map_name_of_means means
  refine ⟨o, ⟨⟨before, after, by rw [split, text], beforeBlank, afterBlank⟩,
    ⟨_, means⟩, space, ?_, names ▸ distinct⟩⟩
  intro m member
  apply plain
  rw [names]
  exact List.mem_map_of_mem member

variable {before after : Text}

/-- What `awk` reads of a file, with or without the last newline. -/
theorem slurp_obj {file : Text} {o : Obj}
    (split : file = before ++ (o.render ++ after))
    (beforeBlank : blank before = true) (afterBlank : blank after = true) :
    ∃ before after, slurp file = before ++ (o.render ++ after) ∧
      blank before = true ∧ blank after = true := by
  rw [slurp_eq]
  split
  · exact ⟨before, after, split, beforeBlank, afterBlank⟩
  · refine ⟨before, after ++ ['\n'], by simp [split], beforeBlank, ?_⟩
    exact blank_append.mpr ⟨afterBlank, by decide⟩

theorem chomp_obj (o : Obj) (beforeBlank : blank before = true)
    (afterBlank : blank after = true) :
    ∃ before' after', chomp (before ++ (o.render ++ after)) =
      before' ++ (o.render ++ after') ∧ blank before' = true ∧
      blank after' = true := by
  rcases List.eq_nil_or_concat after with rfl | ⟨init, c, rfl⟩
  · refine ⟨before, [], ?_, beforeBlank, rfl⟩
    have last : (before ++ (o.render ++ [])).getLast? = some '}' := by
      rw [List.append_nil, Obj.render, ← List.append_assoc]
      exact List.getLast?_concat
    rw [chomp, last, if_neg (by decide)]
  · rw [List.concat_eq_append] at afterBlank ⊢
    by_cases newline : c = '\n'
    · refine ⟨before, init, ?_, beforeBlank, (blank_append.mp afterBlank).1⟩
      rw [newline, ← List.append_assoc, ← List.append_assoc, chomp_line,
        List.append_assoc]
    · refine ⟨before, init ++ [c], ?_, beforeBlank, afterBlank⟩
      rw [chomp]
      simp [newline]

namespace Flat

variable {file : Text} {o : Obj}

theorem wf (flat : Flat file o) : o.Wf := by
  obtain ⟨entries, means⟩ := flat.means
  exact wf_of_means flat.hollow means flat.plain

theorem valid (flat : Flat file o) : Guard.jsonGuard file = true := by
  obtain ⟨before, after, split, beforeBlank, afterBlank⟩ := flat.text
  obtain ⟨entries, means⟩ := flat.means
  rw [Guard.jsonGuard_iff]
  exact ⟨_, before, o.render, after, split, beforeBlank,
    derives_object flat.hollow means, afterBlank⟩

theorem slurp (flat : Flat file o) : ∃ before after,
    Posix.slurp file = before ++ (o.render ++ after) ∧ blank before = true ∧
      blank after = true := by
  obtain ⟨before, after, split, beforeBlank, afterBlank⟩ := flat.text
  exact slurp_obj split beforeBlank afterBlank

theorem chomp_slurp (flat : Flat file o) : ∃ before after,
    chomp (Posix.slurp file) = before ++ (o.render ++ after) ∧
      blank before = true ∧ blank after = true := by
  obtain ⟨before, after, split, beforeBlank, afterBlank⟩ := flat.slurp
  rw [split]
  exact chomp_obj o beforeBlank afterBlank

theorem means_of_valid (shaped : o.Shaped) (beforeBlank : blank before = true)
    (afterBlank : blank after = true)
    (valid : Guard.jsonGuard (before ++ (o.render ++ after)) = true) :
    ∃ entries, List.Forall₂ Member.Means o.members entries := by
  obtain ⟨tree, denotes⟩ := (Guard.jsonGuard_iff _).mp valid
  obtain ⟨entries, _, means⟩ := means_of_derives shaped
    (derives_of_denotes shaped.val_render beforeBlank afterBlank denotes)
  exact ⟨entries, means⟩

theorem getTop (flat : Flat file o) {key : Text}
    (plain : assign key = key) :
    HncJson.getTop file key = HncJson.topAnswer key o.members := by
  obtain ⟨before, after, split, beforeBlank, _⟩ := flat.slurp
  rw [HncJson.getTop, if_pos flat.valid, plain]
  exact HncJson.getTopInner_obj flat.wf beforeBlank split key

end Flat

/-! ### Commands -/

/-- A write command: `set-top` and `set-object-key`, or `del-object-key`. -/
inductive Change where
  | set (key value : Text) (typ : LiteralType)
  | del (key : Text)

/-- A name that needs no escapes. -/
structure PlainName (name : Text) : Prop where
  nonempty : name ≠ []
  free : escapeFree name = true

theorem PlainName.plainKey {name : Text} (ok : PlainName name) :
    plainKey name = true :=
  plainKey_of_escapeFree ok.free

theorem PlainName.assign {name : Text} (ok : PlainName name) :
    assign name = name :=
  assign_of_escapeFree ok.free

variable {next : Text}

namespace Change

def key : Change → Text
  | set key _ _ | del key => key

/-- The new content, when the command exits with 0. -/
def run (file : Text) : Change → Option Text
  | set key value typ => HncJson.setTop file key value typ
  | del key => HncJson.delObjectKey file key

/-- The content after the command. -/
def step (file : Text) (change : Change) : Text :=
  (change.run file).getD file

/-- A plain key, and no backslash in a raw JSON value. -/
def Allowed : Change → Prop
  | set key value typ => PlainName key ∧ (typ = .json → '\\' ∉ value)
  | del key => PlainName key

def Clean : Change → Prop
  | set _ value typ => HncJson.Clean value typ
  | del _ => True

/-- What `get-top` says about the key of a command that succeeded. -/
def Answered (next : Text) : Change → Prop
  | set key value typ => ∃ lit, HncJson.jsonLiteral value typ = some lit ∧
      HncJson.getTop next key = .ok (lit ++ ['\n'])
  | del key => HncJson.getTop next key = .error 3

/-- A command that succeeds leaves a valid object with distinct names, where
its key has the answer it should have and every other member its value; one
that fails leaves the file as it is. -/
def Behaves (file : Text) (change : Change) : Prop :=
  (change.run file = none → change.step file = file) ∧
  ∀ next, change.run file = some next → change.step file = next ∧
    change.Answered next ∧
    ∃ o o', Flat file o ∧ Flat next o' ∧
      ∀ other, other ≠ change.key → o'.get other = o.get other

theorem Answered.of_literal {key : Text}
    (answered : (set key value typ).Answered next)
    (literal : HncJson.jsonLiteral value typ = some lit) :
    HncJson.getTop next key = .ok (lit ++ ['\n']) := by
  obtain ⟨written, same, answer⟩ := answered
  rw [literal] at same
  rw [Option.some.inj same]
  exact answer

end Change

namespace Flat

variable {file : Text} {o : Obj}

/-- An accepted file with an object of these names in it. -/
theorem of_valid (wf : o.Wf) (distinct : (o.members.map Member.key).Nodup)
    (beforeBlank : blank before = true) (afterBlank : blank after = true)
    (valid : Guard.jsonGuard (before ++ (o.render ++ after)) = true) :
    Flat (before ++ (o.render ++ after)) o where
  text := ⟨before, after, rfl, beforeBlank, afterBlank⟩
  means := means_of_valid wf.shaped beforeBlank afterBlank valid
  hollow := wf.hollow
  plain m member slash := by
    have chars := (wf.members m member).key
    simp only [plainKey, List.all_eq_true] at chars
    exact absurd (chars _ slash) (by decide)
  distinct := distinct

theorem assign_literal (json : typ = .json → '\\' ∉ value)
    (literal : HncJson.jsonLiteral value typ = some lit) :
    assign (if typ = .json then lit else doubleBackslash lit) = lit := by
  by_cases isJson : typ = .json
  · subst isJson
    rw [HncJson.jsonLiteral] at literal
    split at literal
    · cases literal
      apply assign_of_no_backslash
      intro member
      obtain ⟨n, split⟩ := captured_split value
      apply json rfl
      rw [split]
      exact List.mem_append_left _ member
    · cases literal
  · rw [if_neg isJson, assign_doubleBackslash]

theorem setTop (flat : Flat file o) {key : Text} (name : PlainName key)
    (json : typ = .json → '\\' ∉ value) (clean : HncJson.Clean value typ)
    (committed : HncJson.setTop file key value typ = some next) :
    ∃ lit, HncJson.jsonLiteral value typ = some lit ∧
      Flat next (HncJson.topSet o key lit) := by
  rw [HncJson.setTop, if_neg name.nonempty] at committed
  split at committed
  · cases committed
  · rename_i lit literal
    refine ⟨lit, literal, ?_⟩
    have shape := HncJson.val_jsonLiteral clean literal
    obtain ⟨before, after, split, beforeBlank, afterBlank⟩ := flat.slurp
    simp only [name.assign, assign_literal json literal] at committed
    have written := HncJson.commit_some committed
    have valid := HncJson.commit_valid committed
    rw [HncJson.setTopInner_obj flat.wf beforeBlank split name.plainKey lit,
      List.append_assoc, List.append_assoc] at written
    cases written
    apply of_valid (HncJson.wf_topSet flat.wf name.plainKey shape) ?_
      beforeBlank ?_ valid
    · rw [HncJson.map_key_topSet]
      exact Obj.nodup_setBack flat.distinct key lit
    · exact blank_append.mpr ⟨afterBlank, by decide⟩

theorem delObjectKey (flat : Flat file o) {key : Text} (name : PlainName key)
    (committed : HncJson.delObjectKey file key = some next) :
    Flat next (o.remove key) := by
  rw [HncJson.delObjectKey, if_neg name.nonempty, name.assign] at committed
  obtain ⟨before, after, split, beforeBlank, afterBlank⟩ := flat.chomp_slurp
  have written := HncJson.commit_some committed
  have valid := HncJson.commit_valid committed
  rw [HncJson.delObjectKeyInner_obj flat.wf beforeBlank split,
    List.append_assoc, List.append_assoc] at written
  cases written
  apply of_valid (flat.wf.remove key) (Obj.nodup_remove flat.distinct key)
    beforeBlank ?_ valid
  exact blank_append.mpr ⟨afterBlank, by decide⟩

theorem getTop_eq (flat : Flat file o) {key : Text} (name : PlainName key) :
    HncJson.getTop file key =
      match o.get key with
      | none => .error 3
      | some value => .ok (value ++ ['\n']) := by
  rw [flat.getTop name.assign, HncJson.topAnswer, Obj.get]
  cases findMember key o.members with
  | none => rfl
  | some found => rfl

theorem behaves (flat : Flat file o) {change : Change}
    (allowed : change.Allowed) (clean : change.Clean) :
    change.Behaves file ∧ ∃ o', Flat (change.step file) o' := by
  cases ran : change.run file with
  | none =>
      have same : change.step file = file := by
        rw [Change.step, ran]
        rfl
      refine ⟨⟨fun _ => same, ?_⟩, o, by rw [same]; exact flat⟩
      intro next some
      rw [ran] at some
      cases some
  | some next =>
      have moved : change.step file = next := by
        rw [Change.step, ran]
        rfl
      have effect : change.Answered next ∧ ∃ o', Flat next o' ∧
          ∀ other, other ≠ change.key → o'.get other = o.get other := by
        cases change with
        | set key value typ =>
            obtain ⟨lit, literal, after⟩ :=
              flat.setTop allowed.1 allowed.2 clean ran
            refine ⟨⟨lit, literal, ?_⟩, _, after, ?_⟩
            · rw [after.getTop_eq allowed.1, HncJson.get_topSet, if_pos rfl]
            · intro other different
              rw [HncJson.get_topSet]
              exact if_neg different
        | del key =>
            have after := flat.delObjectKey allowed ran
            refine ⟨?_, _, after, ?_⟩
            · rw [Change.Answered, after.getTop_eq allowed,
                Obj.get_remove flat.distinct, if_pos rfl]
            · intro other different
              rw [Obj.get_remove flat.distinct]
              exact if_neg different
      obtain ⟨answered, o', after, others⟩ := effect
      refine ⟨⟨?_, ?_⟩, o', by rw [moved]; exact after⟩
      · intro none
        rw [ran] at none
        cases none
      · intro other same
        rw [ran] at same
        cases same
        exact ⟨moved, answered, o, o', flat, after, others⟩

end Flat

theorem denotes_empty : Denotes "\x7b\x7d\n".toList (.object []) :=
  ⟨[], "\x7b\x7d".toList, ['\n'], rfl, rfl, @Derives.noMembers [] rfl, rfl⟩

def plainChanges : List Change :=
  [.set "a".toList "1".toList .num, .set "b".toList "x".toList .str,
    .del "a".toList]

/-- A number on two lines, the second of which opens another member. -/
def injectingChange : Change :=
  .set "k".toList "1\n,\"x\":2".toList .num

/-- What the change leaves in an empty object. -/
def injected : Text := "\x7b\n  \"k\": 1\n,\"x\":2\x7d\n\n".toList

theorem run_injectingChange :
    injectingChange.run "\x7b\x7d\n".toList = some injected := by
  decide +kernel

theorem getTop_injected :
    HncJson.getTop injected "k".toList = .ok "1\n".toList := by
  decide +kernel

theorem literal_injectingChange :
    HncJson.jsonLiteral "1\n,\"x\":2".toList .num =
      some "1\n,\"x\":2".toList := by
  decide +kernel

theorem allowed_injectingChange : injectingChange.Allowed :=
  ⟨⟨by decide, by decide⟩, by decide⟩

end Hnc
