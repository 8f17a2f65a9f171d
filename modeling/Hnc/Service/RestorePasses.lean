import Hnc.Service.RestoreReads

/-!
# The passes of `restore_rules` on a readable file
-/

namespace Hnc.TcManager

open Posix JsonText

/-! ### Keys and values -/

theorem mac_keyName (mac : Mac) : KeyName mac.text := by
  refine ⟨mac.plain_text, mac.not_mem (by decide) (by decide), ?_⟩
  obtain ⟨text, shape⟩ := mac
  unfold isLowerMac at shape
  split at shape
  · simp only [List.all_cons, Bool.and_eq_true] at shape
    exact ⟨_, _, rfl, isAtomChar_of_class shape.1.1 (by decide)⟩
  · simp at shape

theorem field_keyName (field : Field) : KeyName field.key := by
  refine ⟨field.plain_key, field.oneLine_key, ?_⟩
  cases field <;> exact ⟨_, _, rfl, by decide⟩

theorem mac_not_topKey (mac : Mac) : mac.text ∉ topKeys := by
  intro member
  have none : ∀ key ∈ topKeys, isLowerMac key = false := by decide +kernel
  have shape := mac.shape
  rw [none _ member] at shape
  cases shape

theorem mac_ne_field (mac : Mac) (field : Field) : field.key ≠ mac.text := by
  intro same
  have shape := mac.shape
  rw [← same] at shape
  cases field <;> exact absurd shape (by decide)

theorem mac_ne_devices (mac : Mac) : mac.text ≠ "devices".toList := by
  intro same
  have shape := mac.shape
  rw [same] at shape
  exact absurd shape (by decide)

section Laid

variable {m : Member} {a : Assignment}

theorem Laid.wf (laid : Laid m a) (space : blank m.lead = true) : m.Wf :=
  ⟨space, laid.key ▸ a.field.plain_key, by rw [laid.gap]; rfl,
    by rw [laid.pad]; decide, laid.val ▸ a.val_literal, by rw [laid.trail]; rfl⟩

theorem Laid.mute (laid : Laid m a) {Value : Type} {key : Text}
    (name : KeyName key) (parse : Text → Option Value) :
    Mute key (colon parse) m :=
  mute_simple name parse (laid.val ▸ a.isSimple_literal) (by rw [laid.trail]; rfl)

theorem Laid.text (laid : Laid m a) (lead : m.lead = []) :
    m.render = quote a.field.key ++ ':' :: ' ' :: a.literal := by
  simp [Member.render, Member.fromKey, Member.fromValue, lead, laid.key, laid.gap,
    laid.pad, laid.val, laid.trail]

theorem oneLine_literal (a : Assignment) : '\n' ∉ a.literal := by
  unfold Assignment.literal
  split
  · simpa [quote] using a.oneLine_value
  · exact a.oneLine_value

theorem Laid.oneLine (laid : Laid m a) (lead : m.lead = []) :
    '\n' ∉ m.render := by
  have key := a.field.oneLine_key
  have literal := oneLine_literal a
  rw [laid.text lead]
  simp [quote, key, literal]

theorem literal_dropSpace (a : Assignment) (rest : Text) :
    (' ' :: (a.literal ++ rest)).dropWhile isSpace = a.literal ++ rest := by
  have head : ∃ c tail, a.literal = c :: tail ∧ isSpace c = false := by
    rcases a.cases with ⟨_, _, literal⟩ | ⟨literal, unsigned | flag⟩
    · exact ⟨'"', _, literal, by decide⟩
    · simp only [isUnsigned, Bool.and_eq_true] at unsigned
      cases value : a.value with
      | nil => exact absurd value (ne_nil_of_isNumeral unsigned.2)
      | cons c tail =>
          refine ⟨c, tail, literal.trans value, ?_⟩
          have char := List.all_eq_true.mp unsigned.1 c (by simp [value])
          exact isSpace_of_class char (by decide)
    · simp only [isFlag, Bool.or_eq_true, beq_iff_eq] at flag
      rw [literal]
      rcases flag with same | same
      · exact ⟨'t', _, same, by decide⟩
      · exact ⟨'f', _, same, by decide⟩
  obtain ⟨c, tail, text, solid⟩ := head
  rw [List.dropWhile_cons_of_pos (by decide), text]
  simp [solid]

theorem Laid.matchKey (laid : Laid m a) (lead : m.lead = []) {Value : Type}
    (field : Field) (parse : Text → Option Value) :
    Posix.matchKey field.key parse m.render =
      if a.field = field then parse a.literal else none := by
  have name := field_keyName field
  have wf := laid.wf (by rw [lead]; rfl)
  have value := literal_dropSpace a []
  have rest : lineOf (m.gap ++ ':' :: (m.pad ++ (m.fromValue ++ []))) =
      ':' :: ' ' :: a.literal := by
    have text : m.gap ++ ':' :: (m.pad ++ (m.fromValue ++ [])) =
        ':' :: ' ' :: a.literal := by
      simp [laid.gap, laid.pad, Member.fromValue, laid.val, laid.trail]
    rw [text]
    apply lineOf_self
    simpa using oneLine_literal a
  rw [List.append_nil] at value
  rw [matchKey_eq_hits _ _ (laid.oneLine lead), keyed_eq_named,
    hits_member name _ wf, hitsAt, laid.mute name parse [] (.inl rfl), laid.key,
    rest]
  by_cases same : a.field = field
  · rw [if_pos (by rw [same]), if_pos same, colon,
      List.dropWhile_cons_of_neg (by decide)]
    simp only [value]
    cases parse a.literal <;> rfl
  · have other : a.field.key ≠ field.key := fun keys =>
      same (Field.key_injective _ _ keys)
    rw [if_neg other, if_neg same]
    rfl

end Laid

/-- The value of an assignment in a record. -/
def setField (read : FieldRecord) (a : Assignment) : FieldRecord :=
  match a.field with
  | .markId => { read with markId := a.value }
  | .ip => { read with ip := a.value }
  | .downMbps => { read with down := a.value }
  | .upMbps => { read with up := a.value }
  | .delayMs => { read with delay := a.value }
  | .jitterMs => { read with jitter := a.value }
  | .lossPct => { read with loss := a.value }
  | _ => read

theorem unsigned_of_field (a : Assignment) (number : a.field ≠ .ip)
    (noSwitch : isRestored a.field = true) : isUnsigned a.value = true := by
  have ok := a.ok
  cases field : a.field with
  | ip => exact absurd field number
  | limitEnabled => simp [field, isRestored] at noSwitch
  | delayEnabled => simp [field, isRestored] at noSwitch
  | lastSeenPersist => simp [field, isRestored] at noSwitch
  | _ =>
      rw [field] at ok
      exact ok

/-- The chain of patterns, by the fields they are for. -/
theorem readPart_eq (read : FieldRecord) (part : Text) :
    readPart read part =
      match matchKey Field.markId.key (run isDigit) part with
      | some value => { read with markId := value }
      | none =>
        match (matchKey Field.ip.key (quoted (· != '"')) part).map fun value =>
            if (value.reverse.dropWhile isSpace).head? = some ':' then []
            else value with
        | some value => { read with ip := value }
        | none =>
          match matchKey Field.downMbps.key (run isNumberChar) part with
          | some value => { read with down := value }
          | none =>
            match matchKey Field.upMbps.key (run isNumberChar) part with
            | some value => { read with up := value }
            | none =>
              match matchKey Field.delayMs.key (run isNumberChar) part with
              | some value => { read with delay := value }
              | none =>
                match matchKey Field.jitterMs.key (run isNumberChar) part with
                | some value => { read with jitter := value }
                | none =>
                  match matchKey Field.lossPct.key (run isNumberChar) part with
                  | some value => { read with loss := value }
                  | none => read :=
  rfl

theorem noColon_of_isDottedQuad {value : Text} (quad : isDottedQuad value = true) :
    (value.reverse.dropWhile isSpace).head? ≠ some ':' := by
  intro last
  have member : ':' ∈ value.reverse.dropWhile isSpace :=
    List.mem_of_mem_head? last
  have inside : ':' ∈ value :=
    List.mem_reverse.mp ((List.dropWhile_suffix _).mem member)
  have char := List.all_eq_true.mp (isDottedQuad_numberChars quad) _ inside
  exact absurd char (by decide)

theorem readPart_laid {m : Member} {a : Assignment} (laid : Laid m a)
    (lead : m.lead = []) (read : FieldRecord) :
    readPart read m.render = setField read a := by
  have number : a.field ≠ .ip → isRestored a.field = true →
      a.literal = a.value ∧ run isNumberChar a.value = some a.value := by
    intro noIp restored
    have unsigned := unsigned_of_field a noIp restored
    simp only [isUnsigned, Bool.and_eq_true] at unsigned
    exact ⟨by simp [Assignment.literal, noIp],
      run_all unsigned.1 (ne_nil_of_isNumeral unsigned.2)⟩
  rw [readPart_eq, laid.matchKey lead, laid.matchKey lead, laid.matchKey lead,
    laid.matchKey lead, laid.matchKey lead, laid.matchKey lead,
    laid.matchKey lead, setField]
  cases field : a.field with
  | markId =>
      have digits := laid.whole field
      have unsigned := unsigned_of_field a (by simp [field]) (by simp [field, isRestored])
      simp only [isUnsigned, Bool.and_eq_true] at unsigned
      have value := run_all digits (ne_nil_of_isNumeral unsigned.2)
      have literal := (number (by simp [field]) (by simp [field, isRestored])).1
      simp [literal, value]
  | ip =>
      have quad : isDottedQuad a.value = true := by
        have ok := a.ok
        rw [field] at ok
        exact ok
      have facts := numberChars_facts (isDottedQuad_numberChars quad)
      have literal : a.literal = quote a.value := by
        simp [Assignment.literal, field]
      simp [literal, quoted_quote facts.2.2.1, noColon_of_isDottedQuad quad]
  | limitEnabled => simp
  | delayEnabled => simp
  | lastSeenPersist => simp
  | _ =>
      obtain ⟨literal, value⟩ :=
        number (by simp [field]) (by simp [field, isRestored])
      simp [literal, value]

variable {rest : Text}

theorem block_plain (depth : Nat) {text : Text}
    (plain : ∀ c ∈ text, c ≠ '"' ∧ c ≠ '{' ∧ c ≠ '}') (more : rest ≠ []) :
    block depth false false (text ++ rest) =
      text ++ block depth false false rest := by
  induction text with
  | nil => rfl
  | cons c text induction =>
      obtain ⟨quoteFree, opening, closing⟩ := plain c (by simp)
      have tail := induction fun d member => plain d (by simp [member])
      rw [List.cons_append, block]
      simp [block.cut, quoteFree, opening, closing, more, tail]

theorem block_body (depth : Nat) {body : Text} (plain : plainKey body = true)
    (more : rest ≠ []) :
    block depth true false (body ++ '"' :: rest) =
      body ++ '"' :: block depth false false rest := by
  induction body with
  | nil =>
      rw [List.nil_append, block]
      simp [block.cut, more]
  | cons c body induction =>
      simp only [plainKey, List.all_cons, Bool.and_eq_true, bne_iff_ne] at plain
      have tail := induction plain.2
      rw [List.cons_append, block]
      simp [block.cut, plain.1.1, plain.1.2, tail]

theorem block_quote (depth : Nat) {body : Text} (plain : plainKey body = true)
    (more : rest ≠ []) :
    block depth false false (quote body ++ rest) =
      quote body ++ block depth false false rest := by
  have inside := block_body depth plain more
  have text : quote body ++ rest = '"' :: (body ++ '"' :: rest) := by
    simp [quote]
  rw [text, block]
  simp [block.cut, inside, quote]

theorem block_literal (depth : Nat) (a : Assignment) (more : rest ≠ []) :
    block depth false false (a.literal ++ rest) =
      a.literal ++ block depth false false rest := by
  have shape := a.isSimple_literal
  simp only [isSimple, Bool.or_eq_true, Bool.and_eq_true, beq_iff_eq] at shape
  rcases shape with (⟨_, atom⟩ | brackets) | ⟨same, plain⟩
  · apply block_plain depth _ more
    intro c member
    have char := List.all_eq_true.mp atom c member
    simp only [isAtomChar, isPlain, Bool.and_eq_true, bne_iff_ne] at char
    exact ⟨char.1.1.1.1.1.1.1, char.1.1.1.1.1.1.2, char.1.1.1.1.1.2⟩
  · rw [brackets]
    exact block_plain depth (by simp) more
  · rw [same]
    exact block_quote depth plain more

theorem block_laid {m : Member} {a : Assignment} (laid : Laid m a)
    (lead : m.lead = []) (more : rest ≠ []) :
    block 1 false false (m.render ++ rest) =
      m.render ++ block 1 false false rest := by
  have nonempty : ':' :: ' ' :: (a.literal ++ rest) ≠ [] := by simp
  have colonText : ':' :: ' ' :: (a.literal ++ rest) =
      [':', ' '] ++ (a.literal ++ rest) := rfl
  rw [laid.text lead, List.append_assoc, List.cons_append, List.cons_append,
    block_quote 1 a.field.plain_key nonempty, colonText,
    block_plain 1 (by simp) (by simp [more]), block_literal 1 a more]
  simp

/-- The text of fields in a row. -/
def joined : List Member → Text
  | [] => []
  | m :: rest => m.render ++ more rest

variable {front : List Member}

theorem block_joined (laid : ∀ m ∈ front, m.lead = [] ∧ ∃ a, Laid m a)
    (more : rest ≠ []) :
    block 1 false false (joined front ++ rest) =
      joined front ++ block 1 false false rest := by
  have behind : ∀ others : List Member,
      (∀ m ∈ others, m.lead = [] ∧ ∃ a, Laid m a) →
      block 1 false false (JsonText.more others ++ rest) =
        JsonText.more others ++ block 1 false false rest := by
    intro others laid
    induction others with
    | nil => rfl
    | cons m others induction =>
        obtain ⟨lead, a, facts⟩ := laid m (by simp)
        have tail := induction fun other member => laid other (by simp [member])
        have text : JsonText.more (m :: others) ++ rest =
            [','] ++ (m.render ++ (JsonText.more others ++ rest)) := by
          simp [JsonText.more]
        rw [text, block_plain 1 (by simp) (by simp [more]),
          block_laid facts lead (by simp [more]), tail]
        simp [JsonText.more]
  cases front with
  | nil => rfl
  | cons m others =>
      obtain ⟨lead, a, facts⟩ := laid m (by simp)
      have text : joined (m :: others) ++ rest =
          m.render ++ (JsonText.more others ++ rest) := by
        simp [joined]
      rw [text, block_laid facts lead (by simp [more]),
        behind others fun other member => laid other (by simp [member])]
      simp [joined]

theorem oneLine_joined (laid : ∀ m ∈ front, m.lead = [] ∧ ∃ a, Laid m a) :
    '\n' ∉ joined front := by
  have each : ∀ m ∈ front, '\n' ∉ m.render := by
    intro m member
    obtain ⟨lead, a, facts⟩ := laid m member
    exact facts.oneLine lead
  cases front with
  | nil => simp [joined]
  | cons m others =>
      simp only [joined, more, List.mem_append, List.mem_flatMap, List.mem_cons,
        not_or, not_exists, not_and]
      refine ⟨each m (by simp), ?_⟩
      intro other member
      exact ⟨by decide, each other (by simp [member])⟩

/-- The block that the second pass cuts out is the front line of the object,
whether the object ends on that line or not. -/
theorem block_device {back : List Member} {hollow : Text} (nonempty : front ≠ [])
    (laid : ∀ m ∈ front, m.lead = [] ∧ ∃ a, Laid m a)
    (behind : ∀ m ∈ back, m.lead = indent) (rest : Text) :
    block 1 false false
      (lineOf ((Obj.mk (front ++ back) hollow).inner ++ '}' :: rest)) =
      joined front := by
  have text : (Obj.mk (front ++ back) hollow).inner = joined front ++ more back := by
    cases front with
    | nil => exact absurd rfl nonempty
    | cons m others => simp [Obj.inner, joined, more]
  rw [text, List.append_assoc, lineOf_of_not_mem (oneLine_joined laid)]
  cases back with
  | nil =>
      have brace : lineOf (more [] ++ '}' :: rest) = '}' :: lineOf rest := by
        simp [more, lineOf]
      rw [brace, block_joined laid (by simp), block]
      simp
  | cons b others =>
      have comma : lineOf (more (b :: others) ++ '}' :: rest) = [','] := by
        simp [more, Member.render, behind b (by simp), indent, lineOf]
      rw [comma, block_joined laid (by simp), block]
      simp [block.cut]

theorem comma_not_mem {m : Member} {a : Assignment} (laid : Laid m a)
    (lead : m.lead = []) : ',' ∉ m.render := by
  have key : ',' ∉ a.field.key := by
    cases a.field <;> decide
  have literal : ',' ∉ a.literal := by
    rcases a.cases with ⟨_, quad, text⟩ | ⟨text, unsigned | flag⟩
    · rw [text]
      intro member
      simp only [quote, List.cons_append, List.mem_cons,
        List.mem_append] at member
      rcases member with impossible | inside | impossible
      · exact absurd impossible (by decide)
      · have char := List.all_eq_true.mp (isDottedQuad_numberChars quad) _ inside
        exact absurd char (by decide)
      · exact absurd impossible (by decide)
    · simp only [isUnsigned, Bool.and_eq_true] at unsigned
      rw [text]
      intro member
      have char := List.all_eq_true.mp unsigned.1 _ member
      exact absurd char (by decide)
    · simp only [isFlag, Bool.or_eq_true, beq_iff_eq] at flag
      rw [text]
      rcases flag with same | same <;> rw [same] <;> decide
  rw [laid.text lead]
  simp [quote, key, literal]

theorem parts_joined (nonempty : front ≠ [])
    (laid : ∀ m ∈ front, m.lead = [] ∧ ∃ a, Laid m a) :
    parts (joined front) = front.map Member.render := by
  cases front with
  | nil => exact absurd rfl nonempty
  | cons m others =>
      have full : joined (m :: others) ≠ [] := by
        simp [joined, Member.render, Member.fromKey]
      rw [parts, if_neg full, joined]
      clear full nonempty
      induction others generalizing m with
      | nil =>
          obtain ⟨lead, a, facts⟩ := laid m (by simp)
          simp [more, fields_of_not_mem (comma_not_mem facts lead)]
      | cons next others induction =>
          obtain ⟨lead, a, facts⟩ := laid m (by simp)
          have tail := induction next fun other member => laid other (by
            simp only [List.mem_cons] at member ⊢
            exact .inr member)
          have text : m.render ++ more (next :: others) =
              m.render ++ ',' :: (next.render ++ more others) := by
            simp [more]
          rw [text, fields_split, fields_of_not_mem (comma_not_mem facts lead), tail]
          rfl

/-- A component of a record. -/
def component (read : FieldRecord) : Field → Text
  | .markId => read.markId
  | .ip => read.ip
  | .downMbps => read.down
  | .upMbps => read.up
  | .delayMs => read.delay
  | .jitterMs => read.jitter
  | .lossPct => read.loss
  | _ => []

variable {field : Field}

theorem component_setField (read : FieldRecord) (a : Assignment)
    (restored : isRestored field = true) :
    component (setField read a) field =
      if a.field = field then a.value else component read field := by
  rw [setField]
  cases field <;> cases kind : a.field <;> first | rfl | cases restored

theorem unquote_literal (a : Assignment) : unquote a.literal = a.value := by
  have bare : ∀ c, a.value.head? = some c → c ≠ '"' := by
    rintro c first rfl
    have member : '"' ∈ a.value := List.mem_of_mem_head? first
    rcases a.cases with ⟨_, quad, _⟩ | ⟨_, unsigned | flag⟩
    · have char := List.all_eq_true.mp (isDottedQuad_numberChars quad) _ member
      exact absurd char (by decide)
    · simp only [isUnsigned, Bool.and_eq_true] at unsigned
      have char := List.all_eq_true.mp unsigned.1 _ member
      exact absurd char (by decide)
    · simp only [isFlag, Bool.or_eq_true, beq_iff_eq] at flag
      rcases flag with same | same <;> rw [same] at member <;>
        exact absurd member (by decide)
  unfold Assignment.literal
  split
  · simp [unquote, quote]
  · rw [unquote, if_neg]
    intro first
    exact bare '"' first rfl

/-- The parts of the front line give the values of its fields. -/
theorem component_foldl (laid : ∀ m ∈ front, m.lead = [] ∧ ∃ a, Laid m a)
    (distinct : (front.map Member.key).Nodup) (read : FieldRecord)
    (restored : isRestored field = true) (hollow : Text) :
    component ((front.map Member.render).foldl readPart read) field =
      (((Obj.mk front hollow).get field.key).map unquote).getD
        (component read field) := by
  induction front generalizing read with
  | nil => rfl
  | cons m rest induction =>
      obtain ⟨lead, a, facts⟩ := laid m (by simp)
      simp only [List.map_cons, List.nodup_cons] at distinct
      have tail := induction (fun other member => laid other (by simp [member]))
        distinct.2 (setField read a)
      rw [List.map_cons, List.foldl_cons, readPart_laid facts lead, tail,
        component_setField read a restored, Obj.get_cons, facts.key]
      by_cases same : a.field = field
      · have absent : (Obj.mk rest hollow).get field.key = none := by
          rw [Obj.get, Option.map_eq_none_iff, findMember_eq_none]
          intro other member named
          apply distinct.1
          rw [facts.key, same, ← named]
          exact List.mem_map_of_mem member
        rw [if_pos same, if_pos (by rw [same]), absent, facts.val]
        simp [unquote_literal]
      · have other : a.field.key ≠ field.key := fun keys =>
          same (Field.key_injective _ _ keys)
        rw [if_neg same, if_neg other]

theorem get_front {back : List Member}
    (behind : ∀ m ∈ back, ∃ a, Laid m a ∧ isRestored a.field = false)
    (restored : isRestored field = true) (hollow : Text) :
    (Obj.mk (front ++ back) hollow).get field.key =
      (Obj.mk front hollow).get field.key := by
  induction front with
  | nil =>
      have absent : ∀ m ∈ back, m.key ≠ field.key := by
        intro m member named
        obtain ⟨a, laid, other⟩ := behind m member
        have same : a.field = field :=
          Field.key_injective _ _ (laid.key.symm.trans named)
        rw [same, restored] at other
        cases other
      rw [List.nil_append, Obj.get, findMember_eq_none.mpr absent]
      rfl
  | cons m front induction =>
      rw [List.cons_append, Obj.get_cons, Obj.get_cons, induction]

/-- What the second pass makes of the front line of an object. -/
def answer (behind : Text) : Option FieldRecord :=
  let read := (parts (block 1 false false behind)).foldl readPart noFields
  if read.markId = [] then none else some read

/-- The record of an object, from its fields. -/
def recordOf (device : Obj) : Option FieldRecord :=
  (device.get Field.markId.key).map fun markId =>
    { markId := markId
      ip := ((device.get Field.ip.key).map unquote).getD []
      down := (device.get Field.downMbps.key).getD ['0']
      up := (device.get Field.upMbps.key).getD ['0']
      delay := (device.get Field.delayMs.key).getD ['0']
      jitter := (device.get Field.jitterMs.key).getD ['0']
      loss := (device.get Field.lossPct.key).getD ['0'] }

variable {e : Entry}

theorem Readable.laid (readable : Readable e) {m : Member}
    (member : m ∈ e.device.members) : ∃ a, Laid m a := by
  obtain ⟨front, back, members, _, frontLaid, backLaid⟩ := readable.members
  rw [members, List.mem_append] at member
  rcases member with inside | behind
  · exact (frontLaid m inside).2
  · obtain ⟨_, a, laid, _⟩ := backLaid m behind
    exact ⟨a, laid⟩

theorem Readable.get_number (readable : Readable e) (number : field ≠ .ip)
    {value : Text} (stored : e.device.get field.key = some value) :
    unquote value = value ∧ (isRestored field = true → value ≠ []) := by
  obtain ⟨⟨m, after⟩, hit, rfl⟩ := Option.map_eq_some_iff.mp stored
  obtain ⟨named, before, split, _⟩ := findMember_mem hit
  obtain ⟨a, laid⟩ := readable.laid (m := m) (by simp [split])
  have same : a.field = field :=
    Field.key_injective _ _ (laid.key.symm.trans named)
  have literal : m.val = a.value := by
    rw [laid.val, Assignment.literal, if_neg (by rw [same]; exact number)]
  refine ⟨?_, ?_⟩
  · rw [laid.val, unquote_literal, ← literal, laid.val]
  · intro restored
    have unsigned := unsigned_of_field a (by rw [same]; exact number)
      (by rw [same]; exact restored)
    simp only [isUnsigned, Bool.and_eq_true] at unsigned
    rw [literal]
    exact ne_nil_of_isNumeral unsigned.2

theorem answer_device (readable : Readable e) (rest : Text) :
    answer (lineOf (e.device.inner ++ '}' :: rest)) = recordOf e.device := by
  obtain ⟨front, back, members, nonempty, frontLaid, backLaid⟩ := readable.members
  have distinct : (front.map Member.key).Nodup := by
    have all := readable.distinct
    rw [members, List.map_append] at all
    exact (List.nodup_append.mp all).1
  have device : e.device = ⟨front ++ back, e.device.hollow⟩ := by
    rw [← members]
  have cut : block 1 false false (lineOf (e.device.inner ++ '}' :: rest)) =
      joined front := by
    rw [device]
    exact block_device nonempty frontLaid
      (fun m member => (backLaid m member).1) rest
  have value : ∀ field : Field, isRestored field = true →
      component ((front.map Member.render).foldl readPart noFields) field =
        ((e.device.get field.key).map unquote).getD (component noFields field) := by
    intro field restored
    rw [device, get_front (fun m member => (backLaid m member).2) restored]
    exact component_foldl frontLaid distinct noFields restored _
  have plain : ∀ field : Field, field ≠ .ip →
      (e.device.get field.key).map unquote = e.device.get field.key := by
    intro field number
    cases stored : e.device.get field.key with
    | none => rfl
    | some text => simp [(readable.get_number number stored).1]
  rw [answer, cut, parts_joined nonempty frontLaid, recordOf]
  have mark := value .markId rfl
  have ip := value .ip rfl
  have down := value .downMbps rfl
  have up := value .upMbps rfl
  have delay := value .delayMs rfl
  have jitter := value .jitterMs rfl
  have loss := value .lossPct rfl
  generalize (front.map Member.render).foldl readPart noFields = read at *
  rw [plain _ (by decide)] at mark down up delay jitter loss
  obtain ⟨markId, ipText, downText, upText, delayText, jitterText, lossText⟩ := read
  simp only [component, noFields] at mark ip down up delay jitter loss
  subst mark ip down up delay jitter loss
  cases stored : e.device.get Field.markId.key with
  | none => rfl
  | some text =>
      have full := (readable.get_number (by decide) stored).2 rfl
      simp [full]

theorem readLine_eq (mac line : Text) :
    readLine mac line = (matchKey mac (after? ['{']) line).bind answer := by
  rw [readLine]
  cases matchKey mac (after? ['{']) line <;> rfl

/-- The second pass prints the record of the stored object. -/
theorem fieldRecord_file {f : Frame} {d : Devices} (simple : f.Simple) (wf : d.Wf)
    (all : ∀ e ∈ d.entries, Readable e) (mac : Mac) :
    fieldRecord (f.file d.obj) mac.text =
      (d.find mac.text).bind fun e => recordOf e.device := by
  have name := mac_keyName mac
  have silent : f.Silent mac.text (colon (after? ['{'])) :=
    simple.silent name _ (mac_not_topKey mac)
  have fields : ∀ e ∈ d.entries, ∀ m ∈ e.device.members,
      Silent mac.text (colon (after? ['{'])) m := by
    intro e listed m member
    obtain ⟨a, laid⟩ := (all e listed).laid member
    refine ⟨?_, laid.mute name _⟩
    rw [laid.key]
    exact mac_ne_field mac a.field
  have lines : fieldRecord (f.file d.obj) mac.text =
      (records (f.file d.obj)).findSome? fun line =>
        (hits (named mac.text (colon (after? ['{']))) line []).head?.bind
          answer := by
    apply findSome_congr
    intro line member
    rw [readLine_eq, matchKey_eq_hits _ _ (records_oneLine member),
      keyed_eq_named]
  have found := f.hits_file name silent (mac_ne_devices mac) wf.obj
  obtain ⟨absent, present⟩ := Devices.hitsIn_entry wf name _ fields f.tail
  rw [lines]
  cases entry : d.find mac.text with
  | none =>
      rw [absent entry] at found
      exact findSome_of_none (named_nil _ _) found _
  | some e =>
      obtain ⟨after, hit⟩ := present e entry
      have open_ : colon (after? ['{']) (lineOf (':' :: ' ' ::
          (e.device.render ++ (e.trail ++ closing after f.tail)))) =
          some (lineOf (e.device.inner ++
            '}' :: (e.trail ++ closing after f.tail))) := by
        simp [colon, lineOf, Obj.render, isSpace, isWs, after?]
      rw [hit, open_] at found
      have readable := all e (Devices.mac_of_find entry).1
      rw [findSome_of_single (named_nil _ _) found]
      exact answer_device readable _

end Hnc.TcManager
