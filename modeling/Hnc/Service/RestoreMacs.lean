import Hnc.Service.RestorePasses

/-!
# The first pass of `restore_rules` on a readable file
-/

namespace Hnc.TcManager

open Posix JsonText

variable {mac : Text} {macs : List Text}

theorem mem_insertSorted {other : Text} :
    other ∈ insertSorted mac macs ↔ other = mac ∨ other ∈ macs := by
  induction macs with
  | nil => simp [insertSorted]
  | cons first rest induction =>
      rw [insertSorted]
      split
      · rename_i same
        simp [same]
      · split
        · simp
        · rw [List.mem_cons, List.mem_cons]
          tauto

theorem insertSorted_sorted (sorted : macs.Pairwise (· < ·)) :
    (insertSorted mac macs).Pairwise (· < ·) := by
  induction macs with
  | nil => simp [insertSorted]
  | cons first rest induction =>
      obtain ⟨below, tail⟩ := List.pairwise_cons.mp sorted
      rw [insertSorted]
      split
      · exact sorted
      · rename_i other
        split
        · rename_i less
          refine List.pairwise_cons.mpr ⟨?_, sorted⟩
          intro later member
          rcases List.mem_cons.mp member with rfl | inside
          · exact less
          · exact List.lt_trans less (below later inside)
        · rename_i more
          refine List.pairwise_cons.mpr ⟨?_, induction tail⟩
          intro later member
          rcases mem_insertSorted.mp member with rfl | inside
          · rcases List.le_iff_lt_or_eq.mp (List.not_lt.mp more) with below | same
            · exact below
            · exact absurd same.symm other
          · exact below later inside

theorem sorted_foldr (macs : List Text) :
    (macs.foldr insertSorted []).Pairwise (· < ·) := by
  induction macs with
  | nil => exact List.Pairwise.nil
  | cons mac rest induction => exact insertSorted_sorted induction

theorem mem_foldr_insertSorted :
    mac ∈ macs.foldr insertSorted [] ↔ mac ∈ macs := by
  induction macs with
  | nil => simp
  | cons first rest induction =>
      rw [List.foldr_cons, mem_insertSorted, induction, List.mem_cons]

theorem nodup_deviceMacs (rules : Text) : (deviceMacs rules).Nodup := by
  apply (sorted_foldr _).imp
  rintro left _ less rfl
  exact List.lt_irrefl left less

theorem devicesOpen_eq : devicesOpen =
    named "devices".toList (colon (after? ['{'])) :=
  keyed_eq_named "devices".toList (after? ['{'])

variable {text : Text}

theorem devicesOpen_length {behind : Text}
    (opened : devicesOpen text = some behind) : behind.length < text.length := by
  rw [devicesOpen_eq] at opened
  obtain ⟨tail, start, rest⟩ := Option.bind_eq_some_iff.mp opened
  rw [after?_eq_some.mp start]
  rw [colon] at rest
  have white := (List.dropWhile_suffix isSpace (l := tail)).length_le
  split at rest
  · rename_i value split
    have inner := (List.dropWhile_suffix isSpace (l := value)).length_le
    have brace := congrArg List.length (after?_eq_some.mp rest)
    rw [split] at white
    simp only [List.length_cons, List.length_append] at *
    omega
  · cases rest

theorem macsLine_fuel {fuel other : Nat} {line : Text} (enough : line.length ≤ fuel)
    (enoughToo : line.length ≤ other) (scan : MacScan) :
    macsLine fuel scan line = macsLine other scan line := by
  induction fuel generalizing other line scan with
  | zero =>
      have empty : line = [] := List.eq_nil_of_length_eq_zero (by omega)
      subst empty
      cases other <;> rfl
  | succ fuel induction =>
      cases line with
      | nil => cases other <;> rfl
      | cons c rest =>
          cases other with
          | zero => simp at enoughToo
          | succ other =>
              simp only [List.length_cons, Nat.add_le_add_iff_right] at enough enoughToo
              have shorter : rest.tail.length ≤ rest.length := by simp
              have next : ∀ scan, macsLine fuel scan rest =
                  macsLine other scan rest := induction enough enoughToo
              rw [macsLine, macsLine]
              simp only [next, @induction other rest.tail (by omega) (by omega)]
              cases opened : devicesOpen (c :: rest) with
              | none => rfl
              | some behind =>
                  have less := devicesOpen_length opened
                  simp only [List.length_cons] at less
                  simp only [@induction other behind (by omega) (by omega)]

/-- What the first pass prints from a place in the file on. -/
def macsFrom (scan : MacScan) (text : Text) : List Text :=
  macsLines scan (records text)

theorem records_split (c : Char) (text : Text) :
    records (c :: text) = lineOf (c :: text) ::
      records (((c :: text).dropWhile (· != '\n')).tail) := by
  induction text generalizing c with
  | nil =>
      by_cases newline : c = '\n'
      · simp [records, lineOf, newline]
      · simp [records, lineOf, newline]
  | cons d text induction =>
      by_cases newline : c = '\n'
      · simp [records, lineOf, newline]
      · rw [records, induction d]
        simp [lineOf, newline]

theorem macsFrom_eq (scan : MacScan) (text : Text) :
    macsFrom scan text =
      (macsLine (lineOf text).length scan (lineOf text)).2 ++
        macsLines (macsLine (lineOf text).length scan (lineOf text)).1
          (records ((text.dropWhile (· != '\n')).tail)) := by
  cases text with
  | nil => rfl
  | cons c text =>
      rw [macsFrom, records_split, macsLines]

theorem macsFrom_newline (scan : MacScan) (text : Text) :
    macsFrom scan ('\n' :: text) = macsFrom scan text := by
  rfl

theorem macsFrom_step {scan : MacScan} (next : MacScan) (out : List Text)
    {c : Char} (newline : c ≠ '\n')
    (step : macsLine ((lineOf text).length + 1) scan (c :: lineOf text) = ((macsLine (lineOf text).length next (lineOf text)).1, out ++ (macsLine (lineOf text).length next (lineOf text)).2)) :
    macsFrom scan (c :: text) = out ++ macsFrom next text := by
  have line : lineOf (c :: text) = c :: lineOf text := by
    simp [lineOf, newline]
  have behind : (c :: text).dropWhile (· != '\n') = text.dropWhile (· != '\n') := by
    simp [newline]
  rw [macsFrom_eq, line, behind, List.length_cons, step, macsFrom_eq next]
  simp

theorem macsFrom_open {scan : MacScan} {consumed : Text}
    (outside : scan.inDevices = false) (oneLine : '\n' ∉ consumed)
    (opened : devicesOpen (lineOf (consumed ++ text)) = some (lineOf text)) :
    macsFrom scan (consumed ++ text) = macsFrom ⟨true, 1, false⟩ text := by
  have line := lineOf_of_not_mem oneLine text
  have behind : (consumed ++ text).dropWhile (· != '\n') =
      text.dropWhile (· != '\n') := by
    apply List.dropWhile_append_of_pos
    intro c member
    simp only [bne_iff_ne]
    rintro rfl
    exact oneLine member
  cases first : consumed with
  | nil =>
      rw [first] at opened
      exact absurd (devicesOpen_length opened) (lt_irrefl _)
  | cons c rest =>
      have step : macsLine (lineOf (consumed ++ text)).length scan
          (lineOf (consumed ++ text)) =
          macsLine (lineOf text).length ⟨true, 1, false⟩ (lineOf text) := by
        rw [line, first, List.cons_append] at opened ⊢
        rw [List.length_cons, macsLine, outside, opened]
        apply macsLine_fuel _ (le_refl _)
        simp
      rw [← first, macsFrom_eq, step, behind, macsFrom_eq ⟨true, 1, false⟩]

/-- Outside the devices nothing happens before the key is found. -/
theorem macsFrom_skip {scan : MacScan} (outside : scan.inDevices = false)
    {text rest : Text} (silent : hits devicesOpen text rest = []) :
    macsFrom scan (text ++ rest) = macsFrom scan rest := by
  induction text with
  | nil => rfl
  | cons c text induction =>
      rw [hits, List.append_eq_nil_iff] at silent
      have tail := induction silent.2
      rw [List.cons_append]
      by_cases newline : c = '\n'
      · rw [newline, macsFrom_newline, tail]
      · have line : lineOf (c :: (text ++ rest)) = c :: lineOf (text ++ rest) := by
          simp [lineOf, newline]
        have miss : devicesOpen (c :: lineOf (text ++ rest)) = none := by
          rw [← line]
          simpa using silent.1
        rw [macsFrom_step scan [] newline, tail, List.nil_append]
        rw [macsLine, outside, miss]
        simp

/-! ### Inside the devices -/

/-- The place between strings at a depth below `devices`. -/
def within (depth : Nat) : MacScan :=
  ⟨true, depth, false⟩

variable {rest : Text}

theorem macsFrom_within {depth : Nat}
    (plain : ∀ c ∈ text, c ≠ '"' ∧ c ≠ '{' ∧ c ≠ '}') :
    macsFrom (within depth) (text ++ rest) = macsFrom (within depth) rest := by
  induction text with
  | nil => rfl
  | cons c text induction =>
      obtain ⟨quoteFree, opening, closing⟩ := plain c (by simp)
      have tail := induction fun d member => plain d (by simp [member])
      rw [List.cons_append]
      by_cases newline : c = '\n'
      · rw [newline, macsFrom_newline, tail]
      · rw [macsFrom_step (within depth) [] newline, tail, List.nil_append]
        rw [macsLine]
        simp [within, quoteFree, opening, closing]

theorem macsFrom_opening (depth : Nat) (rest : Text) :
    macsFrom (within depth) ('{' :: rest) = macsFrom (within (depth + 1)) rest := by
  rw [macsFrom_step (within (depth + 1)) [] (by decide), List.nil_append]
  rw [macsLine]
  simp [within]

theorem macsFrom_closing (depth : Nat) (rest : Text) :
    macsFrom (within (depth + 2)) ('}' :: rest) =
      macsFrom (within (depth + 1)) rest := by
  rw [macsFrom_step (within (depth + 1)) [] (by decide), List.nil_append]
  rw [macsLine]
  simp [within]

theorem macsFrom_end (rest : Text) :
    macsFrom (within 1) ('}' :: rest) = macsFrom ⟨false, 0, false⟩ rest := by
  rw [macsFrom_step ⟨false, 0, false⟩ [] (by decide), List.nil_append]
  rw [macsLine]
  simp [within]

variable {body : Text}

theorem macsFrom_string (depth : Nat) (plain : plainKey body = true) :
    macsFrom ⟨true, depth, true⟩ (body ++ '"' :: rest) =
      macsFrom (within depth) rest := by
  induction body with
  | nil =>
      rw [List.nil_append, macsFrom_step (within depth) [] (by decide),
        List.nil_append]
      rw [macsLine]
      simp [within]
  | cons c body induction =>
      simp only [plainKey, List.all_cons, Bool.and_eq_true, bne_iff_ne] at plain
      have tail := induction plain.2
      rw [List.cons_append]
      by_cases newline : c = '\n'
      · rw [newline, macsFrom_newline, tail]
      · rw [macsFrom_step ⟨true, depth, true⟩ [] newline, tail, List.nil_append]
        rw [macsLine]
        simp [plain.1.1, plain.1.2]

theorem macsFrom_quote (depth : Nat) (plain : plainKey body = true) :
    macsFrom (within depth) (quote body ++ rest) =
      (macKey (lineOf (quote body ++ rest))).toList ++
        macsFrom (within depth) rest := by
  have text : quote body ++ rest = '"' :: (body ++ '"' :: rest) := by
    simp [quote]
  have line : lineOf ('"' :: (body ++ '"' :: rest)) =
      '"' :: lineOf (body ++ '"' :: rest) := by
    simp [lineOf]
  rw [text, macsFrom_step ⟨true, depth, true⟩
    (macKey (lineOf ('"' :: (body ++ '"' :: rest)))).toList (by decide),
    macsFrom_string depth plain]
  rw [macsLine, line]
  simp [within]

theorem plainKey_of_isMacText (shape : isMacText isHexDigit mac = true) :
    plainKey mac = true := by
  have chars : ∀ c ∈ mac, isHexDigit c = true ∨ c = ':' := by
    unfold isMacText at shape
    split at shape
    · simp only [Bool.and_eq_true] at shape
      intro c member
      simp only [List.mem_cons, List.not_mem_nil, or_false] at member
      rcases member with rfl | rfl | rfl | rfl | rfl | rfl | rfl | rfl | rfl |
        rfl | rfl | rfl | rfl | rfl | rfl | rfl | rfl <;> simp_all
    · cases shape
  apply List.all_eq_true.mpr
  intro c member
  rcases chars c member with hex | rfl
  · by_contra special
    simp only [Bool.and_eq_true, bne_iff_ne, not_and_or, not_not] at special
    rcases special with rfl | rfl <;> exact absurd hex (by decide)
  · decide

theorem colon_mem_of_isMacText {hex : Char → Bool}
    (shape : isMacText hex text = true) : ':' ∈ text := by
  unfold isMacText at shape
  split at shape
  · simp only [List.all_cons, Bool.and_eq_true, beq_iff_eq] at shape
    simp [shape.2.1]
  · cases shape

/-- A string that is not an address is not taken for one. -/
theorem macKey_other (plain : plainKey body = true)
    (other : isMacText isHexDigit body = false) :
    macKey (lineOf (quote body ++ rest)) = none := by
  rw [macKey]
  split
  · rename_i found
    obtain ⟨shape, behind⟩ := found
    have key := plainKey_of_isMacText shape
    generalize ((lineOf (quote body ++ rest)).drop 1).take 17 = mac at *
    rw [afterKey] at behind
    cases start : after? ('"' :: mac ++ ['"']) (lineOf (quote body ++ rest)) with
    | none =>
        rw [start] at behind
        cases behind
    | some value =>
        obtain ⟨tail, same, _⟩ := after?_lineOf start
        simp only [quote, List.cons_append, List.append_assoc, List.cons.injEq,
          true_and] at same
        have equal := (body_eq_key (body_of_plainKey plain) key same).1
        rw [← equal, other] at shape
        cases shape
  · rfl

theorem toLower_of_isLowerHex {c : Char} (hex : isLowerHex c = true) :
    toLower c = c := by
  rw [toLower, if_neg]
  rintro ⟨low, high⟩
  simp only [isLowerHex, isDigit, Bool.or_eq_true, Bool.and_eq_true,
    decide_eq_true_eq] at hex
  have bounds : 'A'.toNat = 65 ∧ 'Z'.toNat = 90 ∧ 'a'.toNat = 97 ∧
      '9'.toNat = 57 := by decide
  omega

theorem isMacText_of_isLowerMac (lower : isLowerMac text = true) :
    isMacText isHexDigit text = true := by
  have hex : ∀ c, isLowerHex c = true → isHexDigit c = true := by
    intro c digit
    simp only [isLowerHex, isHexDigit, Bool.or_eq_true] at digit ⊢
    exact .inl digit
  unfold isLowerMac at lower
  split at lower
  · simp only [isMacText, List.all_cons, List.all_nil, Bool.and_eq_true,
      Bool.and_true] at lower ⊢
    obtain ⟨⟨a, b, c, d, e, f, g, h, i, j, k, l⟩, colons⟩ := lower
    exact ⟨⟨hex _ a, hex _ b, hex _ c, hex _ d, hex _ e, hex _ f, hex _ g,
      hex _ h, hex _ i, hex _ j, hex _ k, hex _ l⟩, colons⟩
  · cases lower

theorem macKey_mac (mac : Mac) (rest : Text) :
    macKey (lineOf (quote mac.text ++ ':' :: rest)) = some mac.text := by
  have name := mac_keyName mac
  have oneLine : '\n' ∉ quote mac.text ++ [':'] := by
    simpa [quote] using name.oneLine
  have text : quote mac.text ++ ':' :: rest = quote mac.text ++ [':'] ++ rest := by
    simp
  have line : lineOf (quote mac.text ++ ':' :: rest) =
      '"' :: (mac.text ++ '"' :: ':' :: lineOf rest) := by
    rw [text, lineOf_of_not_mem oneLine]
    simp [quote]
  have key : (('"' :: (mac.text ++ '"' :: ':' :: lineOf rest)).drop 1).take 17 =
      mac.text := by
    rw [List.drop_one, ← mac.text_length]
    exact List.take_left
  have shape := isMacText_of_isLowerMac mac.shape
  have behind : (afterKey mac.text
      ('"' :: (mac.text ++ '"' :: ':' :: lineOf rest))).isSome = true := by
    have start : after? ('"' :: mac.text ++ ['"'])
        ('"' :: (mac.text ++ '"' :: ':' :: lineOf rest)) =
        some (':' :: lineOf rest) := by
      rw [after?_eq_some]
      simp
    rw [afterKey, start]
    simp [isSpace, isWs]
  have same : mac.text.map toLower = mac.text := by
    conv_rhs => rw [← List.map_id mac.text]
    apply List.map_congr_left
    intro c member
    rcases mac.chars c member with hex | rfl
    · exact toLower_of_isLowerHex hex
    · decide
  rw [line, macKey, key, if_pos ⟨shape, behind⟩, same]

theorem plain_of_blank (space : blank text = true) :
    ∀ c ∈ text, c ≠ '"' ∧ c ≠ '{' ∧ c ≠ '}' := by
  intro c member
  have white := List.all_eq_true.mp space c member
  refine ⟨?_, ?_, ?_⟩ <;> rintro rfl <;> exact absurd white (by decide)

theorem macsFrom_literal (depth : Nat) (a : Assignment) (rest : Text) :
    macsFrom (within depth) (a.literal ++ rest) = macsFrom (within depth) rest := by
  rcases a.cases with ⟨_, quad, literal⟩ | ⟨literal, unsigned | flag⟩
  · have facts := numberChars_facts (isDottedQuad_numberChars quad)
    have other : isMacText isHexDigit a.value = false := by
      by_contra shape
      rw [Bool.not_eq_false] at shape
      have member := colon_mem_of_isMacText shape
      have char := List.all_eq_true.mp (isDottedQuad_numberChars quad) _ member
      exact absurd char (by decide)
    rw [literal, macsFrom_quote depth facts.2.2.1, macKey_other facts.2.2.1 other]
    rfl
  · simp only [isUnsigned, Bool.and_eq_true] at unsigned
    rw [literal]
    apply macsFrom_within
    intro c member
    have char := List.all_eq_true.mp unsigned.1 c member
    refine ⟨?_, ?_, ?_⟩ <;> rintro rfl <;> exact absurd char (by decide)
  · simp only [isFlag, Bool.or_eq_true, beq_iff_eq] at flag
    rw [literal]
    rcases flag with same | same <;> rw [same] <;>
      exact macsFrom_within (by simp)

theorem macsFrom_laid {m : Member} {a : Assignment} (laid : Laid m a)
    (space : blank m.lead = true) (rest : Text) :
    macsFrom (within 2) (m.render ++ rest) = macsFrom (within 2) rest := by
  have other : isMacText isHexDigit a.field.key = false := by
    cases a.field <;> decide
  have text : m.render ++ rest = m.lead ++ (quote a.field.key ++
      ([':', ' '] ++ (a.literal ++ rest))) := by
    simp [Member.render, Member.fromKey, Member.fromValue, laid.key, laid.gap,
      laid.pad, laid.val, laid.trail]
  rw [text, macsFrom_within (plain_of_blank space),
    macsFrom_quote 2 a.field.plain_key, macKey_other a.field.plain_key other,
    macsFrom_within (by simp), macsFrom_literal]
  rfl

theorem macsFrom_device {e : Entry} (readable : Readable e) (rest : Text) :
    macsFrom (within 1) (e.device.render ++ rest) = macsFrom (within 1) rest := by
  obtain ⟨front, back, members, nonempty, frontLaid, backLaid⟩ := readable.members
  have all : ∀ m ∈ e.device.members, blank m.lead = true ∧ ∃ a, Laid m a := by
    intro m member
    refine ⟨?_, readable.laid member⟩
    rw [members, List.mem_append] at member
    rcases member with inside | behind
    · rw [(frontLaid m inside).1]
      rfl
    · rw [(backLaid m behind).1]
      decide
  have others : ∀ fields : List Member,
      (∀ m ∈ fields, blank m.lead = true ∧ ∃ a, Laid m a) →
      macsFrom (within 2) (closing fields rest) = macsFrom (within 1) rest := by
    intro fields laid
    induction fields with
    | nil =>
        exact macsFrom_closing 0 rest
    | cons m fields induction =>
        obtain ⟨space, a, facts⟩ := laid m (by simp)
        have comma : closing (m :: fields) rest =
            [','] ++ (m.render ++ closing fields rest) := by
          rw [closing_cons]
          rfl
        rw [comma, macsFrom_within (by simp), macsFrom_laid facts space,
          induction fun other member => laid other (by simp [member])]
  obtain ⟨lead, mac, ⟨fields, hollow⟩, trail⟩ := e
  cases fields with
  | nil => simp [nonempty] at members
  | cons m fields =>
      obtain ⟨space, a, facts⟩ := all m (by simp)
      have text : (Obj.mk (m :: fields) hollow).render ++ rest =
          '{' :: (m.render ++ closing fields rest) := by
        simp [Obj.render, Obj.inner, closing]
      rw [text, macsFrom_opening, macsFrom_laid facts space,
        others fields fun other member => all other (by simp [member])]

theorem macsFrom_entry {e : Entry} (readable : Readable e) (wf : e.Wf)
    (rest : Text) :
    macsFrom (within 1) (e.member.render ++ rest) =
      e.mac :: macsFrom (within 1) rest := by
  have text : e.member.render ++ rest = e.lead ++ (quote e.mac ++
      ([':', ' '] ++ (e.device.render ++ (e.trail ++ rest)))) := by
    simp [Entry.member, Member.render, Member.fromKey, Member.fromValue]
  have address := macKey_mac ⟨e.mac, readable.mac⟩
    (' ' :: (e.device.render ++ (e.trail ++ rest)))
  rw [text, macsFrom_within (plain_of_blank wf.lead), macsFrom_quote 1 wf.mac,
    macsFrom_within (by simp), macsFrom_device readable,
    macsFrom_within (plain_of_blank wf.trail)]
  simp only [List.cons_append, List.nil_append]
  rw [address]
  rfl

variable {d : Devices}

theorem macsFrom_devices (wf : d.Wf) (all : ∀ e ∈ d.entries, Readable e)
    (rest : Text) :
    macsFrom (within 1) (d.obj.inner ++ '}' :: rest) =
      d.entries.map Entry.mac ++ macsFrom ⟨false, 0, false⟩ rest := by
  have others : ∀ entries : List Entry, (∀ e ∈ entries, Readable e ∧ e.Wf) →
      macsFrom (within 1) (closing (entries.map Entry.member) rest) =
        entries.map Entry.mac ++ macsFrom ⟨false, 0, false⟩ rest := by
    intro entries facts
    induction entries with
    | nil =>
        exact macsFrom_end rest
    | cons e entries induction =>
        obtain ⟨readable, entryWf⟩ := facts e (by simp)
        have comma : closing ((e :: entries).map Entry.member) rest =
            [','] ++ (e.member.render ++
              closing (entries.map Entry.member) rest) := by
          rw [List.map_cons, closing_cons]
          rfl
        rw [comma, macsFrom_within (by simp), macsFrom_entry readable entryWf,
          induction fun other member => facts other (by simp [member])]
        rfl
  obtain ⟨entries, hollow⟩ := d
  cases entries with
  | nil =>
      have text : (Devices.mk [] hollow).obj.inner ++ '}' :: rest =
          hollow ++ '}' :: rest := rfl
      rw [text, macsFrom_within (plain_of_blank wf.hollow), macsFrom_end]
      rfl
  | cons e entries =>
      have text : (Devices.mk (e :: entries) hollow).obj.inner ++ '}' :: rest =
          e.member.render ++ closing (entries.map Entry.member) rest := by
        simp [Devices.obj, Obj.inner, closing]
      rw [text, macsFrom_entry (all e (by simp)) (wf.entries e (by simp)),
        others entries fun other member =>
          ⟨all other (by simp [member]), wf.entries other (by simp [member])⟩]
      rfl

/-- The first pass prints the addresses of the entries. -/
theorem macsFrom_file {f : Frame} (simple : f.Simple) (wf : d.Wf)
    (all : ∀ e ∈ d.entries, Readable e) :
    macsFrom ⟨false, 0, false⟩ (f.file d.obj) = d.entries.map Entry.mac := by
  have name : KeyName "devices".toList :=
    ⟨by decide, by decide, 'd', "evices".toList, rfl, by decide⟩
  have silent := simple.silent name (after? ['{']) (by decide +kernel)
  let head := f.pre ++ '{' :: ((f.before.flatMap fun m => m.render ++ [',']) ++
    f.lead)
  let opening := quote "devices".toList ++ ':' :: (f.pad ++ ['{'])
  have text : f.file d.obj = head ++ (opening ++ (d.obj.inner ++ '}' :: f.tail)) := by
    have root := render_split f.before (f.field d.obj) f.after [] (f.post ++ ['\n'])
    have whole : f.file d.obj = f.pre ++
        ((f.root d.obj).render ++ (f.post ++ ['\n'])) := by
      simp [Frame.file, Frame.body]
    rw [whole, Frame.root, root]
    simp [head, opening, front, Frame.field, Member.fromValue, Obj.render,
      Frame.tail, simple.gap]
  have quietHead : ∀ rest, hits devicesOpen head rest = [] := by
    intro rest
    have brace : '"' ∉ f.pre ++ ['{'] := by
      have free := quote_not_mem f.blank_pre
      simp [free]
    have split : head = (f.pre ++ ['{']) ++
        ((f.before.flatMap fun m => m.render ++ [',']) ++ f.lead) := by
      simp [head]
    rw [devicesOpen_eq, split, hits_append, hits_of_not_mem _ brace, hits_append,
      hits_before name f.wf_before fun m member => silent m (by simp [member]),
      hits_of_not_mem _ (quote_not_mem f.blank_lead)]
    rfl
  have quietTail : hits devicesOpen f.tail [] = [] := by
    have split : f.tail = f.trail ++ ((more f.after ++ ['}']) ++
        (f.post ++ ['\n'])) := by
      simp [Frame.tail, closing]
    have free : '"' ∉ f.post ++ ['\n'] := by
      simpa using quote_not_mem f.blank_post
    rw [devicesOpen_eq, split, hits_append,
      hits_of_not_mem _ (quote_not_mem f.blank_trail), hits_append,
      hits_closing name _ f.wf_after,
      hitsIn_silent fun m member => silent m (by simp [member]),
      hits_of_not_mem _ free]
    rfl
  have oneLine : '\n' ∉ opening := by
    have pad := simple.pad
    have key := name.oneLine
    simp only [opening, quote, List.cons_append, List.mem_cons, List.mem_append,
      not_or]
    exact ⟨by decide, ⟨key, by decide⟩, by decide, pad, by decide⟩
  have white : f.pad.dropWhile isSpace = [] := by
    rw [List.dropWhile_eq_nil_iff]
    intro c member
    have space := List.all_eq_true.mp f.blank_pad c member
    simp [isSpace, space]
  have opened : devicesOpen (lineOf (opening ++ (d.obj.inner ++ '}' :: f.tail))) =
      some (lineOf (d.obj.inner ++ '}' :: f.tail)) := by
    have value : (f.pad ++ '{' :: lineOf (d.obj.inner ++ '}' :: f.tail)).dropWhile
        isSpace = '{' :: lineOf (d.obj.inner ++ '}' :: f.tail) := by
      rw [List.dropWhile_append, white]
      simp [isSpace, isWs]
    have start : after? (quote "devices".toList)
        (opening ++ lineOf (d.obj.inner ++ '}' :: f.tail)) =
        some (':' :: (f.pad ++ '{' :: lineOf (d.obj.inner ++ '}' :: f.tail))) := by
      rw [after?_eq_some]
      simp [opening]
    rw [devicesOpen_eq, lineOf_of_not_mem oneLine, named, start, Option.bind_some,
      colon, List.dropWhile_cons_of_neg (by decide)]
    simp only [value]
    rfl
  have behind := @macsFrom_skip ⟨false, 0, false⟩ rfl _ _ quietTail
  rw [List.append_nil] at behind
  rw [text, macsFrom_skip rfl (quietHead _), macsFrom_open rfl oneLine opened]
  refine (macsFrom_devices wf all _).trans ?_
  rw [behind]
  exact List.append_nil _

theorem mem_deviceMacs {f : Frame} (simple : f.Simple) (wf : d.Wf)
    (all : ∀ e ∈ d.entries, Readable e) (mac : Text) :
    mac ∈ deviceMacs (f.file d.obj) ↔ mac ∈ d.entries.map Entry.mac := by
  rw [deviceMacs, mem_foldr_insertSorted, ← macsFrom_file simple wf all]
  rfl

end Hnc.TcManager
