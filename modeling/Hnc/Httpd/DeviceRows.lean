import Hnc.Httpd.DeviceList
import Hnc.Lib.FirstKeys
import Hnc.Service.RestoreReader

/-!
# What a row of the device list shows

A row of `devices.json` has the fields of the rule and the name that are stored
under its own key, a row of a rule or of a blacklist entry those of its address
in either case.
-/

namespace Httpd.DeviceList

open Posix
open KeyMap
open Hnc.TcManager (isMacText)

def lowerDigits : Text := "0123456789abcdef".toList

def upperDigits : Text := "0123456789ABCDEF".toList

def isLowerMac (text : Text) : Bool :=
  isMacText lowerDigits.contains text

def isUpperMac (text : Text) : Bool :=
  isMacText upperDigits.contains text

/-- An address that is written all in lower or all in upper case. -/
def isMac (text : Text) : Bool :=
  isLowerMac text || isUpperMac text

variable {text : Text}

theorem chars_of_isMacText {hex : Char → Bool} (mac : isMacText hex text = true) :
    text ≠ [] ∧ text.all (fun c => hex c || c == ':') = true := by
  unfold isMacText at mac
  split at mac
  · simp only [List.all_cons, Bool.and_eq_true]
      at mac
    simp [mac]
  · cases mac

/-- What holds of the digits and the colon holds of the address. -/
theorem all_of_isMacText {digits : Text} {fact : Char → Bool}
    (mac : isMacText digits.contains text = true)
    (each : (':' :: digits).all fact = true) : ∀ c ∈ text, fact c = true := by
  intro c member
  have shape := List.all_eq_true.mp (chars_of_isMacText mac).2 c member
  apply List.all_eq_true.mp each
  simp only [Bool.or_eq_true, List.contains_iff_mem, beq_iff_eq] at shape
  rcases shape with digit | colon
  · exact List.mem_cons_of_mem _ digit
  · rw [colon]
    exact List.mem_cons_self

theorem toLower_of_isLowerMac (mac : isLowerMac text = true) :
    toLower text = text := by
  have each : (':' :: lowerDigits).all (fun c => c.toLower == c) = true := by
    decide
  have same := all_of_isMacText mac each
  rw [toLower, List.map_congr_left fun c member => beq_iff_eq.mp (same c member)]
  exact List.map_id' text

theorem toLower_toUpper_of_isLowerMac (mac : isLowerMac text = true) :
    toLower (toUpper text) = text := by
  have each : (':' :: lowerDigits).all
      (fun c => c.toUpper.toLower == c) = true := by
    decide
  have same := all_of_isMacText mac each
  rw [toLower, toUpper, List.map_map]
  refine (List.map_congr_left ?_).trans (List.map_id' text)
  exact fun c member => beq_iff_eq.mp (same c member)

theorem toUpper_toLower_of_isUpperMac (mac : isUpperMac text = true) :
    toUpper (toLower text) = text := by
  have each : (':' :: upperDigits).all
      (fun c => c.toLower.toUpper == c) = true := by
    decide
  have same := all_of_isMacText mac each
  rw [toUpper, toLower, List.map_map]
  refine (List.map_congr_left ?_).trans (List.map_id' text)
  exact fun c member => beq_iff_eq.mp (same c member)

theorem toLower_toLower_of_isMac (mac : isMac text = true) :
    toLower (toLower text) = toLower text := by
  have twice : ∀ c ∈ text, (c.toLower.toLower == c.toLower) = true := by
    rcases Bool.or_eq_true_iff.mp mac with lower | upper
    · exact all_of_isMacText lower (by decide)
    · exact all_of_isMacText upper (by decide)
  rw [toLower, toLower, List.map_map]
  apply List.map_congr_left
  intro c member
  exact beq_iff_eq.mp (twice c member)

theorem eq_or_eq_toUpper {mac : Text} (isMac : isMac text = true)
    (same : toLower text = mac) : text = mac ∨ text = toUpper mac := by
  rcases Bool.or_eq_true_iff.mp isMac with lower | upper
  · exact .inl ((toLower_of_isLowerMac lower).symm.trans same)
  · right
    rw [← same, toUpper_toLower_of_isUpperMac upper]

theorem trimSpace_eq_self (solid : ∀ c ∈ text, (!isGoSpace c) = true) :
    trimSpace text = text := by
  have keeps : ∀ more : Text, (∀ c ∈ more, c ∈ text) →
      more.dropWhile isGoSpace = more := by
    intro more members
    cases more with
    | nil => rfl
    | cons first rest =>
        have here := solid first (members first List.mem_cons_self)
        rw [List.dropWhile_cons_of_neg (by simpa using here)]
  rw [trimSpace, keeps text (fun _ member => member),
    keeps text.reverse (fun _ member => List.mem_reverse.mp member),
    List.reverse_reverse]

theorem trimSpace_of_isMac (mac : isMac text = true) :
    trimSpace text = text ∧ trimSpace (toLower text) = toLower text := by
  have solid : ∀ c ∈ text, (!isGoSpace c && !isGoSpace c.toLower) = true := by
    rcases Bool.or_eq_true_iff.mp mac with lower | upper
    · exact all_of_isMacText lower (by decide)
    · exact all_of_isMacText upper (by decide)
  constructor
  · apply trimSpace_eq_self
    intro c member
    exact (Bool.and_eq_true_iff.mp (solid c member)).1
  · apply trimSpace_eq_self
    intro c member
    obtain ⟨before, isChar, rfl⟩ := List.mem_map.mp member
    exact (Bool.and_eq_true_iff.mp (solid before isChar)).2

theorem toLower_ne_nil (mac : isMac text = true) : toLower text ≠ [] := by
  have nonempty : text ≠ [] := by
    rcases Bool.or_eq_true_iff.mp mac with lower | upper
    · exact (chars_of_isMacText lower).1
    · exact (chars_of_isMacText upper).1
  simpa [toLower] using nonempty

/-! ### The fields of a row -/

theorem lookup_overlay (rule : Object) (keys : List Text) (row : Object)
    (k : Text) :
    (overlay rule keys row).lookup k =
      if k ∈ keys then (rule.lookup k).or (row.lookup k)
      else row.lookup k := by
  induction keys generalizing row with
  | nil => simp [overlay]
  | cons first rest induction =>
      cases found : rule.lookup first with
      | none =>
          have next : overlay rule (first :: rest) row =
              overlay rule rest row := by
            simp [overlay, found]
          rw [next, induction]
          by_cases same : k = first
          · subst same
            simp [found]
          · simp [same]
      | some v =>
          have next : overlay rule (first :: rest) row =
              overlay rule rest (row.insert first v) := by
            simp [overlay, found]
          rw [next, induction]
          by_cases same : k = first
          · subst same
            simp [found]
          · simp [same]

theorem lookup_fields (dev row : Object) (k : Text) :
    (dev.foldl (fun row k v => row.insert k v) row).lookup k =
      (dev.lookup k).or (row.lookup k) := by
  rw [lookup_foldl (fun row k v => row.insert k v) (fun _ v _ => some v)
    (fun map visited value key => lookup_insert_eq map key visited value)]
  cases dev.lookup k with
  | none => rfl
  | some v => rfl

variable {k : Text}

theorem lookup_named {name : Option Value} {row : Object}
    (hostname : k ≠ "hostname".toList) (src : k ≠ "hostname_src".toList) :
    (named name row).lookup k = row.lookup k := by
  unfold named
  split
  · split
    · rw [lookup_insert_eq, if_neg src, lookup_insert_eq, if_neg hostname]
    · rfl
  · rfl

/-- The name that is shown. -/
def shownName : Option Value → Option Text
  | some (.string nm) => if nm ≠ [] then some nm else none
  | _ => none

theorem lookup_hostname (name : Option Value) (row : Object) :
    (named name row).lookup "hostname".toList =
      ((shownName name).map Value.string).or
        (row.lookup "hostname".toList) := by
  have differ : "hostname".toList ≠ "hostname_src".toList := by decide
  cases name with
  | none => rfl
  | some value =>
      cases value with
      | string nm =>
          by_cases nonempty : nm ≠ []
          · simp only [named, shownName, if_pos nonempty]
            rfl
          · simp only [named, shownName, if_neg nonempty]
            rfl
      | _ => rfl

/-- The rule keys are none of the others. -/
theorem ruleKeys_differ (member : k ∈ ruleKeys) :
    k ≠ "mac".toList ∧ k ≠ "ip".toList ∧ k ≠ "hostname".toList ∧
      k ≠ "hostname_src".toList ∧ k ≠ "status".toList ∧
      k ≠ "online".toList ∧ k ≠ "rx_bps".toList ∧ k ≠ "tx_bps".toList := by
  have all : ruleKeys.all (fun k =>
      decide (k ≠ "mac".toList ∧ k ≠ "ip".toList ∧ k ≠ "hostname".toList ∧
        k ≠ "hostname_src".toList ∧ k ≠ "status".toList ∧
        k ≠ "online".toList ∧ k ≠ "rx_bps".toList ∧
        k ≠ "tx_bps".toList)) = true := by decide
  exact of_decide_eq_true (List.all_eq_true.mp all k member)

namespace Files

variable (files : Files)

/-- The rule that is stored under a key. -/
def ruleAt (key : Text) : Object :=
  ((files.deviceRules.lookup key).bind Value.asMap).getD ∅

theorem lookupOr_self (map : Object) (key : Text) :
    lookupOr map key key = map.lookup key := by
  unfold lookupOr
  cases map.lookup key with
  | none => rfl
  | some v => rfl

/-- The row of a device, from the row below the status. -/
theorem lookup_deviceRow (samples : Map Text RateSample) (now : Int) {mac : Text}
    (dev : Object) (online : k ≠ "online".toList) (rx : k ≠ "rx_bps".toList)
    (tx : k ≠ "tx_bps".toList) :
    (files.deviceRow samples now mac dev).1.lookup k =
      ((named (lookupOr files.namesMap mac (toLower mac))
        (files.laidRow mac dev)).insert "status".toList
          (statusText (toLower mac ∈ files.blSet))).lookup k := by
  simp only [deviceRow, mergedRow]
  rw [lookup_insert_eq, if_neg tx, lookup_insert_eq, if_neg rx,
    lookup_insert_eq, if_neg online]

section Device

variable (samples : Map Text RateSample) (now : Int) {mac : Text}
  (lower : toLower mac = mac) (dev : Object)

include lower

theorem lookup_laidRow (other : k ≠ "mac".toList) :
    (files.laidRow mac dev).lookup k =
      if k ∈ ruleKeys then ((files.ruleAt mac).lookup k).or (dev.lookup k)
      else dev.lookup k := by
  have base : (dev.foldl (fun row k v => row.insert k v)
      ((∅ : Object).insert "mac".toList (.string mac))).lookup k =
        dev.lookup k := by
    rw [lookup_fields, lookup_insert_eq, if_neg other]
    cases dev.lookup k with
    | none => rfl
    | some v => rfl
  rw [laidRow, ruleAt, lower, lookupOr_self]
  cases (files.deviceRules.lookup mac).bind Value.asMap with
  | none =>
      rw [base]
      simp
  | some rule =>
      rw [lookup_overlay, base]
      rfl

omit lower in
theorem mac_deviceRow :
    (files.deviceRow samples now mac dev).1.lookup "mac".toList =
      some ((dev.lookup "mac".toList).getD (.string mac)) := by
  have notRule : "mac".toList ∉ ruleKeys := by decide
  rw [lookup_deviceRow files samples now dev (by decide) (by decide) (by decide),
    lookup_insert_eq, lookup_named (by decide) (by decide), laidRow]
  have base : (dev.foldl (fun row k v => row.insert k v)
      ((∅ : Object).insert "mac".toList (.string mac))).lookup "mac".toList =
        some ((dev.lookup "mac".toList).getD (.string mac)) := by
    rw [lookup_fields, lookup_insert_eq]
    cases dev.lookup "mac".toList with
    | none => rfl
    | some v => rfl
  cases (lookupOr files.deviceRules mac (toLower mac)).bind Value.asMap with
  | none => exact base
  | some rule =>
      rw [lookup_overlay]
      exact base

theorem status_deviceRow :
    (files.deviceRow samples now mac dev).1.lookup "status".toList =
      some (statusText (mac ∈ files.blSet)) := by
  rw [lookup_deviceRow files samples now dev (by decide) (by decide)
    (by decide), lookup_insert_eq, if_pos rfl, lower]

theorem rule_deviceRow (member : k ∈ ruleKeys) :
    (files.deviceRow samples now mac dev).1.lookup k =
      ((files.ruleAt mac).lookup k).or (dev.lookup k) := by
  obtain ⟨notMac, _, hostname, src, status, online, rx, tx⟩ :=
    ruleKeys_differ member
  rw [lookup_deviceRow files samples now dev online rx tx, lookup_insert_eq,
    if_neg status, lookup_named hostname src,
    lookup_laidRow files lower dev notMac, if_pos member]

theorem hostname_deviceRow :
    (files.deviceRow samples now mac dev).1.lookup "hostname".toList =
      ((shownName (files.namesMap.lookup mac)).map Value.string).or
        (dev.lookup "hostname".toList) := by
  have notRule : "hostname".toList ∉ ruleKeys := by decide
  rw [lookup_deviceRow files samples now dev (by decide) (by decide)
    (by decide), lookup_insert_eq, if_neg (by decide), lookup_hostname,
    lookup_laidRow files lower dev (by decide), if_neg notRule, lower,
    lookupOr_self]

end Device

section RuleOnly

variable (mac : Text) (rule : Option Object)

theorem mac_ruleOnlyRow :
    (files.ruleOnlyRow mac rule).lookup "mac".toList = some (.string mac) := by
  have notRule : "mac".toList ∉ "ip".toList :: ruleKeys := by decide
  unfold ruleOnlyRow
  rw [lookup_insert_eq, lookup_named (by decide) (by decide)]
  cases rule with
  | none => rfl
  | some rule =>
      rw [lookup_overlay]
      rfl

theorem status_ruleOnlyRow :
    (files.ruleOnlyRow mac rule).lookup "status".toList =
      some (statusText (mac ∈ files.blSet)) := by
  unfold ruleOnlyRow
  rw [lookup_insert_eq, if_pos rfl]

theorem rule_ruleOnlyRow (rule : Object) {v : Value} (member : k ∈ ruleKeys)
    (found : rule.lookup k = some v) :
    (files.ruleOnlyRow mac (some rule)).lookup k = some v := by
  obtain ⟨_, _, hostname, src, status, _, _, _⟩ := ruleKeys_differ member
  unfold ruleOnlyRow
  rw [lookup_insert_eq, if_neg status, lookup_named hostname src,
    lookup_overlay, if_pos (List.mem_cons_of_mem _ member), found]
  rfl

theorem hostname_ruleOnlyRow {nm : Text} (nonempty : nm ≠ [])
    (found : lookupOr files.namesMap mac (toUpper mac) = some (.string nm)) :
    (files.ruleOnlyRow mac rule).lookup "hostname".toList =
      some (.string nm) := by
  unfold ruleOnlyRow
  rw [lookup_insert_eq, lookup_hostname, found]
  simp [shownName, nonempty]

end RuleOnly

end Files

end Httpd.DeviceList
