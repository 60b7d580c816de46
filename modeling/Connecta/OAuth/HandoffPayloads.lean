import Connecta.Http.CursorTokens
import Connecta.Results.ExactValues

/-!
# Payloads of connect links

A link carries its handoff as length-prefixed fields in unpadded base64url.  Lengths count
UTF-16 code units, so a field may hold any text, digits and colons included.
-/

namespace Connecta.HandoffPayload

open Connecta.Runtime
open Connecta.Runtime.JsString (ofAscii)
open Connecta.Http (base64urlText base64urlBytes decodeBase64url base64urlBytes_digits
  decodeBase64url_base64urlBytes urlUnit_digit utf8_lt)
open Connecta.Results (decimal ofDecimal decimal_head decimal_class decimal_ne_nil
  decimal_ofDecimal ofDecimal_decimal digitClass)

structure Handoff where
  connector : JsString
  owner : JsString
  principal : JsString
  origin : JsString
  expiresAt : Number
  nonce : JsString
  force : Bool
  /-- The first link of a forced flow; absent on that link. -/
  flow : Option JsString
  deriving DecidableEq

inductive HandoffFault where
  | field
  | length
  | fields
  | encoding
  /-- What `atob` throws. -/
  | base64
  /-- What a fatal `TextDecoder` throws. -/
  | utf8
  | noncanonical
  deriving DecidableEq

/-- The message of an error of this file. -/
def HandoffFault.message : HandoffFault → Option JsString
  | .field => some (ofAscii "Invalid handoff field")
  | .length => some (ofAscii "Invalid handoff length")
  | .fields => some (ofAscii "Invalid handoff fields")
  | .encoding => some (ofAscii "Invalid handoff encoding")
  | .base64 | .utf8 => none
  | .noncanonical => some (ofAscii "Noncanonical handoff encoding")

/-! ## Expiries -/

def base36Digit (value : ℕ) : CodeUnit :=
  if value < 10 then UInt16.ofNat (0x30 + value) else UInt16.ofNat (0x61 + (value - 10))

def base36 (number : ℕ) : JsString :=
  if number = 0 then [base36Digit 0] else (Nat.digits 36 number).reverse.map base36Digit

def base36Value (unit : CodeUnit) : ℕ :=
  if unit < 0x61 then unit.toNat - 0x30 else unit.toNat - 0x61 + 10

/-- `[0-9a-z]` -/
def base36Class (unit : CodeUnit) : Bool :=
  (0x30 ≤ unit && unit ≤ 0x39) || (0x61 ≤ unit && unit ≤ 0x7A)

/-- `parseInt(text, 36)`, of a text that is made of digits. -/
def parseInt36 (text : JsString) : Number :=
  .ofRat ((text.foldl (fun value unit => value * 36 + base36Value unit) 0 : ℕ) : ℚ)

/-- A safe integer that is not negative. -/
def wholeMillis : Number → Option ℕ
  | .finite value =>
      if value.den = 1 ∧ 0 ≤ value.num ∧ value.num < 2 ^ 53 then some value.num.toNat else none
  | _ => none

section

-- How `toString(36)` writes any other number is left to the platform.
variable (otherText : Number → JsString)

/-- `expiresAt.toString(36)` -/
def expiryText (expiresAt : Number) : JsString :=
  match wholeMillis expiresAt with
  | some millis => base36 millis
  | none => otherText expiresAt

/-! ## Fields -/

/-- `${field.length}:${field}` -/
def prefixed (field : JsString) : JsString := decimal field.length ++ ascii ':' :: field

def handoffFields (h : Handoff) : List JsString :=
  [h.connector, h.owner, h.principal, h.origin, expiryText otherText h.expiresAt, h.nonce,
    if h.force then ofAscii "1" else ofAscii "0", h.flow.getD []]

def encodeHandoff (h : Handoff) : JsString := (handoffFields otherText h).flatMap prefixed

end

/-- `/^(0|[1-9][0-9]*)$/` -/
def lengthText (text : JsString) : Bool :=
  match text with
  | [] => false
  | first :: rest =>
      (first = ascii '0' && rest = []) ||
        (0x31 ≤ first && first ≤ 0x39 && rest.all fun unit => 0x30 ≤ unit && unit ≤ 0x39)

/-- One field, and the text behind it. -/
def decodeField (value : JsString) : Except HandoffFault (JsString × JsString) :=
  match value.dropWhile (· ≠ ascii ':') with
  | [] => .error .field
  | _ :: behind =>
      let text := value.takeWhile (· ≠ ascii ':')
      if lengthText text = false then .error .field
      else
        let length := ofDecimal text
        -- A length that is no safe integer is beyond the end of every string.
        if behind.length < length then .error .length
        else .ok (behind.take length, behind.drop length)

/-- At most so many fields, and the text behind them. -/
def decodeFields : ℕ → JsString → Except HandoffFault (List JsString × JsString)
  | 0, value => .ok ([], value)
  | _ + 1, [] => .ok ([], [])
  | count + 1, unit :: units =>
      match decodeField (unit :: units) with
      | .error fault => .error fault
      | .ok (field, rest) =>
          match decodeFields count rest with
          | .error fault => .error fault
          | .ok (fields, rest) => .ok (field :: fields, rest)

def decodeHandoff (value : JsString) : Except HandoffFault Handoff :=
  match decodeFields 8 value with
  | .error fault => .error fault
  | .ok ([connector, owner, principal, origin, expiry, nonce, force, flow], []) =>
      if expiry = [] ∨ expiry.all base36Class = false ∨
          (force ≠ ofAscii "0" ∧ force ≠ ofAscii "1") then .error .fields
      else
        .ok
          { connector := connector
            owner := owner
            principal := principal
            origin := origin
            expiresAt := parseInt36 expiry
            nonce := nonce
            force := force = ofAscii "1"
            flow := if flow = [] then none else some flow }
  | .ok _ => .error .fields

/-! ## Segments -/

def encodeSegment (value : JsString) : JsString := base64urlText value

/-- `[A-Za-z0-9_-]` -/
def segmentClass (unit : CodeUnit) : Bool :=
  alphanumeric unit.toNat || unit = ascii '-' || unit = ascii '_'

def decodeSegment (value : JsString) : Except HandoffFault JsString :=
  if value = [] ∨ value.all segmentClass = false then .error .encoding
  else
    match decodeBase64url value with
    | none => .error .base64
    | some bytes =>
        match decodeText bytes with
        | none => .error .utf8
        | some decoded =>
            if encodeSegment decoded = value then .ok decoded else .error .noncanonical

/-! ## Digits -/

theorem lengthText_decimal (number : ℕ) : lengthText (decimal number) = true := by
  by_cases hzero : number = 0
  · rw [hzero]
    rfl
  have hhead := decimal_head (Nat.pos_of_ne_zero hzero)
  have hclass := decimal_class number
  cases hdecimal : decimal number with
  | nil => exact absurd hdecimal (decimal_ne_nil number)
  | cons first rest =>
      rw [hdecimal] at hhead hclass
      rw [List.head?_cons] at hhead
      obtain ⟨hfirst, hrest⟩ := List.forall_mem_cons.mp hclass
      have hnonzero : first ≠ ascii '0' := fun hsame => hhead (congrArg some hsame)
      have hlow : 0x31 ≤ first := by
        rw [digitClass, Bool.and_eq_true, decide_eq_true_eq, decide_eq_true_eq,
          UInt16.le_iff_toNat_le] at hfirst
        have hvalue : first.toNat ≠ 0x30 := fun hvalue => hnonzero (UInt16.toNat_inj.mp hvalue)
        rw [UInt16.le_iff_toNat_le]
        have hbound : 0x30 ≤ first.toNat := hfirst.1
        change 0x31 ≤ first.toNat
        omega
      rw [lengthText, Bool.or_eq_true, Bool.and_eq_true, Bool.and_eq_true, Bool.and_eq_true]
      rw [digitClass, Bool.and_eq_true] at hfirst
      exact .inr ⟨⟨decide_eq_true hlow, hfirst.2⟩, List.all_eq_true.mpr hrest⟩

/-- The text of a length is the decimal of its number. -/
theorem decimal_of_lengthText {text : JsString} (htext : lengthText text = true) :
    decimal (ofDecimal text) = text := by
  cases text with
  | nil => cases htext
  | cons first rest =>
      rw [lengthText, Bool.or_eq_true, Bool.and_eq_true, Bool.and_eq_true, Bool.and_eq_true]
        at htext
      rcases htext with ⟨hfirst, hrest⟩ | ⟨⟨hlow, hhigh⟩, hrest⟩
      · obtain rfl := of_decide_eq_true hfirst
        obtain rfl := of_decide_eq_true hrest
        rfl
      · have hlow := of_decide_eq_true hlow
        apply decimal_ofDecimal (List.cons_ne_nil first rest)
        · rw [List.forall_mem_cons]
          refine ⟨?_, List.all_eq_true.mp hrest⟩
          rw [Json.digit, Bool.and_eq_true]
          have hdigit : 0x30 ≤ first := UInt16.le_trans (by decide : (0x30 : CodeUnit) ≤ 0x31) hlow
          exact ⟨decide_eq_true hdigit, hhigh⟩
        · intro hzero
          obtain rfl := Option.some.inj hzero
          exact absurd hlow (by decide)

theorem base36Digit_back {value : ℕ} (hvalue : value < 36) :
    base36Class (base36Digit value) = true ∧ base36Value (base36Digit value) = value := by
  have hall : ∀ value < 36,
      base36Class (base36Digit value) = true ∧ base36Value (base36Digit value) = value := by
    decide
  exact hall value hvalue

theorem base36_ne_nil (number : ℕ) : base36 number ≠ [] := by
  rw [base36]
  split_ifs with hzero
  · exact List.cons_ne_nil _ _
  · rw [ne_eq, List.map_eq_nil_iff, List.reverse_eq_nil_iff]
    exact Nat.digits_ne_nil_iff_ne_zero.mpr hzero

theorem base36_class (number : ℕ) : (base36 number).all base36Class = true := by
  rw [List.all_eq_true]
  intro unit hunit
  rw [base36] at hunit
  split_ifs at hunit
  · rw [List.mem_singleton.mp hunit]
    rfl
  · obtain ⟨digit, hdigit, rfl⟩ := List.mem_map.mp hunit
    exact (base36Digit_back (Nat.digits_lt_base (by decide) (List.mem_reverse.mp hdigit))).1

theorem fold_base36 {digits : List ℕ} (hdigits : ∀ digit ∈ digits, digit < 36) :
    (digits.reverse.map base36Digit).foldl (fun value unit => value * 36 + base36Value unit) 0 =
      Nat.ofDigits 36 digits := by
  induction digits with
  | nil => rfl
  | cons digit rest ih =>
      obtain ⟨hdigit, hrest⟩ := List.forall_mem_cons.mp hdigits
      rw [List.reverse_cons, List.map_append, List.foldl_append, ih hrest, Nat.ofDigits_cons]
      change Nat.ofDigits 36 rest * 36 + base36Value (base36Digit digit) = _
      rw [(base36Digit_back hdigit).2]
      omega

/-- A safe integer is read back from its digits. -/
theorem parseInt36_base36 {number : ℕ} (hnumber : number < 2 ^ 53) :
    parseInt36 (base36 number) = .finite number := by
  have hfold : (base36 number).foldl (fun value unit => value * 36 + base36Value unit) 0 =
      number := by
    rw [base36]
    split_ifs with hzero
    · rw [hzero]
      rfl
    · rw [fold_base36 fun digit hdigit => Nat.digits_lt_base (by decide) hdigit,
        Nat.ofDigits_digits]
  have hwhole : |(number : ℤ)| ≤ 2 ^ 53 := by
    rw [Nat.abs_cast]
    exact_mod_cast hnumber.le
  rw [parseInt36, hfold]
  exact_mod_cast Number.ofRat_intCast hwhole

theorem wholeMillis_natCast {number : ℕ} (hnumber : number < 2 ^ 53) :
    wholeMillis (.finite number) = some number := by
  have hnum : (number : ℚ).num = number := Rat.num_natCast number
  have hsafe : (number : ℚ).den = 1 ∧ 0 ≤ (number : ℚ).num ∧ (number : ℚ).num < 2 ^ 53 := by
    rw [hnum]
    exact ⟨Rat.den_natCast number, Int.natCast_nonneg number, by exact_mod_cast hnumber⟩
  rw [wholeMillis, if_pos hsafe, hnum, Int.toNat_natCast]

/-! ## Fields -/

theorem takeWhile_decimal (number : ℕ) (rest : JsString) :
    (decimal number ++ ascii ':' :: rest).takeWhile (· ≠ ascii ':') = decimal number ∧
      (decimal number ++ ascii ':' :: rest).dropWhile (· ≠ ascii ':') = ascii ':' :: rest := by
  have hdigits : ∀ unit ∈ decimal number, decide (unit ≠ ascii ':') = true := by
    intro unit hunit
    have hclass := decimal_class number unit hunit
    apply decide_eq_true
    rintro rfl
    exact absurd hclass (by decide)
  constructor
  · rw [List.takeWhile_append_of_pos hdigits, List.takeWhile_cons_of_neg (by decide),
      List.append_nil]
  · rw [List.dropWhile_append_of_pos hdigits, List.dropWhile_cons_of_neg (by decide)]

/-- A field is read back, whatever stands behind it. -/
theorem decodeField_prefixed (field rest : JsString) :
    decodeField (prefixed field ++ rest) = .ok (field, rest) := by
  obtain ⟨htake, hdrop⟩ := takeWhile_decimal field.length (field ++ rest)
  have hsplit : prefixed field ++ rest =
      decimal field.length ++ ascii ':' :: (field ++ rest) := List.append_assoc _ _ _
  have hlength : ¬(field ++ rest).length < field.length := by
    rw [List.length_append]
    exact Nat.not_lt.mpr (Nat.le_add_right _ _)
  rw [decodeField, hsplit, hdrop]
  dsimp only
  rw [htake, if_neg (by rw [lengthText_decimal]; exact Bool.noConfusion), ofDecimal_decimal,
    if_neg hlength, List.take_left, List.drop_left]

/-- A field that is read is the field in front of the text. -/
theorem eq_of_decodeField {value field rest : JsString}
    (hread : decodeField value = .ok (field, rest)) : value = prefixed field ++ rest := by
  rw [decodeField] at hread
  have hvalue : value.takeWhile (· ≠ ascii ':') ++ value.dropWhile (· ≠ ascii ':') = value :=
    List.takeWhile_append_dropWhile
  cases hdrop : value.dropWhile (· ≠ ascii ':') with
  | nil =>
      rw [hdrop] at hread
      cases hread
  | cons colon behind =>
      have hcolon : colon = ascii ':' := by
        have hhead := List.head?_dropWhile_not (· ≠ ascii ':') value
        rw [hdrop] at hhead
        simpa using hhead
      rw [hdrop] at hread hvalue
      dsimp only at hread
      split_ifs at hread with htext hlength
      obtain ⟨rfl, rfl⟩ := Prod.mk.inj (Except.ok.inj hread)
      have htext := decimal_of_lengthText (Bool.not_eq_false _ ▸ htext)
      rw [prefixed, List.length_take, min_eq_left (Nat.le_of_not_lt hlength), htext,
        List.append_assoc, List.cons_append, List.take_append_drop]
      rw [hcolon] at hvalue
      exact hvalue.symm

theorem prefixed_ne_nil (field : JsString) : prefixed field ≠ [] :=
  List.append_ne_nil_of_right_ne_nil _ (List.cons_ne_nil _ _)

theorem decodeFields_flatMap (fields : List JsString) (rest : JsString) :
    decodeFields fields.length (fields.flatMap prefixed ++ rest) = .ok (fields, rest) := by
  induction fields with
  | nil => rfl
  | cons field fields ih =>
      have hfield := decodeField_prefixed field (fields.flatMap prefixed ++ rest)
      rw [List.flatMap_cons, List.append_assoc, List.length_cons]
      cases htext : prefixed field ++ (fields.flatMap prefixed ++ rest) with
      | nil => exact absurd (List.append_eq_nil_iff.mp htext).1 (prefixed_ne_nil field)
      | cons unit units =>
          rw [htext] at hfield
          rw [decodeFields, hfield]
          dsimp only
          rw [ih]

theorem eq_of_decodeFields {count : ℕ} {value rest : JsString} {fields : List JsString}
    (hread : decodeFields count value = .ok (fields, rest)) :
    value = fields.flatMap prefixed ++ rest := by
  induction count generalizing value fields with
  | zero =>
      obtain ⟨rfl, rfl⟩ := Prod.mk.inj (Except.ok.inj hread)
      rfl
  | succ count ih =>
      cases value with
      | nil =>
          obtain ⟨rfl, rfl⟩ := Prod.mk.inj (Except.ok.inj hread)
          rfl
      | cons unit units =>
          rw [decodeFields] at hread
          cases hfield : decodeField (unit :: units) with
          | error fault =>
              rw [hfield] at hread
              cases hread
          | ok found =>
              obtain ⟨field, behind⟩ := found
              rw [hfield] at hread
              dsimp only at hread
              cases hfields : decodeFields count behind with
              | error fault =>
                  rw [hfields] at hread
                  cases hread
              | ok later =>
                  obtain ⟨others, left⟩ := later
                  rw [hfields] at hread
                  obtain ⟨rfl, rfl⟩ := Prod.mk.inj (Except.ok.inj hread)
                  rw [eq_of_decodeField hfield, ih hfields, List.flatMap_cons,
                    List.append_assoc]

/-! ## Handoffs -/

/-- A handoff as a link carries it. -/
structure Handoff.Sendable (h : Handoff) : Prop where
  connector : h.connector.wellFormed = true
  owner : h.owner.wellFormed = true
  principal : h.principal.wellFormed = true
  origin : h.origin.wellFormed = true
  expiresAt : ∃ millis : ℕ, millis < 2 ^ 53 ∧ h.expiresAt = .finite millis
  nonce : h.nonce.wellFormed = true
  flow : ∀ flow ∈ h.flow, flow.wellFormed = true ∧ flow ≠ []

section

variable {otherText : Number → JsString} {h : Handoff}

theorem decodeFields_encodeHandoff (h : Handoff) :
    decodeFields 8 (encodeHandoff otherText h) = .ok (handoffFields otherText h, []) := by
  have hread := decodeFields_flatMap (handoffFields otherText h) []
  rw [List.append_nil] at hread
  exact hread

theorem flow_back {flow : Option JsString} (hflow : ∀ text ∈ flow, text ≠ []) :
    (if flow.getD [] = [] then none else some (flow.getD [])) = flow := by
  cases flow with
  | none => rfl
  | some text => exact if_neg (hflow text rfl)

theorem decodeHandoff_encodeHandoff (hsendable : h.Sendable) :
    decodeHandoff (encodeHandoff otherText h) = .ok h := by
  obtain ⟨millis, hmillis, hexpiresAt⟩ := hsendable.expiresAt
  have hexpiry : expiryText otherText h.expiresAt = base36 millis := by
    rw [hexpiresAt, expiryText, wholeMillis_natCast hmillis]
  have hread := @decodeFields_encodeHandoff otherText h
  rw [handoffFields, hexpiry] at hread
  have hkept : ¬(base36 millis = [] ∨ (base36 millis).all base36Class = false ∨
      ((if h.force then ofAscii "1" else ofAscii "0") ≠ ofAscii "0" ∧
        (if h.force then ofAscii "1" else ofAscii "0") ≠ ofAscii "1")) := by
    rw [base36_class]
    rintro (hempty | hclass | ⟨hzero, hone⟩)
    · exact base36_ne_nil millis hempty
    · cases hclass
    · cases hforce : h.force with
      | true => exact hone (if_pos hforce)
      | false => exact hzero (if_neg (Bool.eq_false_iff.mp hforce))
  have hforce : decide ((if h.force then ofAscii "1" else ofAscii "0") = ofAscii "1") =
      h.force := by
    cases h.force with
    | true => rfl
    | false => rfl
  rw [decodeHandoff, hread]
  dsimp only
  rw [if_neg hkept, parseInt36_base36 hmillis, hforce,
    flow_back fun text htext => (hsendable.flow text htext).2, ← hexpiresAt]

/-- What is accepted is eight fields and nothing else, and they are those of the handoff. -/
theorem fields_of_decodeHandoff {value : JsString} (hread : decodeHandoff value = .ok h) :
    ∃ expiry, value = [h.connector, h.owner, h.principal, h.origin, expiry, h.nonce,
      if h.force then ofAscii "1" else ofAscii "0", h.flow.getD []].flatMap prefixed := by
  rw [decodeHandoff] at hread
  split at hread
  · cases hread
  · rename_i connector owner principal origin expiry nonce force flow hfields
    have hvalue := eq_of_decodeFields hfields
    rw [List.append_nil] at hvalue
    by_cases hrefused : expiry = [] ∨ expiry.all base36Class = false ∨
        (force ≠ ofAscii "0" ∧ force ≠ ofAscii "1")
    · rw [if_pos hrefused] at hread
      cases hread
    rw [if_neg hrefused] at hread
    obtain rfl := Except.ok.inj hread
    have hforce : (if decide (force = ofAscii "1") then ofAscii "1" else ofAscii "0") =
        force := by
      by_cases hone : force = ofAscii "1"
      · rw [hone]
        rfl
      · rw [if_neg (fun htrue => hone (of_decide_eq_true htrue))]
        by_contra hzero
        exact hrefused (.inr (.inr ⟨Ne.symm hzero, hone⟩))
    have hflow : (if flow = [] then none else some flow).getD [] = flow := by
      split_ifs with hempty
      · exact hempty.symm
      · rfl
    refine ⟨expiry, ?_⟩
    dsimp only
    rw [hforce, hflow]
    exact hvalue
  · cases hread

end

/-! ## Well-formed texts -/

theorem wellFormed_of_le {text : JsString} (htext : ∀ unit ∈ text, unit ≤ 0x7A) :
    text.wellFormed = true := by
  apply Json.wellFormed_of_whole
  intro unit hunit
  have hbound : unit.toNat ≤ 0x7A := UInt16.le_iff_toNat_le.mp (htext unit hunit)
  rw [Json.whole, JsString.lone, Bool.not_eq_true', Bool.and_eq_false_iff]
  apply Or.inl
  rw [decide_eq_false_iff_not]
  exact fun hlone => absurd (hlone.trans hbound) (by decide)

theorem wellFormed_prefixed {field : JsString} (hfield : field.wellFormed = true) :
    (prefixed field).wellFormed = true := by
  have hlength : (decimal field.length).wellFormed = true := by
    apply wellFormed_of_le
    intro unit hunit
    have hclass := decimal_class field.length unit hunit
    rw [digitClass, Bool.and_eq_true] at hclass
    exact UInt16.le_trans (of_decide_eq_true hclass.2) (by decide)
  have hcolon : JsString.wellFormed [ascii ':'] = true := by decide
  exact Json.wellFormed_append hlength (Json.wellFormed_append hcolon hfield)

theorem wellFormed_flatMap_prefixed {fields : List JsString}
    (hfields : ∀ field ∈ fields, field.wellFormed = true) :
    JsString.wellFormed (fields.flatMap prefixed) = true := by
  induction fields with
  | nil => rfl
  | cons field rest ih =>
      obtain ⟨hfield, hrest⟩ := List.forall_mem_cons.mp hfields
      rw [List.flatMap_cons]
      exact Json.wellFormed_append (wellFormed_prefixed hfield) (ih hrest)

theorem wellFormed_base36 (number : ℕ) : (base36 number).wellFormed = true := by
  apply wellFormed_of_le
  intro unit hunit
  have hclass := List.all_eq_true.mp (base36_class number) unit hunit
  rw [base36Class, Bool.or_eq_true, Bool.and_eq_true, Bool.and_eq_true] at hclass
  rcases hclass with ⟨_, hdigit⟩ | ⟨_, hletter⟩
  · exact UInt16.le_trans (of_decide_eq_true hdigit) (by decide)
  · exact of_decide_eq_true hletter

theorem wellFormed_encodeHandoff {otherText : Number → JsString} {h : Handoff}
    (hsendable : h.Sendable) : (encodeHandoff otherText h).wellFormed = true := by
  obtain ⟨millis, hmillis, hexpiresAt⟩ := hsendable.expiresAt
  have hexpiry : expiryText otherText h.expiresAt = base36 millis := by
    rw [hexpiresAt, expiryText, wholeMillis_natCast hmillis]
  have hforce : JsString.wellFormed (if h.force then ofAscii "1" else ofAscii "0") = true := by
    cases h.force with
    | true => decide
    | false => decide
  have hflow : JsString.wellFormed (h.flow.getD []) = true := by
    cases hflow : h.flow with
    | none => rfl
    | some flow => exact (hsendable.flow flow hflow).1
  apply wellFormed_flatMap_prefixed
  rw [handoffFields, hexpiry]
  simp only [List.forall_mem_cons]
  exact ⟨hsendable.connector, hsendable.owner, hsendable.principal, hsendable.origin,
    wellFormed_base36 millis, hsendable.nonce, hforce, hflow,
    fun field hfield => absurd hfield List.not_mem_nil⟩

theorem encodeHandoff_ne_nil (otherText : Number → JsString) (h : Handoff) :
    encodeHandoff otherText h ≠ [] := by
  rw [encodeHandoff, handoffFields, List.flatMap_cons]
  exact List.append_ne_nil_of_left_ne_nil (prefixed_ne_nil _) _

/-! ## Segments -/

theorem encodeSegment_spec {text : JsString} (htext : text.wellFormed = true) (hne : text ≠ []) :
    encodeSegment text ≠ [] ∧ (encodeSegment text).all segmentClass = true ∧
      decodeBase64url (encodeSegment text) = some text.utf8 := by
  obtain ⟨digits, hunits, hdigits, hdecoded, -, -⟩ := base64urlBytes_digits (utf8_lt htext)
  refine ⟨?_, ?_, decodeBase64url_base64urlBytes (utf8_lt htext)⟩
  · rw [encodeSegment, base64urlText, hunits, ne_eq, List.map_eq_nil_iff]
    rintro rfl
    exact utf8_ne_nil htext hne (Option.some.inj hdecoded).symm
  · rw [encodeSegment, base64urlText, hunits, List.all_eq_true]
    intro unit hunit
    obtain ⟨digit, hdigit, rfl⟩ := List.mem_map.mp hunit
    obtain ⟨value, hvalue, rfl⟩ := hdigits digit hdigit
    exact (urlUnit_digit hvalue).2.2

/-- A segment is read exactly where it is written, and then as what it was written of. -/
theorem decodeSegment_ok_iff {segment text : JsString} :
    decodeSegment segment = .ok text ↔
      text ≠ [] ∧ text.wellFormed = true ∧ segment = encodeSegment text := by
  constructor
  · intro hread
    rw [decodeSegment] at hread
    by_cases hclass : segment = [] ∨ segment.all segmentClass = false
    · rw [if_pos hclass] at hread
      cases hread
    rw [if_neg hclass] at hread
    cases hbytes : decodeBase64url segment with
    | none =>
        rw [hbytes] at hread
        cases hread
    | some bytes =>
        rw [hbytes] at hread
        dsimp only at hread
        cases htext : decodeText bytes with
        | none =>
            rw [htext] at hread
            cases hread
        | some decoded =>
            rw [htext] at hread
            dsimp only at hread
            split_ifs at hread with hsame
            obtain rfl := Except.ok.inj hread
            refine ⟨?_, wellFormed_decodeText htext, hsame.symm⟩
            rintro rfl
            exact hclass (.inl hsame.symm)
  · rintro ⟨hne, hwellFormed, rfl⟩
    obtain ⟨hsegment, hclass, hbytes⟩ := encodeSegment_spec hwellFormed hne
    have hkept : ¬(encodeSegment text = [] ∨ (encodeSegment text).all segmentClass = false) := by
      rw [hclass]
      rintro (hempty | hfalse)
      · exact hsegment hempty
      · cases hfalse
    rw [decodeSegment, if_neg hkept, hbytes]
    dsimp only
    rw [decodeText_utf8 hwellFormed]
    exact if_pos rfl

/-! ## Payloads -/

/-- A handoff is read back from its payload, and no two share one; what is accepted is eight
length-prefixed fields and nothing else, and a segment is accepted in one spelling. -/
theorem payload_decodes_exactly (otherText : Number → JsString) :
    (∀ h : Handoff, h.Sendable →
      (decodeSegment (encodeSegment (encodeHandoff otherText h))).bind decodeHandoff = .ok h) ∧
    (∀ left right : Handoff, left.Sendable → right.Sendable →
      encodeSegment (encodeHandoff otherText left) =
        encodeSegment (encodeHandoff otherText right) → left = right) ∧
    (∀ (value : JsString) (h : Handoff), decodeHandoff value = .ok h →
      ∃ fields : List JsString, fields.length = 8 ∧ value = fields.flatMap prefixed) ∧
    ∀ segment text : JsString, decodeSegment segment = .ok text ↔
      text ≠ [] ∧ text.wellFormed = true ∧ segment = encodeSegment text := by
  have hback (h : Handoff) (hsendable : h.Sendable) :
      (decodeSegment (encodeSegment (encodeHandoff otherText h))).bind decodeHandoff = .ok h := by
    rw [decodeSegment_ok_iff.mpr ⟨encodeHandoff_ne_nil otherText h,
      wellFormed_encodeHandoff hsendable, rfl⟩]
    exact decodeHandoff_encodeHandoff hsendable
  refine ⟨hback, ?_, ?_, ?_⟩
  · intro left right hleft hright hsame
    have hread := hback left hleft
    rw [hsame, hback right hright] at hread
    exact (Except.ok.inj hread).symm
  · intro value h hread
    obtain ⟨expiry, hvalue⟩ := fields_of_decodeHandoff hread
    exact ⟨_, rfl, hvalue⟩
  · intro segment text
    exact decodeSegment_ok_iff

/-- A handoff whose fields hold digits, colons and nothing. -/
def plainHandoff : Handoff where
  connector := ofAscii "1:a"
  owner := []
  principal := ofAscii "0:"
  origin := ofAscii "https://gate.example"
  expiresAt := .finite (1700000000000 : ℕ)
  nonce := ofAscii "n:1"
  force := true
  flow := some (ofAscii "f")

theorem payload_decodes_exactly_plain :
    (decodeSegment (encodeSegment (encodeHandoff (fun _ => []) plainHandoff))).bind
      decodeHandoff = .ok plainHandoff := by
  apply (payload_decodes_exactly fun _ => []).1
  exact
    { connector := by decide
      owner := by decide
      principal := by decide
      origin := by decide
      expiresAt := ⟨1700000000000, by decide, rfl⟩
      nonce := by decide
      flow := fun flow hflow => by
        obtain rfl := Option.some.inj hflow
        exact ⟨by decide, by decide⟩ }

end Connecta.HandoffPayload
