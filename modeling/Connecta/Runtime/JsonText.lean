import Mathlib.Tactic.IntervalCases
import Connecta.Runtime.Json
import Connecta.Runtime.Utf8

/-!
# JSON texts read back

What `JSON.stringify` writes, `JSON.parse` reads back, so a text spells one value.
The text is well formed whatever its strings hold, since a surrogate without its
partner is escaped.
-/

namespace Connecta.Runtime

namespace Json

/-! ## Strings -/

def lowerHex (value : ℕ) : CodeUnit :=
  UInt16.ofNat (if value < 10 then 0x30 + value else 0x61 + (value - 10))

theorem hexValue_lowerHex {value : ℕ} (hvalue : value < 16) :
    hexValue (lowerHex value) = some value := by
  interval_cases value <;> decide

theorem unicodeEscape_eq (unit : CodeUnit) :
    unicodeEscape unit = [ascii '\\', ascii 'u', lowerHex (unit.toNat / 0x1000),
      lowerHex (unit.toNat / 0x100 % 0x10), lowerHex (unit.toNat / 0x10 % 0x10),
      lowerHex (unit.toNat % 0x10)] := rfl

theorem hexUnit_lowerHex (unit : CodeUnit) :
    hexUnit (lowerHex (unit.toNat / 0x1000)) (lowerHex (unit.toNat / 0x100 % 0x10))
      (lowerHex (unit.toNat / 0x10 % 0x10)) (lowerHex (unit.toNat % 0x10)) =
        some unit := by
  have hlt : unit.toNat < 0x10000 := unit.toNat_lt
  rw [hexUnit, hexValue_lowerHex (by omega), hexValue_lowerHex (by omega),
    hexValue_lowerHex (by omega), hexValue_lowerHex (by omega)]
  have hvalue : ((unit.toNat / 0x1000 * 16 + unit.toNat / 0x100 % 0x10) * 16 +
      unit.toNat / 0x10 % 0x10) * 16 + unit.toNat % 0x10 = unit.toNat := by omega
  dsimp only
  rw [hvalue, UInt16.ofNat_toNat]

theorem stringRest_unicodeEscape (unit : CodeUnit) (rest : JsString) :
    stringRest (unicodeEscape unit ++ rest) =
      (stringRest rest).map fun found => (unit :: found.1, found.2) := by
  rw [unicodeEscape_eq]
  simp only [List.cons_append, List.nil_append]
  rw [stringRest, if_neg (by decide), if_neg (by decide), if_neg (by decide), if_pos rfl,
    hexUnit_lowerHex]

/-- A unit that stands for itself in a string. -/
def plain (unit : CodeUnit) : Prop :=
  unit ≠ ascii '"' ∧ ¬unit < 0x20 ∧ unit ≠ ascii '\\'

theorem stringRest_plain {unit : CodeUnit} (hplain : plain unit) (rest : JsString) :
    stringRest (unit :: rest) =
      (stringRest rest).map fun found => (unit :: found.1, found.2) := by
  rw [stringRest.eq_def]
  dsimp only
  rw [if_neg hplain.1, if_neg hplain.2.1, if_pos hplain.2.2]

theorem stringRest_short {escape unit : CodeUnit} (hescape : escape ≠ ascii 'u')
    (hunit : escaped escape = some unit) (rest : JsString) :
    stringRest (ascii '\\' :: escape :: rest) =
      (stringRest rest).map fun found => (unit :: found.1, found.2) := by
  rw [stringRest.eq_def]
  dsimp only
  rw [if_neg (by decide), if_neg (by decide), if_neg (by decide), if_neg hescape, hunit]

theorem stringRest_quoteUnit (unit : CodeUnit) (rest : JsString) :
    stringRest (quoteUnit unit ++ rest) =
      (stringRest rest).map fun found => (unit :: found.1, found.2) := by
  rw [quoteUnit]
  split_ifs with hself hback htab hline hform hreturn hcontrol
  · simp only [Bool.or_eq_true, decide_eq_true_eq] at hself
    apply stringRest_short
    · rcases hself with rfl | rfl <;> decide
    · rcases hself with rfl | rfl <;> decide
  · subst hback
    exact stringRest_short (by decide) (by decide) rest
  · subst htab
    exact stringRest_short (by decide) (by decide) rest
  · subst hline
    exact stringRest_short (by decide) (by decide) rest
  · subst hform
    exact stringRest_short (by decide) (by decide) rest
  · subst hreturn
    exact stringRest_short (by decide) (by decide) rest
  · exact stringRest_unicodeEscape unit rest
  · simp only [Bool.or_eq_true, decide_eq_true_eq, not_or] at hself
    exact stringRest_plain ⟨hself.1, hcontrol, hself.2⟩ rest

theorem plain_of_surrogate {unit : CodeUnit} (hunit : 0xD800 ≤ unit) : plain unit := by
  refine ⟨?_, ?_, ?_⟩
  · rintro rfl
    exact absurd hunit (by decide)
  · intro hlt
    exact absurd (UInt16.lt_of_le_of_lt hunit hlt) (by decide)
  · rintro rfl
    exact absurd hunit (by decide)

theorem stringRest_quote (rest : JsString) :
    stringRest (ascii '"' :: rest) = some ([], rest) := by
  rw [stringRest.eq_def]
  exact if_pos rfl

/-- A quoted string is read back up to its quote. -/
theorem stringRest_quoteUnits (text rest : JsString) :
    stringRest (quoteUnits text ++ ascii '"' :: rest) = some (text, rest) := by
  fun_induction quoteUnits text with
  | case1 => exact stringRest_quote rest
  | case2 unit =>
      rw [stringRest_unicodeEscape, stringRest_quote]
      rfl
  | case3 unit =>
      rw [stringRest_quoteUnit, stringRest_quote]
      rfl
  | case4 high low tail hpair ih =>
      simp only [JsString.highSurrogate, JsString.lowSurrogate, Bool.and_eq_true,
        decide_eq_true_eq] at hpair
      have hlow : (0xD800 : CodeUnit) ≤ low :=
        UInt16.le_trans (by decide) hpair.2.1
      rw [List.cons_append, List.cons_append, stringRest_plain (plain_of_surrogate hpair.1.1),
        stringRest_plain (plain_of_surrogate hlow), ih]
      rfl
  | case5 high low tail hpair hlone ih =>
      rw [List.append_assoc, stringRest_unicodeEscape, ih]
      rfl
  | case6 high low tail hpair hlone ih =>
      rw [List.append_assoc, stringRest_quoteUnit, ih]
      rfl

theorem quote_append (text rest : JsString) :
    quote text ++ rest = ascii '"' :: (quoteUnits text ++ ascii '"' :: rest) := by
  simp [quote]

/-! ## Numbers -/

/-- What follows a value in a text. -/
def Delimited (rest : JsString) : Prop :=
  ∀ unit ∈ rest.head?, unit = ascii ',' ∨ unit = ascii ']' ∨ unit = 0x7D

theorem delimited_nil : Delimited [] := fun _ hmem => by cases hmem

theorem delimited_cons {unit : CodeUnit} (rest : JsString)
    (hunit : unit = ascii ',' ∨ unit = ascii ']' ∨ unit = 0x7D) :
    Delimited (unit :: rest) := by
  intro other hother
  obtain rfl := Option.some.inj hother
  exact hunit

variable {text found left rest : JsString}

/-- A delimiter is no part of a number. -/
theorem Delimited.cases (hdelimited : Delimited rest) :
    rest = [] ∨ ∃ unit tail, rest = unit :: tail ∧ digit unit = false ∧
      unit ≠ ascii '.' ∧ (unit = ascii 'e' || unit = ascii 'E') = false := by
  cases rest with
  | nil => exact .inl rfl
  | cons unit tail =>
      refine .inr ⟨unit, tail, rfl, ?_⟩
      rcases hdelimited unit rfl with rfl | rfl | rfl <;> decide

theorem takeWhile_delimited (hdelimited : Delimited rest) (text : JsString) :
    (text ++ rest).takeWhile digit = text.takeWhile digit ∧
      (text ++ rest).dropWhile digit = text.dropWhile digit ++ rest := by
  induction text with
  | nil =>
      rcases hdelimited.cases with rfl | ⟨unit, tail, rfl, hdigit, -⟩
      · exact ⟨rfl, rfl⟩
      · simp [hdigit]
  | cons unit text ih =>
      rw [List.cons_append, List.takeWhile_cons, List.takeWhile_cons, List.dropWhile_cons,
        List.dropWhile_cons]
      split_ifs
      · exact ⟨congrArg _ ih.1, ih.2⟩
      · exact ⟨rfl, rfl⟩

theorem digits_append (hdelimited : Delimited rest)
    (hdigits : digits text = some (found, left)) :
    digits (text ++ rest) = some (found, left ++ rest) := by
  obtain ⟨htake, hdrop⟩ := takeWhile_delimited hdelimited text
  rw [digits] at hdigits ⊢
  rw [htake, hdrop]
  split_ifs at hdigits ⊢
  obtain ⟨rfl, rfl⟩ := Prod.mk.inj (Option.some.inj hdigits)
  rfl

theorem integerPart_append (hdelimited : Delimited rest)
    (hread : integerPart text = some (found, left)) :
    integerPart (text ++ rest) = some (found, left ++ rest) := by
  cases text with
  | nil => cases hread
  | cons unit text =>
      rw [integerPart] at hread
      rw [List.cons_append, integerPart]
      split_ifs at hread ⊢
      · obtain ⟨rfl, rfl⟩ := Prod.mk.inj (Option.some.inj hread)
        rfl
      · exact digits_append hdelimited hread

theorem map_append {first second : JsString × JsString → JsString × JsString}
    {read : JsString → Option (JsString × JsString)}
    (happend : ∀ found left, read text = some (found, left) →
      read (text ++ rest) = some (found, left ++ rest))
    (hfirst : ∀ found left, second (found, left ++ rest) =
      ((first (found, left)).1, (first (found, left)).2 ++ rest))
    (hread : (read text).map first = some (found, left)) :
    (read (text ++ rest)).map second = some (found, left ++ rest) := by
  obtain ⟨⟨found', left'⟩, hread', heq⟩ := Option.map_eq_some_iff.mp hread
  rw [happend found' left' hread', Option.map_some, hfirst, heq]

theorem fraction_append (hdelimited : Delimited rest)
    (hread : fraction text = some (found, left)) :
    fraction (text ++ rest) = some (found, left ++ rest) := by
  cases text with
  | nil =>
      obtain ⟨rfl, rfl⟩ := Prod.mk.inj (Option.some.inj hread)
      rcases hdelimited.cases with rfl | ⟨unit, tail, rfl, -, hdot, -⟩
      · rfl
      · exact if_neg hdot
  | cons unit text =>
      rw [fraction] at hread
      rw [List.cons_append, fraction]
      split_ifs at hread ⊢
      · exact map_append (fun _ _ => digits_append hdelimited) (fun _ _ => rfl) hread
      · obtain ⟨rfl, rfl⟩ := Prod.mk.inj (Option.some.inj hread)
        rfl

theorem exponent_append (hdelimited : Delimited rest)
    (hread : exponent text = some (found, left)) :
    exponent (text ++ rest) = some (found, left ++ rest) := by
  cases text with
  | nil =>
      obtain ⟨rfl, rfl⟩ := Prod.mk.inj (Option.some.inj hread)
      rcases hdelimited.cases with rfl | ⟨unit, tail, rfl, -, -, hpower⟩
      · rfl
      · rw [List.nil_append, exponent.eq_def]
        exact if_neg (by rw [hpower]; exact Bool.false_ne_true)
  | cons unit text =>
      rw [exponent.eq_def] at hread
      rw [List.cons_append, exponent.eq_def]
      dsimp only at hread ⊢
      split_ifs at hread ⊢
      · cases text with
        | nil => cases hread
        | cons sign after =>
            dsimp only [List.cons_append] at hread ⊢
            split_ifs at hread ⊢
            · exact map_append (fun _ _ => digits_append hdelimited) (fun _ _ => rfl) hread
            · exact map_append (fun _ _ => @digits_append (sign :: after) _ _ _ hdelimited)
                (fun _ _ => rfl) hread
      · obtain ⟨rfl, rfl⟩ := Prod.mk.inj (Option.some.inj hread)
        rfl

theorem unsigned_append (hdelimited : Delimited rest)
    (hread : unsigned text = some (found, left)) :
    unsigned (text ++ rest) = some (found, left ++ rest) := by
  rw [unsigned] at hread ⊢
  cases hwhole : integerPart text with
  | none =>
      rw [hwhole] at hread
      cases hread
  | some whole =>
      rw [hwhole] at hread
      rw [@integerPart_append text whole.1 whole.2 rest hdelimited hwhole]
      dsimp only at hread ⊢
      cases hpart : fraction whole.2 with
      | none =>
          rw [hpart] at hread
          cases hread
      | some part =>
          rw [hpart] at hread
          rw [@fraction_append whole.2 part.1 part.2 rest hdelimited hpart]
          exact map_append (fun _ _ => exponent_append hdelimited) (fun _ _ => rfl) hread

/-- A number spelled to its end is read up to a delimiter. -/
theorem numberLexeme_append (hdelimited : Delimited rest)
    (hread : numberLexeme text = some (found, left)) :
    numberLexeme (text ++ rest) = some (found, left ++ rest) := by
  cases text with
  | nil => cases hread
  | cons unit text =>
      rw [numberLexeme] at hread
      rw [List.cons_append, numberLexeme]
      split_ifs at hread ⊢
      · exact map_append (fun _ _ => unsigned_append hdelimited) (fun _ _ => rfl) hread
      · exact unsigned_append hdelimited hread

theorem numberLexeme_head {lexeme : JsString} (hread : numberLexeme lexeme = some (found, left)) :
    ∃ unit tail, lexeme = unit :: tail ∧ (unit = ascii '-' || digit unit) = true := by
  cases lexeme with
  | nil => cases hread
  | cons unit tail =>
      refine ⟨unit, tail, rfl, ?_⟩
      rw [numberLexeme] at hread
      split_ifs at hread with hminus
      · simp [hminus]
      · rw [unsigned, integerPart] at hread
        split_ifs at hread with hzero
        · simp [hzero, digit]
          decide
        · rw [digits, List.takeWhile_cons] at hread
          split_ifs at hread with hdigit
          · simp [hdigit]
          · exact absurd rfl ‹¬[] = []›

theorem ne_of_numberHead {unit other : CodeUnit}
    (hunit : (unit = ascii '-' || digit unit) = true)
    (hother : (other = ascii '-' || digit other) = false) : unit ≠ other := by
  rintro rfl
  rw [hunit] at hother
  cases hother

theorem whitespace_numberHead {unit : CodeUnit}
    (hunit : (unit = ascii '-' || digit unit) = true) : whitespace unit = false := by
  simp only [whitespace, Bool.or_eq_false_iff, decide_eq_false_iff_not]
  exact ⟨⟨⟨ne_of_numberHead hunit (by decide), ne_of_numberHead hunit (by decide)⟩,
    ne_of_numberHead hunit (by decide)⟩, ne_of_numberHead hunit (by decide)⟩

/-! ## Values -/

/-- A value as an object of the language holds it: numbers are spelled as JSON
spells them and no object has a key twice. -/
inductive Valid : Json → Prop where
  | null : Valid .null
  | bool (value : Bool) : Valid (.bool value)
  | number {lexeme : JsString} (hlexeme : numberLexeme lexeme = some (lexeme, [])) :
      Valid (.number lexeme)
  | string (text : JsString) : Valid (.string text)
  | array {elements : List Json} (helements : ∀ element ∈ elements, Valid element) :
      Valid (.array elements)
  | object {members : List (JsString × Json)} (hkeys : (members.map Prod.fst).Nodup)
      (hmembers : ∀ member ∈ members, Valid member.2) : Valid (.object members)

/-- The text of a value starts with what `readValue` tells values by. -/
theorem Valid.head {value : Json} (hvalid : Valid value) :
    ∃ unit tail, stringify value = unit :: tail ∧ whitespace unit = false ∧
      unit ≠ ascii ']' := by
  cases hvalid with
  | null => exact ⟨_, _, rfl, by decide, by decide⟩
  | bool value => cases value <;> exact ⟨_, _, rfl, by decide, by decide⟩
  | number hlexeme =>
      obtain ⟨unit, tail, rfl, hunit⟩ := numberLexeme_head hlexeme
      exact ⟨unit, tail, rfl, whitespace_numberHead hunit,
        ne_of_numberHead hunit (by decide)⟩
  | string text => exact ⟨_, _, rfl, by decide, by decide⟩
  | array helements => exact ⟨_, _, rfl, by decide, by decide⟩
  | object hkeys hmembers => exact ⟨_, _, rfl, by decide, by decide⟩

/-- A value is read back from its text, up to a delimiter. -/
def Reads (value : Json) : Prop :=
  ∀ fuel rest, 2 * (stringify value).length ≤ fuel → Delimited rest →
    readValue fuel (stringify value ++ rest) = some (value, rest)

theorem dropWhile_whitespace {unit : CodeUnit} (tail : JsString)
    (hunit : whitespace unit = false) :
    (unit :: tail).dropWhile whitespace = unit :: tail := by
  rw [List.dropWhile_cons, hunit]
  rfl

theorem stringifyElements_cons (first second : Json) (more : List Json) :
    stringifyElements (first :: second :: more) =
      stringify first ++ ascii ',' :: stringifyElements (second :: more) := by
  rw [stringifyElements]

theorem stringifyMembers_cons (first second : JsString × Json)
    (more : List (JsString × Json)) :
    stringifyMembers (first :: second :: more) =
      stringifyMember first ++ ascii ',' :: stringifyMembers (second :: more) := by
  rw [stringifyMembers]

theorem reads_elements {first : Json} {more : List Json}
    (hreads : ∀ element ∈ first :: more, Reads element) (fuel : ℕ)
    (hfuel : 2 * (stringifyElements (first :: more)).length ≤ fuel + 1) (rest : JsString) :
    readElements fuel (stringifyElements (first :: more) ++ rest) =
      some (first :: more, rest) := by
  induction more generalizing first fuel with
  | nil =>
      rw [stringifyElements, List.length_append, List.length_singleton] at hfuel
      obtain ⟨fuel, rfl⟩ : ∃ less, fuel = less + 1 := ⟨fuel - 1, by omega⟩
      rw [stringifyElements, List.append_assoc, List.singleton_append, readElements,
        hreads first List.mem_cons_self fuel _ (by omega)
          (delimited_cons rest (.inr (.inl rfl)))]
      dsimp only
      rw [dropWhile_whitespace _ (by decide)]
      dsimp only
      rw [if_neg (by decide), if_pos rfl]
  | cons second more ih =>
      rw [stringifyElements_cons, List.length_append, List.length_cons] at hfuel
      obtain ⟨fuel, rfl⟩ : ∃ less, fuel = less + 1 := ⟨fuel - 1, by omega⟩
      have hmore := ih (fun element hmem => hreads element (List.mem_cons_of_mem _ hmem))
        fuel (by omega)
      rw [stringifyElements_cons, List.append_assoc, List.cons_append, readElements,
        hreads first List.mem_cons_self fuel _ (by omega)
          (delimited_cons _ (.inl rfl))]
      dsimp only
      rw [dropWhile_whitespace _ (by decide)]
      dsimp only
      rw [if_pos rfl, hmore]
      rfl

theorem reads_members {first : JsString × Json} {more : List (JsString × Json)}
    (hreads : ∀ member ∈ first :: more, Reads member.2) (fuel : ℕ)
    (hfuel : 2 * (stringifyMembers (first :: more)).length ≤ fuel + 1) (rest : JsString) :
    readMembers fuel (stringifyMembers (first :: more) ++ rest) =
      some (first :: more, rest) := by
  -- a member alone: its key, its value, and the delimiter behind it
  have hmember : ∀ (member : JsString × Json) (less : ℕ) (after : JsString),
      Reads member.2 → 2 * (stringifyMember member).length ≤ less + 1 → Delimited after →
      ∃ tail, stringifyMember member ++ after = ascii '"' :: tail ∧
        stringRest tail = some (member.1, ascii ':' :: (stringify member.2 ++ after)) ∧
        readValue less (stringify member.2 ++ after) = some (member.2, after) := by
    intro member less after hread hless hafter
    obtain ⟨key, value⟩ := member
    simp only [stringifyMember, quote, List.length_append, List.length_cons,
      List.length_nil] at hless
    refine ⟨quoteUnits key ++ ascii '"' :: ascii ':' :: (stringify value ++ after), ?_,
      stringRest_quoteUnits _ _, hread less after (by dsimp only; omega) hafter⟩
    simp [stringifyMember, quote]
  induction more generalizing first fuel with
  | nil =>
      rw [stringifyMembers, List.length_append, List.length_singleton] at hfuel
      obtain ⟨fuel, rfl⟩ : ∃ less, fuel = less + 1 := ⟨fuel - 1, by omega⟩
      obtain ⟨tail, htext, hkey, hvalue⟩ := hmember first fuel ([0x7D] ++ rest)
        (hreads first List.mem_cons_self) (by omega)
        (delimited_cons rest (.inr (.inr rfl)))
      rw [stringifyMembers, List.append_assoc, htext, readMembers,
        dropWhile_whitespace _ (by decide)]
      dsimp only
      rw [if_neg (by simp), hkey]
      dsimp only
      rw [dropWhile_whitespace _ (by decide)]
      dsimp only
      rw [if_neg (by simp), hvalue]
      dsimp only [List.cons_append, List.nil_append]
      rw [dropWhile_whitespace _ (by decide)]
      dsimp only
      rw [if_neg (by decide), if_pos rfl]
  | cons second more ih =>
      rw [stringifyMembers_cons, List.length_append, List.length_cons] at hfuel
      obtain ⟨fuel, rfl⟩ : ∃ less, fuel = less + 1 := ⟨fuel - 1, by omega⟩
      have hmore := ih (fun member hmem => hreads member (List.mem_cons_of_mem _ hmem))
        fuel (by omega)
      obtain ⟨tail, htext, hkey, hvalue⟩ := hmember first fuel
        (ascii ',' :: stringifyMembers (second :: more) ++ rest)
        (hreads first List.mem_cons_self) (by omega) (delimited_cons _ (.inl rfl))
      rw [stringifyMembers_cons, List.append_assoc, htext, readMembers,
        dropWhile_whitespace _ (by decide)]
      dsimp only
      rw [if_neg (by simp), hkey]
      dsimp only
      rw [dropWhile_whitespace _ (by decide)]
      dsimp only
      rw [if_neg (by simp), hvalue]
      dsimp only [List.cons_append]
      rw [dropWhile_whitespace _ (by decide)]
      dsimp only
      rw [if_pos rfl, hmore]
      rfl

theorem Valid.reads {value : Json} (hvalid : Valid value) : Reads value := by
  induction hvalid with
  | null =>
      intro fuel rest hfuel _
      obtain ⟨fuel, rfl⟩ : ∃ less, fuel = less + 1 :=
        ⟨fuel - 1, by have : 0 < (stringify .null).length := by decide
                      omega⟩
      rfl
  | bool value =>
      intro fuel rest hfuel _
      obtain ⟨fuel, rfl⟩ : ∃ less, fuel = less + 1 :=
        ⟨fuel - 1, by have : 0 < (stringify (.bool value)).length := by cases value <;> decide
                      omega⟩
      cases value <;> rfl
  | string text =>
      intro fuel rest hfuel _
      rw [stringify] at hfuel ⊢
      obtain ⟨fuel, rfl⟩ : ∃ less, fuel = less + 1 :=
        ⟨fuel - 1, by rw [quote, List.length_append, List.length_cons] at hfuel; omega⟩
      rw [quote_append, readValue, dropWhile_whitespace _ (by decide)]
      dsimp only
      rw [if_pos rfl, stringRest_quoteUnits]
      rfl
  | @number lexeme hlexeme =>
      intro fuel rest hfuel hdelimited
      rw [stringify] at hfuel ⊢
      have hread := numberLexeme_append hdelimited hlexeme
      obtain ⟨unit, tail, rfl, hunit⟩ := numberLexeme_head hlexeme
      obtain ⟨fuel, rfl⟩ : ∃ less, fuel = less + 1 :=
        ⟨fuel - 1, by rw [List.length_cons] at hfuel; omega⟩
      rw [List.cons_append, readValue,
        dropWhile_whitespace _ (whitespace_numberHead hunit)]
      dsimp only
      rw [if_neg (ne_of_numberHead hunit (by decide)),
        if_neg (ne_of_numberHead hunit (by decide)),
        if_neg (ne_of_numberHead hunit (by decide)), if_pos hunit, ← List.cons_append,
        hread]
      rfl
  | @array elements helements ih =>
      intro fuel rest hfuel _
      rw [stringify, List.length_cons] at hfuel
      obtain ⟨fuel, rfl⟩ : ∃ less, fuel = less + 1 := ⟨fuel - 1, by omega⟩
      rw [stringify, List.cons_append, readValue, dropWhile_whitespace _ (by decide)]
      dsimp only
      rw [if_neg (by decide), if_pos rfl]
      cases elements with
      | nil =>
          rfl
      | cons first more =>
          obtain ⟨unit, tail, htext, hspace, hclose⟩ := (helements first List.mem_cons_self).head
          have hhead : ∃ tail, stringifyElements (first :: more) ++ rest = unit :: tail := by
            cases more with
            | nil => exact ⟨_, by rw [stringifyElements, htext]; rfl⟩
            | cons second more => exact ⟨_, by rw [stringifyElements_cons, htext]; rfl⟩
          obtain ⟨tail, hhead⟩ := hhead
          have hread := reads_elements ih fuel (by omega) rest
          rw [hhead] at hread ⊢
          rw [dropWhile_whitespace _ hspace]
          dsimp only
          rw [if_neg hclose, hread]
          rfl
  | @object members hkeys hmembers ih =>
      intro fuel rest hfuel _
      rw [stringify, List.length_cons] at hfuel
      obtain ⟨fuel, rfl⟩ : ∃ less, fuel = less + 1 := ⟨fuel - 1, by omega⟩
      rw [stringify, List.cons_append, readValue, dropWhile_whitespace _ (by decide)]
      dsimp only
      rw [if_neg (by decide), if_neg (by decide), if_pos rfl]
      cases members with
      | nil =>
          rfl
      | cons first more =>
          have hhead : ∃ tail, stringifyMembers (first :: more) ++ rest =
              ascii '"' :: tail := by
            cases more with
            | nil => exact ⟨_, by rw [stringifyMembers, stringifyMember, quote]; rfl⟩
            | cons second more =>
                exact ⟨_, by rw [stringifyMembers_cons, stringifyMember, quote]; rfl⟩
          obtain ⟨tail, hhead⟩ := hhead
          have hread := reads_members ih fuel (by omega) rest
          rw [hhead] at hread ⊢
          rw [dropWhile_whitespace _ (by decide)]
          dsimp only
          rw [if_neg (by decide), hread]
          rfl

/-- What is written is read back. -/
theorem parse_stringify {value : Json} (hvalid : Valid value) :
    parse (stringify value) = some value := by
  have hread := hvalid.reads (2 * (stringify value).length + 2) [] (by omega)
    delimited_nil
  rw [List.append_nil] at hread
  rw [parse, hread]
  rfl

theorem stringify_injective {left right : Json} (hleft : Valid left) (hright : Valid right)
    (htext : stringify left = stringify right) : left = right := by
  have hread := parse_stringify hleft
  rw [htext, parse_stringify hright] at hread
  exact (Option.some.inj hread).symm

/-! ## Well-formed texts -/

/-- Neither half of a surrogate pair. -/
def whole (unit : CodeUnit) : Bool := !JsString.lone unit.toNat

theorem wellFormed_append {left right : JsString} (hleft : left.wellFormed = true)
    (hright : right.wellFormed = true) : JsString.wellFormed (left ++ right) = true := by
  rw [JsString.wellFormed, codePoints_append_of_wellFormed hleft, List.all_append,
    Bool.and_eq_true]
  exact ⟨hleft, hright⟩

theorem wellFormed_of_whole {text : JsString} (htext : ∀ unit ∈ text, whole unit = true) :
    text.wellFormed = true := by
  induction text with
  | nil => rfl
  | cons unit text ih =>
      have hunit := htext unit List.mem_cons_self
      have hhigh : JsString.highSurrogate unit = false := by
        simp only [whole, JsString.lone, Bool.not_eq_true', Bool.and_eq_false_iff,
          decide_eq_false_iff_not] at hunit
        simp only [JsString.highSurrogate, Bool.and_eq_false_iff, decide_eq_false_iff_not,
          UInt16.le_iff_toNat_le, UInt16.lt_iff_toNat_lt]
        change ¬0xD800 ≤ unit.toNat ∨ ¬unit.toNat < 0xDC00
        omega
      rw [JsString.wellFormed, codePoints_of_not_high _ hhigh, List.all_cons,
        Bool.and_eq_true]
      exact ⟨hunit, ih fun other hmem => htext other (List.mem_cons_of_mem _ hmem)⟩

theorem whole_lowerHex {value : ℕ} (hvalue : value < 16) :
    whole (lowerHex value) = true := by
  interval_cases value <;> decide

theorem wellFormed_unicodeEscape (unit : CodeUnit) :
    (unicodeEscape unit).wellFormed = true := by
  have hlt : unit.toNat < 0x10000 := unit.toNat_lt
  apply wellFormed_of_whole
  rw [unicodeEscape_eq]
  simp only [List.forall_mem_cons, List.not_mem_nil, false_implies, implies_true, and_true]
  exact ⟨by decide, by decide, whole_lowerHex (by omega), whole_lowerHex (by omega),
    whole_lowerHex (by omega), whole_lowerHex (by omega)⟩

theorem wellFormed_quoteUnit {unit : CodeUnit} (hunit : whole unit = true) :
    (quoteUnit unit).wellFormed = true := by
  rw [quoteUnit]
  split_ifs
  · exact wellFormed_of_whole (by simp [hunit]; decide)
  all_goals first | exact wellFormed_unicodeEscape unit | skip
  all_goals first | decide | exact wellFormed_of_whole (by simpa using hunit)

/-- Whatever a string holds, its text is well formed. -/
theorem wellFormed_quote (text : JsString) : (quote text).wellFormed = true := by
  have hunits : (quoteUnits text).wellFormed = true := by
    fun_induction quoteUnits text with
    | case1 => rfl
    | case2 unit => exact wellFormed_unicodeEscape unit
    | case3 unit hlone =>
        exact wellFormed_quoteUnit (by rw [whole, Bool.not_eq_true] at *; simpa using hlone)
    | case4 high low tail hpair ih =>
        have hhead : JsString.wellFormed [high, low] = true := by
          simp only [Bool.and_eq_true] at hpair
          have hscalar := (utf16_pair hpair.1 hpair.2).1
          rw [JsString.wellFormed, JsString.codePoints, if_pos (by simp [hpair])]
          simpa [JsString.codePoints] using (scalar_iff.mp hscalar).2
        exact wellFormed_append hhead ih
    | case5 high low tail hpair hlone ih =>
        exact wellFormed_append (wellFormed_unicodeEscape high) ih
    | case6 high low tail hpair hlone ih =>
        exact wellFormed_append (wellFormed_quoteUnit (by simpa [whole] using hlone)) ih
  rw [quote, ← List.singleton_append, List.append_assoc]
  exact wellFormed_append (by decide) (wellFormed_append hunits (by decide))

theorem whole_of_digit {unit : CodeUnit} (hdigit : digit unit = true) :
    whole unit = true := by
  simp only [digit, Bool.and_eq_true, decide_eq_true_eq, UInt16.le_iff_toNat_le] at hdigit
  change 0x30 ≤ unit.toNat ∧ unit.toNat ≤ 0x39 at hdigit
  simp only [whole, JsString.lone, Bool.not_eq_true', Bool.and_eq_false_iff,
    decide_eq_false_iff_not]
  omega

theorem digits_whole (hread : digits text = some (found, left)) :
    ∀ unit ∈ found, whole unit = true := by
  rw [digits] at hread
  split_ifs at hread
  obtain ⟨rfl, -⟩ := Prod.mk.inj (Option.some.inj hread)
  intro unit hmem
  exact whole_of_digit (List.mem_takeWhile_imp hmem)

/-- The units before the ones read are plain as well. -/
theorem map_whole {read : Option (JsString × JsString)} (before : JsString)
    (hbefore : ∀ unit ∈ before, whole unit = true)
    (hread : ∀ found left, read = some (found, left) → ∀ unit ∈ found, whole unit = true)
    (hmap : (read.map fun entry => (before ++ entry.1, entry.2)) = some (found, left)) :
    ∀ unit ∈ found, whole unit = true := by
  obtain ⟨⟨found', left'⟩, hread', heq⟩ := Option.map_eq_some_iff.mp hmap
  obtain ⟨rfl, -⟩ := Prod.mk.inj heq
  exact List.forall_mem_append.mpr ⟨hbefore, hread found' left' hread'⟩

theorem integerPart_whole (hread : integerPart text = some (found, left)) :
    ∀ unit ∈ found, whole unit = true := by
  cases text with
  | nil => cases hread
  | cons unit text =>
      rw [integerPart] at hread
      split_ifs at hread with hzero
      · obtain ⟨rfl, -⟩ := Prod.mk.inj (Option.some.inj hread)
        exact List.forall_mem_singleton.mpr (hzero ▸ by decide)
      · exact digits_whole hread

theorem fraction_whole (hread : fraction text = some (found, left)) :
    ∀ unit ∈ found, whole unit = true := by
  cases text with
  | nil =>
      obtain ⟨rfl, -⟩ := Prod.mk.inj (Option.some.inj hread)
      exact fun _ hmem => by cases hmem
  | cons unit text =>
      rw [fraction] at hread
      split_ifs at hread with hdot
      · exact map_whole [unit] (List.forall_mem_singleton.mpr (hdot ▸ by decide))
          (fun _ _ => digits_whole) hread
      · obtain ⟨rfl, -⟩ := Prod.mk.inj (Option.some.inj hread)
        exact fun _ hmem => by cases hmem

theorem exponent_whole (hread : exponent text = some (found, left)) :
    ∀ unit ∈ found, whole unit = true := by
  cases text with
  | nil =>
      obtain ⟨rfl, -⟩ := Prod.mk.inj (Option.some.inj hread)
      exact fun _ hmem => by cases hmem
  | cons unit text =>
      rw [exponent.eq_def] at hread
      dsimp only at hread
      split_ifs at hread with hpower
      · have hunit : whole unit = true := by
          simp only [Bool.or_eq_true, decide_eq_true_eq] at hpower
          rcases hpower with rfl | rfl <;> decide
        cases text with
        | nil => cases hread
        | cons sign after =>
            dsimp only at hread
            split_ifs at hread with hsign
            · have hsign : whole sign = true := by
                simp only [Bool.or_eq_true, decide_eq_true_eq] at hsign
                rcases hsign with rfl | rfl <;> decide
              exact map_whole [unit, sign] (by simp [hunit, hsign])
                (fun _ _ => digits_whole) hread
            · exact map_whole [unit] (by simp [hunit]) (fun _ _ => digits_whole) hread
      · obtain ⟨rfl, -⟩ := Prod.mk.inj (Option.some.inj hread)
        exact fun _ hmem => by cases hmem

theorem unsigned_whole (hread : unsigned text = some (found, left)) :
    ∀ unit ∈ found, whole unit = true := by
  rw [unsigned] at hread
  cases hwhole : integerPart text with
  | none =>
      rw [hwhole] at hread
      cases hread
  | some entry =>
      rw [hwhole] at hread
      dsimp only at hread
      cases hpart : fraction entry.2 with
      | none =>
          rw [hpart] at hread
          cases hread
      | some part =>
          rw [hpart] at hread
          exact map_whole (entry.1 ++ part.1)
            (List.forall_mem_append.mpr ⟨integerPart_whole hwhole, fraction_whole hpart⟩)
            (fun _ _ => exponent_whole) hread

theorem numberLexeme_whole (hread : numberLexeme text = some (found, left)) :
    ∀ unit ∈ found, whole unit = true := by
  cases text with
  | nil => cases hread
  | cons unit text =>
      rw [numberLexeme] at hread
      split_ifs at hread with hminus
      · exact map_whole [unit] (List.forall_mem_singleton.mpr (hminus ▸ by decide))
          (fun _ _ => unsigned_whole) hread
      · exact unsigned_whole hread

theorem wellFormed_cons {unit : CodeUnit} {text : JsString} (hunit : whole unit = true)
    (htext : text.wellFormed = true) : JsString.wellFormed (unit :: text) = true :=
  wellFormed_append (wellFormed_of_whole (List.forall_mem_singleton.mpr hunit)) htext

theorem wellFormed_stringifyElements {elements : List Json}
    (helements : ∀ element ∈ elements, (stringify element).wellFormed = true) :
    (stringifyElements elements).wellFormed = true := by
  induction elements with
  | nil => decide
  | cons first more ih =>
      have hfirst := helements first List.mem_cons_self
      have hmore := ih fun element hmem => helements element (List.mem_cons_of_mem _ hmem)
      cases more with
      | nil =>
          rw [stringifyElements]
          exact wellFormed_append hfirst (by decide)
      | cons second more =>
          rw [stringifyElements_cons]
          exact wellFormed_append hfirst (wellFormed_cons (by decide) hmore)

theorem wellFormed_stringifyMembers {members : List (JsString × Json)}
    (hmembers : ∀ member ∈ members, (stringify member.2).wellFormed = true) :
    (stringifyMembers members).wellFormed = true := by
  have hmember : ∀ member ∈ members, (stringifyMember member).wellFormed = true := by
    intro member hmem
    rw [stringifyMember]
    exact wellFormed_append (wellFormed_quote member.1)
      (wellFormed_cons (by decide) (hmembers member hmem))
  induction members with
  | nil => decide
  | cons first more ih =>
      have hfirst := hmember first List.mem_cons_self
      have hmore := ih (fun member hmem => hmembers member (List.mem_cons_of_mem _ hmem))
        fun member hmem => hmember member (List.mem_cons_of_mem _ hmem)
      cases more with
      | nil =>
          rw [stringifyMembers]
          exact wellFormed_append hfirst (by decide)
      | cons second more =>
          rw [stringifyMembers_cons]
          exact wellFormed_append hfirst (wellFormed_cons (by decide) hmore)

theorem wellFormed_stringify {value : Json} (hvalid : Valid value) :
    (stringify value).wellFormed = true := by
  induction hvalid with
  | null => decide
  | bool value => cases value <;> decide
  | number hlexeme => exact wellFormed_of_whole (numberLexeme_whole hlexeme)
  | string text => exact wellFormed_quote text
  | array _ ih =>
      rw [stringify]
      exact wellFormed_cons (by decide) (wellFormed_stringifyElements ih)
  | object _ _ ih =>
      rw [stringify]
      exact wellFormed_cons (by decide) (wellFormed_stringifyMembers ih)

end Json

end Connecta.Runtime
