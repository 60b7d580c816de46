import Connecta.Arguments.Findings

/-!
# Renamed arguments

What a redaction keeps of arguments, and what a finding is told from, does not depend
on their strings, nor on the names of keys that the schema does not mention.
-/

namespace Connecta.Arguments

open Connecta.Runtime
open Connecta.Runtime.JsString (ofAscii)

/-! ## Pointers -/

/-- The pointer of the value that some steps lead to. -/
def pointerOf (parts : List JsString) : JsString :=
  ofAscii "#" ++ parts.flatMap fun part => ascii '/' :: encodePointerPart part

theorem pointerOf_append (parts : List JsString) (part : JsString) :
    pointerOf parts ++ ascii '/' :: encodePointerPart part = pointerOf (parts ++ [part]) := by
  rw [pointerOf, pointerOf, List.append_assoc, List.flatMap_append, List.flatMap_singleton]

theorem encodePointerPart_cons (unit : CodeUnit) (rest : JsString) :
    encodePointerPart (unit :: rest) = (if unit = ascii '~' then ofAscii "~0"
      else if unit = ascii '/' then ofAscii "~1" else [unit]) ++ encodePointerPart rest :=
  List.flatMap_cons

/-- A replacement passes over a unit that is no tilde. -/
theorem replaceTilde_cons {unit digit replacement : CodeUnit} (htilde : unit ≠ ascii '~')
    (rest : JsString) :
    replaceTilde digit replacement (unit :: rest) =
      unit :: replaceTilde digit replacement rest := by
  cases rest with
  | nil => rfl
  | cons second rest =>
      rw [replaceTilde, decide_eq_false htilde]
      rfl

/-- The slashes of an encoded part come back first, which leaves its tildes encoded. -/
theorem replaceTilde_slashes (part : JsString) :
    replaceTilde (ascii '1') (ascii '/') (encodePointerPart part) =
      part.flatMap fun unit => if unit = ascii '~' then ofAscii "~0" else [unit] := by
  induction part with
  | nil => rfl
  | cons unit rest ih =>
      rw [encodePointerPart_cons, List.flatMap_cons]
      by_cases htilde : unit = ascii '~'
      · rw [if_pos htilde, if_pos htilde, ← ih]
        exact congrArg (ascii '~' :: ·) (replaceTilde_cons (by decide) _)
      rw [if_neg htilde, if_neg htilde]
      by_cases hslash : unit = ascii '/'
      · rw [if_pos hslash, hslash, ← ih]
        rfl
      · rw [if_neg hslash, ← ih]
        exact replaceTilde_cons htilde _

theorem decode_encode (part : JsString) : decodePointerPart (encodePointerPart part) = part := by
  rw [decodePointerPart, replaceTilde_slashes]
  induction part with
  | nil => rfl
  | cons unit rest ih =>
      rw [List.flatMap_cons]
      by_cases htilde : unit = ascii '~'
      · rw [if_pos htilde, htilde]
        exact congrArg (ascii '~' :: ·) ih
      · rw [if_neg htilde]
        exact (replaceTilde_cons htilde _).trans (congrArg (unit :: ·) ih)

theorem slash_notMem_encode (part : JsString) : ascii '/' ∉ encodePointerPart part := by
  intro hmem
  obtain ⟨unit, -, hunit⟩ := List.mem_flatMap.mp hmem
  split_ifs at hunit with htilde hslash
  · exact absurd hunit (by decide)
  · exact absurd hunit (by decide)
  · exact hslash (List.mem_singleton.mp hunit).symm

/-- Encoded parts behind a slash each come apart again. -/
theorem splitOn_parts (first : JsString) (parts : List JsString) :
    (encodePointerPart first ++
        parts.flatMap fun part => ascii '/' :: encodePointerPart part).splitOn (ascii '/') =
      (first :: parts).map encodePointerPart := by
  induction parts generalizing first with
  | nil =>
      rw [List.flatMap_nil, List.append_nil]
      exact List.splitOn_eq_singleton (slash_notMem_encode first)
  | cons second rest ih =>
      rw [List.flatMap_cons, List.cons_append, List.map_cons, ← ih]
      exact List.splitOn_append_cons_self_of_not_mem (slash_notMem_encode first) _

theorem pointerOf_cons_ne (first : JsString) (parts : List JsString) :
    pointerOf (first :: parts) ≠ ofAscii "#" := by
  intro heq
  have hlength := congrArg List.length heq
  rw [pointerOf, List.flatMap_cons, List.length_append, List.length_append,
    List.length_cons] at hlength
  omega

theorem pointerParts_pointerOf (first : JsString) (parts : List JsString) :
    pointerParts (pointerOf (first :: parts)) = first :: parts := by
  rw [pointerParts, pointerOf, List.flatMap_cons]
  refine (congrArg (List.map decodePointerPart) (splitOn_parts first parts)).trans ?_
  rw [List.map_map]
  exact (List.map_congr_left fun part _ => decode_encode part).trans (List.map_id _)

theorem locationParts_pointerOf (parts : List JsString) :
    locationParts (pointerOf parts) = parts := by
  cases parts with
  | nil => rfl
  | cons first rest =>
      rw [locationParts, if_neg (pointerOf_cons_ne first rest)]
      exact pointerParts_pointerOf first rest

theorem argumentAt_pointerOf (value : Json) (parts : List JsString) :
    argumentAt value (pointerOf parts) =
      parts.foldlM (fun current part => ownValue part current) value := by
  cases parts with
  | nil => rfl
  | cons first rest =>
      have hleading : (ofAscii "#/").isPrefixOf (pointerOf (first :: rest)) = true := rfl
      rw [argumentAt, if_neg (pointerOf_cons_ne first rest), if_pos hleading,
        pointerParts_pointerOf]

/-- The location of a unit that names no property is its own. -/
theorem unitLocation_pointerOf {unit : ValidationUnit} {parts : List JsString}
    (hlocation : unit.instanceLocation = pointerOf parts) :
    unitLocation unit = pointerOf (parts ++ (unitNames unit).1.toList) := by
  rw [unitLocation, hlocation]
  cases (unitNames unit).1 with
  | none => exact congrArg pointerOf (List.append_nil _).symm
  | some missing => exact pointerOf_append parts missing

/-! ## Renamings -/

theorem toDigits_head {number : ℕ} (hnumber : 0 < number) :
    (Nat.toDigits 10 number).head? ≠ some '0' := by
  induction number using Nat.strong_induction_on with
  | _ number ih =>
      rcases lt_or_ge number 10 with hsmall | hlarge
      · rw [Nat.toDigits_of_lt_base hsmall]
        intro hhead
        interval_cases number <;> exact absurd hhead (by decide)
      · rw [Nat.toDigits_of_base_le (by decide) hlarge, List.head?_append_of_ne_nil _
          Nat.toDigits_ne_nil]
        exact ih (number / 10) (by omega) (by omega)

/-- A position in a list reads as one. -/
theorem indexText_decimal (index : ℕ) : indexText (JsString.decimal index) = true := by
  rcases Nat.eq_zero_or_pos index with rfl | hindex
  · rfl
  have hrange : ∀ char ∈ Nat.toDigits 10 index, 48 ≤ char.toNat ∧ char.toNat ≤ 57 := by
    intro char hchar
    have hdigit := Nat.isDigit_of_mem_toDigits (by decide) (by decide) hchar
    rw [Char.isDigit, Bool.and_eq_true, decide_eq_true_eq, decide_eq_true_eq] at hdigit
    exact hdigit
  have hnat : ∀ char ∈ Nat.toDigits 10 index, (UInt16.ofNat char.toNat).toNat = char.toNat := by
    intro char hchar
    have hsmall : char.toNat < UInt16.size := by
      rw [UInt16.size]
      exact (hrange char hchar).2.trans_lt (by decide)
    exact UInt16.toNat_ofNat_of_lt' hsmall
  have hdigit : ∀ char ∈ Nat.toDigits 10 index, Json.digit (UInt16.ofNat char.toNat) = true := by
    intro char hchar
    rw [Json.digit, Bool.and_eq_true, decide_eq_true_eq, decide_eq_true_eq, UInt16.le_iff_toNat_le,
      UInt16.le_iff_toNat_le, hnat char hchar]
    exact hrange char hchar
  have hhead := toDigits_head hindex
  rw [JsString.decimal_eq]
  cases hdigits : Nat.toDigits 10 index with
  | nil => exact absurd hdigits Nat.toDigits_ne_nil
  | cons first rest =>
      rw [hdigits] at hrange hnat hdigit hhead
      have hzero : UInt16.ofNat first.toNat ≠ ascii '0' := by
        intro heq
        have hsame : first.toNat = '0'.toNat :=
          (hnat first List.mem_cons_self).symm.trans (congrArg UInt16.toNat heq)
        exact hhead (congrArg some (Char.toNat_inj.mp hsame))
      have hrest : (rest.map fun char => UInt16.ofNat char.toNat).all Json.digit = true := by
        rw [List.all_map, List.all_eq_true]
        exact fun char hchar => hdigit char (List.mem_cons_of_mem _ hchar)
      rw [List.map_cons, indexText, decide_eq_true hzero, hdigit first List.mem_cons_self, hrest]
      exact Bool.or_true _

section Renamings

variable {Address : Type} {heap : Heap Address}

variable (heap) in
/-- A name that some object of a schema has as a key. -/
def Mentioned (name : JsString) : Prop :=
  ∃ address fields, heap address = .object fields ∧ name ∈ fields.entries.map Prod.fst

variable (heap) in
/-- Other names for the keys that a schema does not mention; a text that may be the
position in a list stays as it is. -/
structure Renaming where
  rename : JsString → JsString
  injective : Function.Injective rename
  mentioned : ∀ name, Mentioned heap name → rename name = name
  index : ∀ name, indexText name = true → rename name = name
  length : rename (ofAscii "length") = ofAscii "length"

theorem mentioned_of_record {node : Node Address} {record : Fields Address}
    (hrecord : recordOf heap node = some record) {name : JsString}
    (hmem : name ∈ record.entries.map Prod.fst) : Mentioned heap name := by
  cases node with
  | ref address =>
      rw [recordOf] at hrecord
      cases hcell : heap address with
      | array _ =>
          rw [hcell] at hrecord
          cases hrecord
      | object fields =>
          rw [hcell] at hrecord
          obtain rfl := Option.some.inj hrecord
          exact ⟨address, fields, hcell, hmem⟩
  | _ => cases hrecord

theorem mentioned_of_declared {name : JsString} {branch : Fields Address} {child : Node Address}
    (hdeclared : declared heap name branch = some child) : Mentioned heap name := by
  obtain ⟨entry, hfound, -⟩ := Option.map_eq_some_iff.mp hdeclared
  have hkey := List.find?_some hfound
  have hname : entry.1 = name := of_decide_eq_true hkey
  have hmem := List.mem_map_of_mem (f := Prod.fst) (List.mem_of_find?_eq_some hfound)
  rw [hname, schemaObject] at hmem
  cases hrecord : (branch.get "properties").bind (recordOf heap) with
  | none =>
      rw [hrecord] at hmem
      cases hmem
  | some record =>
      rw [hrecord] at hmem
      obtain ⟨node, -, hnode⟩ := Option.bind_eq_some_iff.mp hrecord
      exact mentioned_of_record hnode hmem

/-- A name that is changed is declared nowhere, and is no position in a list, before the
change and after it. -/
theorem Renaming.changed (names : Renaming heap) {name : JsString}
    (hchanged : names.rename name ≠ name) :
    (¬ Mentioned heap name ∧ indexText name = false) ∧
      ¬ Mentioned heap (names.rename name) ∧ indexText (names.rename name) = false := by
  have hback : names.rename (names.rename name) ≠ names.rename name :=
    fun heq => hchanged (names.injective heq)
  refine ⟨⟨fun hmentioned => hchanged (names.mentioned name hmentioned), ?_⟩,
    fun hmentioned => hback (names.mentioned _ hmentioned), ?_⟩
  · exact Bool.eq_false_iff.mpr fun hindex => hchanged (names.index name hindex)
  · exact Bool.eq_false_iff.mpr fun hindex => hback (names.index _ hindex)

theorem publicParts_key {root : Address} {node : Fields Address} {path : JsString}
    {sensitive : Bool} {part : JsString} {rest : List JsString} (hpart : ¬ Mentioned heap part)
    (hindex : indexText part = false) :
    publicParts heap root node path sensitive (part :: rest) =
      (path ++ ofAscii "/<key>", sensitive || isWriteOnly (resolved heap root
        ((branches heap root node).findSome? fun branch =>
          branch.get "additionalProperties"))) := by
  have hnone : (branches heap root node).findSome? (declared heap part) = none := by
    rw [List.findSome?_eq_none_iff]
    intro branch _
    by_contra hsome
    obtain ⟨child, hchild⟩ := Option.ne_none_iff_exists'.mp hsome
    exact hpart (mentioned_of_declared hchild)
  rw [publicParts]
  dsimp only
  rw [hnone, hindex]
  dsimp only
  cases (branches heap root node).find? (listing heap) <;> rfl

/-- A finding points to the same place when keys that no schema declares are renamed. -/
theorem publicParts_rename (names : Renaming heap) (root : Address) (rest : List JsString)
    (parts : List JsString) (node : Fields Address) (path : JsString) (sensitive : Bool) :
    publicParts heap root node path sensitive (parts.map names.rename ++ rest) =
      publicParts heap root node path sensitive (parts ++ rest) := by
  induction parts generalizing node path sensitive with
  | nil => rfl
  | cons part parts ih =>
      rw [List.map_cons, List.cons_append, List.cons_append]
      by_cases hsame : names.rename part = part
      · rw [hsame, publicParts, publicParts]
        dsimp only
        split
        · exact ih ..
        · split
          · exact ih ..
          · rfl
      · obtain ⟨⟨hbefore, hindex⟩, hafter, hindex'⟩ := names.changed hsame
        rw [publicParts_key hbefore hindex, publicParts_key hafter hindex']

end Renamings

/-! ## Values that differ in their texts -/

/-- Values of one shape, of which one has other names for its keys. -/
inductive Alike (rename : JsString → JsString) : Json → Json → Prop where
  | null : Alike rename .null .null
  | bool {one two : Bool} : Alike rename (.bool one) (.bool two)
  | number {one two : JsString} : Alike rename (.number one) (.number two)
  | string {one two : JsString} : Alike rename (.string one) (.string two)
  | array {entries entries' : List Json} (hlength : entries.length = entries'.length)
      (hentries : ∀ (index : ℕ) entry entry', entries[index]? = some entry →
        entries'[index]? = some entry' → Alike rename entry entry') :
      Alike rename (.array entries) (.array entries')
  | object {members members' : List (JsString × Json)}
      (hkeys : (members.map fun member => rename member.1) = members'.map Prod.fst)
      (hvalues : ∀ (index : ℕ) member member', members[index]? = some member →
        members'[index]? = some member' → Alike rename member.2 member'.2) :
      Alike rename (.object members) (.object members')

/-- Members of one shape under corresponding keys. -/
def AlikeMember (rename : JsString → JsString) (member member' : JsString × Json) : Prop :=
  rename member.1 = member'.1 ∧ Alike rename member.2 member'.2

section Alikeness

variable {rename : JsString → JsString}

theorem forall₂_of_getElem {Source Result : Type} {relation : Source → Result → Prop}
    {sources : List Source} {results : List Result} (hlength : sources.length = results.length)
    (hall : ∀ (index : ℕ) source result, sources[index]? = some source →
      results[index]? = some result → relation source result) :
    List.Forall₂ relation sources results := by
  refine List.forall₂_iff_get.mpr ⟨hlength, fun index hindex hindex' => ?_⟩
  exact hall index _ _ (List.getElem?_eq_getElem hindex) (List.getElem?_eq_getElem hindex')

theorem alike_array {entries entries' : List Json} :
    Alike rename (.array entries) (.array entries') ↔
      List.Forall₂ (Alike rename) entries entries' := by
  constructor
  · rintro (_ | _ | _ | _ | ⟨hlength, hentries⟩)
    exact forall₂_of_getElem hlength hentries
  · intro hall
    refine .array hall.length_eq fun index entry entry' hentry hentry' => ?_
    obtain ⟨found, hfound, halike⟩ := forall₂_getElem hall hentry
    exact Option.some.inj (hentry'.symm.trans hfound) ▸ halike

theorem alike_object {members members' : List (JsString × Json)} :
    Alike rename (.object members) (.object members') ↔
      List.Forall₂ (AlikeMember rename) members members' := by
  constructor
  · rintro (_ | _ | _ | _ | _ | ⟨hkeys, hvalues⟩)
    have hlength : members.length = members'.length := by
      have hlength := congrArg List.length hkeys
      rwa [List.length_map, List.length_map] at hlength
    refine forall₂_of_getElem hlength fun index member member' hmember hmember' => ?_
    refine ⟨?_, hvalues index member member' hmember hmember'⟩
    have hkey := congrArg (·[index]?) hkeys
    rw [List.getElem?_map, List.getElem?_map, hmember, hmember'] at hkey
    exact Option.some.inj hkey
  · intro hall
    refine .object ?_ fun index member member' hmember hmember' => ?_
    · induction hall with
      | nil => rfl
      | cons hfirst _ ih => rw [List.map_cons, List.map_cons, hfirst.1, ih]
    · obtain ⟨found, hfound, halike⟩ := forall₂_getElem hall hmember
      exact Option.some.inj (hmember'.symm.trans hfound) ▸ halike.2

theorem receivedType_alike {value value' : Option Json}
    (halike : Option.Rel (Alike rename) value value') :
    receivedType value = receivedType value' := by
  cases halike with
  | none => rfl
  | some hvalue => cases hvalue <;> rfl

/-- The entry of a list under its position. -/
theorem find_zipIdx {Entry : Type} (entries : List Entry) (index start : ℕ) :
    ((entries.zipIdx start).find? fun entry =>
      JsString.decimal entry.2 = JsString.decimal (start + index)).map Prod.fst =
        entries[index]? := by
  induction entries generalizing index start with
  | nil => rfl
  | cons first rest ih =>
      rw [List.zipIdx_cons, List.find?_cons]
      cases index with
      | zero =>
          rw [decide_eq_true (congrArg JsString.decimal (Nat.add_zero start).symm)]
          rfl
      | succ index =>
          have hother : JsString.decimal start ≠ JsString.decimal (start + (index + 1)) :=
            fun heq => absurd (JsString.decimal_injective heq) (by omega)
          rw [decide_eq_false hother, List.getElem?_cons_succ, ← ih index (start + 1),
            show start + 1 + index = start + (index + 1) by omega]

theorem decimal_ne_length (index : ℕ) : JsString.decimal index ≠ ofAscii "length" := by
  intro heq
  have hindex := indexText_decimal index
  rw [heq] at hindex
  exact absurd hindex (by decide)

theorem ownValue_decimal (entries : List Json) (index : ℕ) :
    ownValue (JsString.decimal index) (.array entries) = entries[index]? := by
  have hfound := find_zipIdx entries index 0
  rw [Nat.zero_add] at hfound
  rw [ownValue, if_neg (decimal_ne_length index)]
  exact hfound

theorem ownValue_other {key : JsString} (entries : List Json) (hlength : key ≠ ofAscii "length")
    (hkey : ∀ index, JsString.decimal index ≠ key) : ownValue key (.array entries) = none := by
  rw [ownValue, if_neg hlength, Option.map_eq_none_iff, List.find?_eq_none]
  exact fun entry _ heq => hkey entry.2 (of_decide_eq_true heq)

end Alikeness

/-! ## What a plan leaves of them -/

section Applying

variable {Address : Type} {heap : Heap Address} (names : Renaming heap)

/-- Both absent, or values that are alike. -/
abbrev AlikeOption : Option Json → Option Json → Prop := Option.Rel (Alike names.rename)

theorem ownValue_alike {value value' : Json} (halike : Alike names.rename value value')
    (key : JsString) :
    AlikeOption names (ownValue key value) (ownValue (names.rename key) value') := by
  cases halike with
  | null | bool | number | string => exact .none
  | array hlength hentries =>
      by_cases hkey : key = ofAscii "length"
      · rw [hkey, names.length, ownValue, ownValue, if_pos rfl, if_pos rfl]
        exact .some .number
      by_cases hindex : ∃ index, JsString.decimal index = key
      · obtain ⟨index, rfl⟩ := hindex
        rw [names.index _ (indexText_decimal index), ownValue_decimal, ownValue_decimal]
        rcases lt_or_ge index (List.length _) with hlt | hge
        · rw [List.getElem?_eq_getElem hlt, List.getElem?_eq_getElem (hlength ▸ hlt)]
          exact .some (hentries index _ _ (List.getElem?_eq_getElem hlt)
            (List.getElem?_eq_getElem (hlength ▸ hlt)))
        · rw [List.getElem?_eq_none hge, List.getElem?_eq_none (hlength ▸ hge)]
          exact .none
      · have hlength' : names.rename key ≠ ofAscii "length" :=
          fun heq => hkey (names.injective (heq.trans names.length.symm))
        have hindex' : ∀ index, JsString.decimal index ≠ names.rename key := by
          intro index heq
          rw [← names.index _ (indexText_decimal index)] at heq
          exact hindex ⟨index, names.injective heq⟩
        rw [ownValue_other _ hkey fun index heq => hindex ⟨index, heq⟩,
          ownValue_other _ hlength' hindex']
        exact .none
  | object hkeys hvalues =>
      have hall := alike_object.mp (.object hkeys hvalues)
      rw [ownValue, ownValue]
      clear hkeys hvalues
      induction hall with
      | nil => exact .none
      | @cons first first' _ _ hfirst _ ih =>
          rw [List.find?_cons, List.find?_cons]
          by_cases hkey : first.1 = key
          · have hkey' : first'.1 = names.rename key := by rw [← hkey, hfirst.1]
            rw [decide_eq_true hkey, decide_eq_true hkey']
            exact .some hfirst.2
          · have hkey' : first'.1 ≠ names.rename key :=
              fun heq => hkey (names.injective (hfirst.1.trans heq))
            rw [decide_eq_false hkey, decide_eq_false hkey']
            exact ih

theorem argumentAt_alike {value value' : Json} (halike : Alike names.rename value value')
    (parts : List JsString) :
    AlikeOption names (argumentAt value (pointerOf parts))
      (argumentAt value' (pointerOf (parts.map names.rename))) := by
  rw [argumentAt_pointerOf, argumentAt_pointerOf]
  induction parts generalizing value value' with
  | nil => exact .some halike
  | cons part rest ih =>
      rw [List.map_cons, List.foldlM_cons, List.foldlM_cons]
      have hown := ownValue_alike names halike part
      cases hbefore : ownValue part value with
      | none =>
          rw [hbefore] at hown
          cases hafter : ownValue (names.rename part) value' with
          | none => exact .none
          | some _ =>
              rw [hafter] at hown
              cases hown
      | some found =>
          rw [hbefore] at hown
          cases hafter : ownValue (names.rename part) value' with
          | none =>
              rw [hafter] at hown
              cases hown
          | some found' =>
              rw [hafter] at hown
              obtain ⟨hfound⟩ := hown
              exact ih hfound

variable (heap) in
/-- A plan that tells apart no names but those a schema mentions. -/
def Names (plan : Plan) : Prop :=
  ∀ position, omits plan position = true → ∃ above, above <+: position ∧
    omits plan above = true ∧ ∀ name, .key name ∈ above → Mentioned heap name

theorem applies_mentioned {root : Address} {node target : Node Address} {position : List Step}
    (happlies : Applies heap root node position target) {name : JsString}
    (hmem : .key name ∈ position) : Mentioned heap name := by
  induction happlies with
  | self => cases hmem
  | part hcell hpart _ ih =>
      rcases List.mem_append.mp hmem with hmem | hmem
      · cases hpart with
        | reference | branch => cases hmem
        | property hget hrecord hentry =>
            obtain rfl := Step.key.inj (List.mem_singleton.mp hmem)
            exact mentioned_of_record hrecord (List.mem_map_of_mem hentry)
        | prefixItem | items | listItem | additionalItem =>
            exact absurd (List.mem_singleton.mp hmem) nofun
      · exact ih hmem

theorem says_names {root : Address} {node : Node Address} {plan : Plan}
    (hsaid : Says heap root node plan) : Names heap plan := by
  intro position homits
  obtain ⟨start, hstart, hprivate⟩ := (hsaid.omits position).mp homits
  refine ⟨start, hstart, (hsaid.omits start).mpr ⟨start, List.prefix_rfl, hprivate⟩, ?_⟩
  obtain ⟨target, happlies, -⟩ := hprivate
  exact fun name hmem => applies_mentioned happlies hmem

/-- What is told apart below a step. -/
theorem Names.below {plan inner : Plan} (hnames : Names heap plan) (hshown : plan.omitted = false)
    (step : Step)
    (hstep : ∀ position, omits plan (step :: position) = omits inner position) :
    Names heap inner ∧ ∀ position, omits inner position = true →
      ∀ name, step = .key name → Mentioned heap name := by
  have habove : ∀ position, omits inner position = true → ∃ above, above <+: position ∧
      omits inner above = true ∧ ∀ name, .key name ∈ step :: above → Mentioned heap name := by
    intro position homits
    obtain ⟨above, hprefixed, habove, hmentioned⟩ := hnames (step :: position)
      ((hstep position).trans homits)
    cases above with
    | nil =>
        rw [show omits plan [] = plan.omitted from rfl, hshown] at habove
        cases habove
    | cons other above =>
        obtain ⟨rfl, hrest⟩ := List.cons_prefix_cons.mp hprefixed
        exact ⟨above, hrest, (hstep above).symm.trans habove, hmentioned⟩
  constructor
  · intro position homits
    obtain ⟨above, hprefixed, hinner, hmentioned⟩ := habove position homits
    exact ⟨above, hprefixed, hinner, fun name hmem => hmentioned name (List.mem_cons_of_mem _ hmem)⟩
  · rintro position homits name rfl
    obtain ⟨above, -, -, hmentioned⟩ := habove position homits
    exact hmentioned name List.mem_cons_self

theorem Names.field {plan : Plan} (hnames : Names heap plan) (hshown : plan.omitted = false)
    (name : JsString) : Names heap (field plan.properties name) :=
  (hnames.below hshown (.key name) fun position => by rw [omits, hshown, Bool.false_or]).1

theorem Names.item {plan : Plan} (hnames : Names heap plan) (hshown : plan.omitted = false)
    (index : ℕ) : Names heap (item plan index) :=
  (hnames.below hshown (.index index) fun position => by rw [omits, hshown, Bool.false_or]).1

/-- A field that says something private is one that the schema mentions. -/
theorem mentioned_of_sensitive {plan : Plan} (hnormal : Normal plan) (hnames : Names heap plan)
    (hshown : plan.omitted = false) {name : JsString}
    (hsensitive : sensitive (field plan.properties name) = true) : Mentioned heap name := by
  obtain ⟨position, homits⟩ := (hnormal.parts.field name).exists_omits hsensitive
  refine (hnames.below hshown (.key name) fun position => ?_).2 position homits name rfl
  rw [omits, hshown, Bool.false_or]

/-- The plan of a member is the plan of the member under its other name. -/
theorem field_rename {plan : Plan} (hnormal : Normal plan) (hnames : Names heap plan)
    (hshown : plan.omitted = false) (name : JsString) :
    field plan.properties (names.rename name) = field plan.properties name := by
  have hpublic : ∀ other, ¬ Mentioned heap other → field plan.properties other = PUBLIC := by
    intro other hother
    refine sensitive_eq_false (Bool.eq_false_iff.mpr fun hsensitive => hother ?_)
    exact mentioned_of_sensitive hnormal hnames hshown hsensitive
  by_cases hsame : names.rename name = name
  · rw [hsame]
  · obtain ⟨⟨hbefore, -⟩, hafter, -⟩ := names.changed hsame
    rw [hpublic name hbefore, hpublic _ hafter]

/-- Parts that answer alike answer alike one after the other. -/
theorem applyEach_alike {Source : Type} {relation : Option Json → Option Json → Prop}
    {part part' : Source → Option (Option Json) × List Json} {sources sources' : List Source}
    (hall : List.Forall₂ (fun source source' =>
      Option.Rel relation (part source).1 (part' source').1) sources sources') :
    Option.Rel (List.Forall₂ relation) (applyEach part sources).1
      (applyEach part' sources').1 := by
  induction hall with
  | nil => exact .some .nil
  | @cons first first' rest rest' hfirst _ ih =>
      rw [applyEach, applyEach]
      rcases hpart : part first with ⟨_ | result, marks⟩ <;>
        rcases hpart' : part' first' with ⟨_ | result', marks'⟩ <;>
          rw [hpart, hpart'] at hfirst
      · exact .none
      · cases hfirst
      · cases hfirst
      · obtain ⟨hresult⟩ := hfirst
        dsimp only
        cases hrest : (applyEach part rest).1 <;> cases hrest' : (applyEach part' rest').1 <;>
          rw [hrest, hrest'] at ih
        · exact .none
        · cases ih
        · cases ih
        · obtain ⟨hothers⟩ := ih
          exact .some (.cons hresult hothers)

theorem rel_map {First Second Third Fourth : Type} {before : First → Second → Prop}
    {after : Third → Fourth → Prop} {left : Option First} {right : Option Second}
    {onLeft : First → Third} {onRight : Second → Fourth} (hrel : Option.Rel before left right)
    (hmap : ∀ one two, before one two → after (onLeft one) (onRight two)) :
    Option.Rel after (left.map onLeft) (right.map onRight) := by
  cases hrel with
  | none => exact .none
  | some hone => exact .some (hmap _ _ hone)

theorem mapM_alike {results results' : List (Option Json)}
    (hall : List.Forall₂ (AlikeOption names) results results') :
    AlikeOption names ((results.mapM id).map .array) ((results'.mapM id).map .array) := by
  have hkept : Option.Rel (List.Forall₂ (Alike names.rename)) (results.mapM id)
      (results'.mapM id) := by
    induction hall with
    | nil => exact .some .nil
    | @cons first first' rest rest' hfirst _ ih =>
        rw [List.mapM_cons, List.mapM_cons]
        cases hfirst with
        | none => exact .none
        | some hvalue =>
            cases hrest : rest.mapM id <;> cases hrest' : rest'.mapM id <;>
              rw [hrest, hrest'] at ih
            · exact .none
            · cases ih
            · cases ih
            · obtain ⟨hothers⟩ := ih
              exact .some (.cons hvalue hothers)
  exact rel_map hkept fun _ _ hvalues => alike_array.mpr hvalues

theorem keptMembers_alike {members members' : List (JsString × Json)}
    (hmembers : List.Forall₂ (AlikeMember names.rename) members members')
    {results results' : List (Option Json)}
    (hresults : List.Forall₂ (AlikeOption names) results results') :
    Alike names.rename (.object (keptMembers members results))
      (.object (keptMembers members' results')) := by
  refine alike_object.mpr ?_
  induction hmembers generalizing results results' with
  | nil => exact .nil
  | cons hmember _ ih =>
      cases hresults with
      | nil => exact .nil
      | cons hresult hrest =>
          have hothers := ih hrest
          cases hresult with
          | none => exact hothers
          | some hvalue => exact .cons ⟨hmember.1, hvalue⟩ hothers

/-- What a plan leaves of values that are alike is alike. -/
theorem apply_alike (levels : ℕ) {plan : Plan} (hnormal : Normal plan) (hnames : Names heap plan)
    {value value' : Json} (halike : Alike names.rename value value') :
    Option.Rel (AlikeOption names) (apply levels value plan).1 (apply levels value' plan).1 := by
  induction levels generalizing plan value value' with
  | zero =>
      rw [apply.eq_def, apply.eq_def]
      dsimp only
      split_ifs
      · exact .some (.some halike)
      · exact .none
  | succ levels ih =>
      rw [apply.eq_def, apply.eq_def]
      dsimp only
      split_ifs with hpublic homitted
      · exact .some (.some halike)
      · exact .some .none
      rw [Bool.not_eq_true] at homitted
      cases halike with
      | null | bool | number | string => exact .some (.some (by constructor))
      | @array entries entries' hlength hentries =>
          have hall : List.Forall₂ (fun part part' : Json × ℕ => Option.Rel (AlikeOption names)
              (apply levels part.1 (item plan part.2)).1
              (apply levels part'.1 (item plan part'.2)).1) entries.zipIdx entries'.zipIdx := by
            refine forall₂_of_getElem (by rw [List.length_zipIdx, List.length_zipIdx, hlength]) ?_
            intro index part part' hpart hpart'
            rw [List.getElem?_zipIdx, Option.map_eq_some_iff] at hpart hpart'
            obtain ⟨entry, hentry, rfl⟩ := hpart
            obtain ⟨entry', hentry', rfl⟩ := hpart'
            exact ih (hnormal.parts.item _) (hnames.item homitted _)
              (hentries index entry entry' hentry hentry')
          exact rel_map (applyEach_alike hall) fun _ _ hresults => mapM_alike names hresults
      | @object members members' hkeys hvalues =>
          have hmembers := alike_object.mp (.object hkeys hvalues)
          have hall : List.Forall₂ (fun part part' : JsString × Json =>
              Option.Rel (AlikeOption names) (apply levels part.2 (field plan.properties part.1)).1
                (apply levels part'.2 (field plan.properties part'.1)).1) members members' := by
            refine hmembers.imp fun part part' hpart => ?_
            rw [← hpart.1, field_rename names hnormal hnames homitted]
            exact ih (hnormal.parts.field _) (hnames.field homitted _) hpart.2
          exact rel_map (applyEach_alike hall) fun _ _ hresults =>
            .some (keptMembers_alike names hmembers hresults)

end Applying

end Connecta.Arguments
